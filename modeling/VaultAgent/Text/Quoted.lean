import VaultAgent.Text.Printable

/-!
# Quoted text

A text between double quotes in which everything a reader could not see is spelled out: `\n`, `\r`,
`\t`, `\0`, the quote and the backslash by a backslash, any other character that prints nothing or
prints over its neighbour by its code point in braces, as in `\u\x7b301\x7d`.
-/

namespace VaultAgent.Quoted

/-- The hexadecimal digits of a number, without leading zeros. -/
def hexDigits (n : Nat) : List Char :=
  Nat.toDigits 16 n

/-- How one character is written between the quotes. -/
def escape (c : Char) : List Char :=
  if c = '\x00' then ['\\', '0']
  else if c = '\t' then ['\\', 't']
  else if c = '\r' then ['\\', 'r']
  else if c = '\n' then ['\\', 'n']
  else if c = '\\' then ['\\', '\\']
  else if c = '"' then ['\\', '"']
  else if isExtending c || !isPrintable c then ['\\', 'u', '\x7b'] ++ hexDigits c.toNat ++ ['\x7d']
  else [c]

/-- The text in double quotes. -/
def quote (s : String) : String :=
  String.ofList ('"' :: s.toList.flatMap escape ++ ['"'])

end VaultAgent.Quoted
