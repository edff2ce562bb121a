import VaultAgent.Ssh.PublicKey
import VaultAgent.Text.Blank

/-!
# Key lines

A public key as one line of text: the name of the algorithm, the key in base64, and perhaps a
comment, between blanks. `PublicKey.line` writes it without a comment. `PublicKey.ofLine` reads it,
and `PublicKey.ofLineBytes` reads it where it is kept as bytes, perhaps with blanks around it.
-/

namespace VaultAgent.Ssh

namespace KeyLine

/-- The characters of the first two parts of a line. -/
def isPartChar (c : Char) : Bool :=
  c.isAlphanum || c = '+' || c = '-' || c = '/' || c = '=' || c = '@' || c = '.'

/-- The part in front and what follows the blank behind it. -/
def part (cs : List Char) : Except WireError (List Char × List Char) :=
  match cs.dropWhile isPartChar with
  | [] => .ok (cs.takeWhile isPartChar, [])
  | ' ' :: rest => .ok (cs.takeWhile isPartChar, rest)
  | _ :: _ => .error .characters

end KeyLine

namespace PublicKey

/-- The line that stands for the key. -/
def line (k : PublicKey) : String :=
  k.algorithm.name ++ " " ++ Base64.text k.toBytes

/-- Reads a line, whose first part has to be the name of the algorithm of the key in it. -/
def ofLine (s : List Char) : Except WireError PublicKey := do
  let (name, rest) ← KeyLine.part s
  let (text, _comment) ← KeyLine.part rest
  if name = [] ∨ text = [] then throw .length
  match Base64.Stream.ofText (Utf8.encode text) with
  | .error e => throw (.base64 e)
  | .ok stream =>
    Decoder.run (do
      let key ← Decoder.publicKey
      if key.algorithm.name ≠ String.ofList name then throw .unknownAlgorithm
      Decoder.finish
      return key) (.base64 stream)

/-- Why bytes are not a key line. -/
inductive LineError
  | notText (fault : Utf8.Invalid)
  | notKey (fault : WireError)
  deriving DecidableEq, Repr

def LineError.message : LineError → String
  | notText fault => s!"not UTF-8: {fault.message}"
  | notKey fault => fault.message

def ofLineBytes (bytes : List UInt8) : Except LineError PublicKey :=
  match Utf8.decode bytes with
  | .error fault => .error (.notText fault)
  | .ok cs =>
    match ofLine (Blank.trim cs) with
    | .error fault => .error (.notKey fault)
    | .ok key => .ok key

end PublicKey

end VaultAgent.Ssh
