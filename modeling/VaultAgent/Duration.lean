/-!
# Durations

Spans of time in whole nanoseconds, and their text: a decimal number of the largest unit that fits,
without needless zeros.
-/

namespace VaultAgent

structure Duration where
  nanoseconds : Nat
  deriving DecidableEq, Repr

namespace Duration

def ofSeconds (n : Nat) : Duration :=
  ⟨n * 1000000000⟩

def seconds (d : Duration) : Nat :=
  d.nanoseconds / 1000000000

/-- The digits of a number, with zeros in front up to a width. -/
def padded (width n : Nat) : List Char :=
  let digits := Nat.toDigits 10 n
  List.replicate (width - digits.length) '0' ++ digits

/-- Digits behind a point: no zeros at the end, and no point if nothing is left. -/
def fraction (digits : List Char) : List Char :=
  match (digits.reverse.dropWhile (· = '0')).reverse with
  | [] => []
  | kept => '.' :: kept

/-- The number of nanoseconds with a point `places` digits before its end. -/
def inUnit (places : Nat) (unit : String) (d : Duration) : String :=
  let digits := padded (places + 1) d.nanoseconds
  let whole := digits.length - places
  String.ofList (digits.take whole ++ fraction (digits.drop whole)) ++ unit

def text (d : Duration) : String :=
  if d.nanoseconds ≥ 1000000000 then d.inUnit 9 "s"
  else if d.nanoseconds ≥ 1000000 then d.inUnit 6 "ms"
  else if d.nanoseconds ≥ 1000 then d.inUnit 3 "µs"
  else d.inUnit 0 "ns"

end Duration

end VaultAgent
