import VaultAgent.Toml.Text

/-!
# Dates and times in TOML documents

A date, a time of day, or both with an offset perhaps. Days have to exist in their month. A minute
may have a sixty-first second. Each function gives what is left behind the thing it reads.
-/

namespace VaultAgent.Toml

/-- A number of as many digits as said. -/
def fixedDigits (width : Nat) (cs : List Char) : Option (Nat × List Char) :=
  let digits := cs.take width
  if digits.length = width ∧ digits.all Char.isDigit then some (numeral 10 digits, cs.drop width)
  else none

/-- A number of two digits between two bounds. -/
def twoDigits (low high : Nat) (cs : List Char) : Option (Nat × List Char) := do
  let (n, rest) ← fixedDigits 2 cs
  if low ≤ n ∧ n ≤ high then some (n, rest) else none

def isLeapYear (year : Nat) : Bool :=
  year % 4 = 0 && (year % 100 ≠ 0 || year % 400 = 0)

def daysIn (year month : Nat) : Nat :=
  if month = 2 then (if isLeapYear year then 29 else 28)
  else if month = 4 ∨ month = 6 ∨ month = 9 ∨ month = 11 then 30
  else 31

def date (cs : List Char) : Option (List Char) := do
  let (year, rest) ← fixedDigits 4 cs
  let (month, rest) ← twoDigits 1 12 (← expect '-' rest)
  let (_, rest) ← twoDigits 1 (daysIn year month) (← expect '-' rest)
  return rest

/-- A point and digits, if they are there. -/
def secondFraction (cs : List Char) : List Char :=
  match cs with
  | '.' :: d :: rest => if d.isDigit then rest.dropWhile Char.isDigit else cs
  | _ => cs

def time (cs : List Char) : Option (List Char) := do
  let (_, rest) ← twoDigits 0 23 cs
  let (_, rest) ← twoDigits 0 59 (← expect ':' rest)
  let (_, rest) ← twoDigits 0 60 (← expect ':' rest)
  return secondFraction rest

/-- The distance from universal time. -/
def offset (cs : List Char) : Option (List Char) :=
  match cs with
  | c :: rest =>
    if c = 'Z' ∨ c = 'z' then some rest
    else if c = '+' ∨ c = '-' then do
      let (_, rest) ← twoDigits 0 23 rest
      let (_, rest) ← twoDigits 0 59 (← expect ':' rest)
      return rest
    else none
  | [] => none

/-- The time that stands behind a date, and an offset behind that. -/
def timeOfDate (cs : List Char) : Option (List Char) :=
  match cs with
  | c :: rest =>
    if c = 'T' ∨ c = 't' ∨ c = ' ' then do
      let rest ← time rest
      return (offset rest).getD rest
    else none
  | [] => none

/-- Reads a date, a time, or both. -/
def dateTime? (cs : List Char) : Option (List Char) :=
  match date cs with
  | some rest => some ((timeOfDate rest).getD rest)
  | none => time cs

end VaultAgent.Toml
