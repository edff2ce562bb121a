/-!
# JSON values

A value as it stands in a document: numbers keep their text, and strings and keys keep what stands
between their quotes, escapes included. What a string means is asked for only where somebody needs
it (`Json.unescape?`), so a value that nobody reads may hold text without a meaning.
-/

namespace VaultAgent

inductive Json
  | null
  | bool (b : Bool)
  | number (text : List UInt8)
  | string (body : List UInt8)
  | array (items : List Json)
  | object (members : List (List UInt8 × Json))
  deriving Repr

namespace Json

/-- The bytes of a text that is known to be ASCII. -/
def ascii (s : String) : List UInt8 :=
  s.toList.map fun c => UInt8.ofNat c.toNat

/-- The quote around strings. -/
def quote : UInt8 := 34

/-- The first byte of an escape. -/
def backslash : UInt8 := 92

/-- The byte between items. -/
def comma : UInt8 := 44

/-- The byte between a key and its value. -/
def colon : UInt8 := 58

def openArray : UInt8 := 91

def closeArray : UInt8 := 93

def openObject : UInt8 := 123

def closeObject : UInt8 := 125

end Json

end VaultAgent
