import VaultAgent.Base64

/-!
# Reading base64 piece by piece

A base64 text from which bytes are taken as they are asked for. Groups of four signs are decoded one
after the other, and what a request leaves of a group waits for the next one. So a fault in the text
is seen only when a request reaches it, except that the last group is checked at the start, where it
settles how many bytes there are. Padding may stand in the last group only.
-/

namespace VaultAgent.Base64

/-- Why bytes cannot be taken from a base64 text. -/
inductive StreamError
  /-- The text is not base64. -/
  | encoding
  /-- More was asked for than the text holds. -/
  | length
  deriving DecidableEq, Repr

structure Stream where
  /-- The groups not decoded yet. -/
  rest : List UInt8
  /-- Bytes decoded and not handed out yet. -/
  waiting : List UInt8
  deriving DecidableEq, Repr

namespace Stream

/-- The bytes of one group, which may be padded if it is the last. -/
def group (isLast : Bool) (signs : List UInt8) : Except StreamError (List UInt8) :=
  if pad ∈ signs ∧ !isLast then .error .encoding
  else match decode signs with
    | .ok bytes => .ok bytes
    | .error _ => .error .encoding

def ofText (text : List UInt8) : Except StreamError Stream := do
  if text = [] then throw .length
  if text.length % 4 ≠ 0 then throw .encoding
  let _ ← group true (text.drop (text.length - 4))
  return ⟨text, []⟩

/-- How many bytes are still to be handed out: three for each group, less one for each padding sign
at the end. -/
def size (s : Stream) : Nat :=
  s.waiting.length + (s.rest.length / 4 * 3 - (s.rest.reverse.takeWhile (· = pad)).length)

/-- Decodes groups until they make `n` bytes. Gives these bytes, the surplus of the last group and
the text after it. -/
def pull (n : Nat) : List UInt8 → Except StreamError (List UInt8 × List UInt8 × List UInt8)
  | a :: b :: c :: d :: rest =>
    if n = 0 then .ok ([], [], a :: b :: c :: d :: rest)
    else do
      let bytes ← group rest.isEmpty [a, b, c, d]
      if n ≤ bytes.length then return (bytes.take n, bytes.drop n, rest)
      let (more, waiting, rest) ← pull (n - bytes.length) rest
      return (bytes ++ more, waiting, rest)
  | rest => if n = 0 then .ok ([], [], rest) else .error .length

/-- Takes exactly `n` bytes. -/
def take (n : Nat) (s : Stream) : Except StreamError (List UInt8 × Stream) :=
  if n ≤ s.waiting.length then .ok (s.waiting.take n, { s with waiting := s.waiting.drop n })
  else do
    let (more, waiting, rest) ← pull (n - s.waiting.length) s.rest
    return (s.waiting ++ more, ⟨rest, waiting⟩)

end Stream

end VaultAgent.Base64
