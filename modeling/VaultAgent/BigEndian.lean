/-!
# Big-endian numbers

Numbers as bytes, the most significant first. Reading what was written gives the number back, less
what its width cannot hold.
-/

namespace VaultAgent

/-- How many numbers have no more bytes than `width`. -/
def capacity : Nat → Nat
  | 0 => 1
  | width + 1 => capacity width * 256

/-- The `width` low bytes of a number, the most significant first. -/
def beBytes : Nat → Nat → List UInt8
  | 0, _ => []
  | width + 1, n => beBytes width (n / 256) ++ [UInt8.ofNat (n % 256)]

/-- The number that bytes spell, the most significant first. -/
def beValue (bytes : List UInt8) : Nat :=
  bytes.foldl (fun n b => n * 256 + b.toNat) 0

theorem beBytes_length (width n : Nat) : (beBytes width n).length = width := by
  induction width generalizing n with
  | zero => rfl
  | succ width ih => simp [beBytes, ih]

theorem beValue_concat (bytes : List UInt8) (b : UInt8) :
    beValue (bytes ++ [b]) = beValue bytes * 256 + b.toNat := by
  simp [beValue]

theorem beValue_beBytes (width n : Nat) : beValue (beBytes width n) = n % capacity width := by
  induction width generalizing n with
  | zero => simp [beBytes, beValue, capacity, Nat.mod_one]
  | succ width ih =>
    have byte : (UInt8.ofNat (n % 256)).toNat = n % 256 := by simp
    rw [beBytes, beValue_concat, ih, byte, capacity, Nat.mul_comm (capacity width), Nat.mod_mul]
    omega

end VaultAgent
