/-!
# ReflectionError.Wire.Varint

Numbers in base 128, the lowest digit first, one digit a byte; the high bit of a byte says that
another one follows. `encode` writes the shortest form of a number below `2 ^ 64` and `length` tells
its length from the number's bit length. `scan` reads any form of up to a given number of bytes.
-/

namespace ReflectionError
namespace Varint

def maxLength : Nat := 10

def encode (value : Nat) : List UInt8 :=
  if value < 128 then [UInt8.ofNat value]
  else UInt8.ofNat (value % 128 + 128) :: encode (value / 128)

/-- The number of bytes that `encode value` has, for a value below `2 ^ 64`. -/
def length (value : Nat) : Nat := (9 * Nat.log2 value + 73) / 64

/-- What a byte string begins with: a varint, so many bytes of a varint that is cut off, or bytes
that all say that another one follows. -/
inductive Scan where
  | found (value length : Nat)
  | cutOff (length : Nat)
  | endless
  deriving DecidableEq

def Scan.cons (low : Nat) : Scan → Scan
  | .found value length => .found (low + 128 * value) (length + 1)
  | .cutOff length => .cutOff (length + 1)
  | .endless => .endless

/-- Looks for a varint of at most `allowed` bytes. Its value is not reduced. -/
def scan : (allowed : Nat) → List UInt8 → Scan
  | 0, _ => .endless
  | _ + 1, [] => .cutOff 0
  | allowed + 1, b :: rest =>
    if b.toNat < 128 then .found b.toNat 1 else (scan allowed rest).cons (b.toNat % 128)

theorem scan_length_bounds {allowed : Nat} {bytes : List UInt8} {value length : Nat}
    (h : scan allowed bytes = .found value length) : 0 < length ∧ length ≤ bytes.length := by
  induction allowed generalizing bytes value length with
  | zero => simp [scan] at h
  | succ allowed ih =>
    cases bytes with
    | nil => simp [scan] at h
    | cons b rest =>
      rw [scan] at h
      split at h
      · simp only [Scan.found.injEq] at h
        simp only [List.length_cons]
        omega
      · cases hs : scan allowed rest with
        | found v n =>
          rw [hs] at h
          simp only [Scan.cons, Scan.found.injEq] at h
          have := ih hs
          simp only [List.length_cons]
          omega
        | cutOff n => rw [hs] at h; simp [Scan.cons] at h
        | endless => rw [hs] at h; simp [Scan.cons] at h

end Varint
end ReflectionError
