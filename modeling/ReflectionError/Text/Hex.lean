import ReflectionError.Text.Printable
import ReflectionError.Text.Utf8

/-!
# ReflectionError.Text.Hex

Bytes as hexadecimal text. `encode` writes two lower-case digits a byte; `decode` reads digits of
either case, drops blanks wherever they stand and one `0x` or `0X` in front.
-/

namespace ReflectionError
namespace Hex

/-- The digit of the value `n`, which is below 16. -/
def digit (n : Nat) : Char := if n < 10 then Char.ofNat (0x30 + n) else Char.ofNat (0x57 + n)

def digitValue? (b : UInt8) : Option Nat :=
  if 0x30 ≤ b && b ≤ 0x39 then some (b.toNat - 0x30)
  else if 0x41 ≤ b && b ≤ 0x46 then some (b.toNat - 0x37)
  else if 0x61 ≤ b && b ≤ 0x66 then some (b.toNat - 0x57)
  else none

def encodeByte (b : UInt8) : List Char := [digit (b.toNat / 16), digit (b.toNat % 16)]

def encode (bytes : List UInt8) : String := String.ofList (bytes.flatMap encodeByte)

/-- Why a text is not hexadecimal. A bad digit is a byte of the text, shown as the character of the
same number. -/
inductive Fault where
  | oddLength
  | badDigit (digit : UInt8) (position : Nat)
  deriving DecidableEq

def Fault.message : Fault → String
  | .oddLength => "Invalid hex payload: Odd number of digits"
  | .badDigit b position =>
    "Invalid hex payload: Invalid character " ++ Quoted.character (Char.ofNat b.toNat) ++
      s!" at position {position}"

def readDigit (position : Nat) (b : UInt8) : Except Fault Nat :=
  match digitValue? b with
  | some n => .ok n
  | none => .error (.badDigit b position)

/-- The bytes that pairs of digits spell, the first digit standing at `position`. -/
def decodePairs (position : Nat) : List UInt8 → Except Fault (List UInt8)
  | [] => .ok []
  | [_] => .error .oddLength
  | a :: b :: rest => do
    let high ← readDigit position a
    let low ← readDigit (position + 1) b
    let bytes ← decodePairs (position + 2) rest
    return UInt8.ofNat (high * 16 + low) :: bytes

def dropMarker : List Char → List Char
  | '0' :: 'x' :: rest => rest
  | '0' :: 'X' :: rest => rest
  | s => s

def compact (s : String) : List Char := dropMarker (s.toList.filter fun c => !Text.isBlank c)

/-- The bytes that a text spells. That the digits pair up is looked at before the digits are. -/
def decode (s : String) : Except Fault (List UInt8) :=
  let digits := (compact s).flatMap String.utf8EncodeChar
  if digits.length % 2 = 0 then decodePairs 0 digits else .error .oddLength

end Hex
end ReflectionError
