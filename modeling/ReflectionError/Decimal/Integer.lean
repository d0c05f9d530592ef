/-!
# ReflectionError.Decimal.Integer

Whole numbers in decimal text, bounded above or on both sides. Reading goes from left to right and
stops at the first character that is no digit or the first digit that takes the number over its
bound, whichever comes first. Leading zeros are fine and a plus sign may stand in front.
-/

namespace ReflectionError
namespace Decimal

inductive Fault where
  | empty
  | invalidDigit
  | tooLarge
  | tooSmall
  deriving DecidableEq

def Fault.message : Fault → String
  | .empty => "cannot parse integer from empty string"
  | .invalidDigit => "invalid digit found in string"
  | .tooLarge => "number too large to fit in target type"
  | .tooSmall => "number too small to fit in target type"

def digitValue? (c : Char) : Option Nat :=
  if '0' ≤ c && c ≤ '9' then some (c.toNat - 0x30) else none

/-- Reads digits behind a number `value`; `overflow` is the fault of going over `limit`. -/
def readDigits (limit : Nat) (overflow : Fault) (value : Nat) : List Char → Except Fault Nat
  | [] => .ok value
  | c :: rest =>
    match digitValue? c with
    | none => .error .invalidDigit
    | some d =>
      if limit < value * 10 + d then .error overflow
      else readDigits limit overflow (value * 10 + d) rest

def isLoneSign : List Char → Bool
  | ['+'] => true
  | ['-'] => true
  | _ => false

/-- A number from 0 to `limit`. A minus sign is no digit. -/
def readNat (limit : Nat) (s : List Char) : Except Fault Nat :=
  if s = [] then .error .empty
  else if isLoneSign s then .error .invalidDigit
  else match s with
    | '+' :: digits => readDigits limit .tooLarge 0 digits
    | digits => readDigits limit .tooLarge 0 digits

/-- A number from `-2 ^ (bits - 1)` to `2 ^ (bits - 1) - 1`. -/
def readInt (bits : Nat) (s : List Char) : Except Fault Int :=
  if s = [] then .error .empty
  else if isLoneSign s then .error .invalidDigit
  else match s with
    | '-' :: digits =>
      (readDigits (Nat.pow 2 (bits - 1)) .tooSmall 0 digits).map fun n => -(n : Int)
    | '+' :: digits => (readDigits (Nat.pow 2 (bits - 1) - 1) .tooLarge 0 digits).map Int.ofNat
    | digits => (readDigits (Nat.pow 2 (bits - 1) - 1) .tooLarge 0 digits).map Int.ofNat

end Decimal
end ReflectionError
