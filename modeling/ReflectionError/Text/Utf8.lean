/-!
# ReflectionError.Text.Utf8

UTF-8 bytes as text. `step` looks at the front of a byte string and finds a character, the longest
run of bytes that begins no character, or a character that the input cuts off. `decode` accepts
well-formed input only and reports the first fault with its index; `repair` puts one replacement
character for each fault and goes on behind it.
-/

namespace ReflectionError
namespace Utf8

/-- What stands at the front of a byte string. A number counts the bytes used after the first. -/
inductive Step where
  | char (c : Char) (more : Nat)
  | invalid (more : Nat)
  | incomplete
  deriving DecidableEq

def isTail (b : UInt8) : Bool := 0x80 ≤ b && b ≤ 0xBF

/-- The least and the greatest byte that may follow the lead byte `a` of three or four. They keep
out overlong forms, surrogates and code points above 10FFFF. -/
def secondBounds (a : UInt8) : UInt8 × UInt8 :=
  if a = 0xE0 then (0xA0, 0xBF)
  else if a = 0xED then (0x80, 0x9F)
  else if a = 0xF0 then (0x90, 0xBF)
  else if a = 0xF4 then (0x80, 0x8F)
  else (0x80, 0xBF)

def isSecond (a b : UInt8) : Bool := (secondBounds a).1 ≤ b && b ≤ (secondBounds a).2

def step2 (a : UInt8) : List UInt8 → Step
  | [] => .incomplete
  | b :: _ =>
    if isTail b then .char (Char.ofNat (a.toNat % 32 * 64 + b.toNat % 64)) 1 else .invalid 0

def step3 (a : UInt8) : List UInt8 → Step
  | [] => .incomplete
  | b :: rest =>
    if !isSecond a b then .invalid 0
    else match rest with
      | [] => .incomplete
      | c :: _ =>
        if !isTail c then .invalid 1
        else .char (Char.ofNat ((a.toNat % 16 * 64 + b.toNat % 64) * 64 + c.toNat % 64)) 2

def step4 (a : UInt8) : List UInt8 → Step
  | [] => .incomplete
  | b :: rest =>
    if !isSecond a b then .invalid 0
    else match rest with
      | [] => .incomplete
      | c :: rest =>
        if !isTail c then .invalid 1
        else match rest with
          | [] => .incomplete
          | d :: _ =>
            if !isTail d then .invalid 2
            else .char (Char.ofNat
              (((a.toNat % 8 * 64 + b.toNat % 64) * 64 + c.toNat % 64) * 64 + d.toNat % 64)) 3

/-- The front of `a :: rest`. The lead byte fixes how many bytes a character takes. -/
def step (a : UInt8) (rest : List UInt8) : Step :=
  if a < 0x80 then .char (Char.ofNat a.toNat) 0
  else if a < 0xC2 then .invalid 0
  else if a < 0xE0 then step2 a rest
  else if a < 0xF0 then step3 a rest
  else if a < 0xF5 then step4 a rest
  else .invalid 0

/-- Where text stops being UTF-8: `validUpTo` bytes are fine, then `invalidLength` bytes begin no
character, or (`none`) the input ends inside one. -/
structure Fault where
  validUpTo : Nat
  invalidLength : Option Nat
  deriving DecidableEq

def Fault.message : Fault → String
  | ⟨index, some length⟩ => s!"invalid utf-8 sequence of {length} bytes from index {index}"
  | ⟨index, none⟩ => s!"incomplete utf-8 byte sequence from index {index}"

/-- The characters of `bytes`, whose first byte has the given index. -/
def decodeFrom (index : Nat) : List UInt8 → Except Fault (List Char)
  | [] => .ok []
  | a :: rest =>
    match step a rest with
    | .char c more => (decodeFrom (index + more + 1) (rest.drop more)).map (c :: ·)
    | .invalid more => .error ⟨index, some (more + 1)⟩
    | .incomplete => .error ⟨index, none⟩
termination_by bytes => bytes.length
decreasing_by simp only [List.length_drop, List.length_cons]; omega

def decode (bytes : List UInt8) : Except Fault String := (decodeFrom 0 bytes).map String.ofList

def replacement : Char := '\ufffd'

/-- The characters of `bytes`, with one replacement for each fault. -/
def repairChars : List UInt8 → List Char
  | [] => []
  | a :: rest =>
    match step a rest with
    | .char c more => c :: repairChars (rest.drop more)
    | .invalid more => replacement :: repairChars (rest.drop more)
    | .incomplete => [replacement]
termination_by bytes => bytes.length
decreasing_by all_goals simp only [List.length_drop, List.length_cons]; omega

def repair (bytes : List UInt8) : String := String.ofList (repairChars bytes)

def encode (text : String) : List UInt8 := text.toList.flatMap String.utf8EncodeChar

end Utf8
end ReflectionError
