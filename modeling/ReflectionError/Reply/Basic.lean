import ReflectionError.Wire.Field

/-!
# ReflectionError.Reply.Basic

The error reply of a reflection service: a status number, a text for people, and the fields found in
a payload that the reply does not declare, in the order they were found. `mergeFrom` puts one reply
on top of another: what is set overrides, undeclared fields are appended.
-/

namespace ReflectionError

/-- A field that the reply does not declare, byte for byte. -/
structure UnknownField where
  number : Nat
  wireType : WireType
  keyLength : Nat
  raw : List UInt8
  deriving DecidableEq

namespace UnknownField

def ofRaw (field : RawField) : UnknownField :=
  ⟨field.key.number, field.key.wireType, field.keyLength, field.bytes⟩

def payload (field : UnknownField) : List UInt8 := field.raw.drop field.keyLength

def encodeAll (fields : List UnknownField) : List UInt8 := fields.flatMap raw

/-- The number of bytes of the fields, summed up from their sizes. -/
def totalLength : List UnknownField → Nat
  | [] => 0
  | field :: fields => field.raw.length + totalLength fields

end UnknownField

structure Reply where
  code : Int32 := 0
  text : String := ""
  unknown : List UnknownField := []
  deriving DecidableEq

namespace Reply

def new (code : Int32) (text : String) : Reply := { code, text }

def setCode (r : Reply) (code : Int32) : Reply := { r with code }

def setText (r : Reply) (text : String) : Reply := { r with text }

def appendUnknown (r : Reply) (fields : List UnknownField) : Reply :=
  { r with unknown := r.unknown ++ fields }

def clearUnknown (r : Reply) : Reply := { r with unknown := [] }

/-- Puts `other` on top of `r`. A zero code and an empty text count as not set. -/
def mergeFrom (r other : Reply) : Reply where
  code := if other.code = 0 then r.code else other.code
  text := if other.text = "" then r.text else other.text
  unknown := r.unknown ++ other.unknown

end Reply
end ReflectionError
