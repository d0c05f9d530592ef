import ReflectionError.Wire.Varint

/-!
# ReflectionError.Wire.Key

Keys: what stands in front of every field. A key is one varint, the field number times eight plus
the wire type, which says how the bytes behind it are laid out.
-/

namespace ReflectionError

inductive WireType where
  | varint
  | fixed64
  | lengthDelimited
  | startGroup
  | endGroup
  | fixed32
  deriving DecidableEq, Repr

namespace WireType

def toNat : WireType → Nat
  | varint => 0
  | fixed64 => 1
  | lengthDelimited => 2
  | startGroup => 3
  | endGroup => 4
  | fixed32 => 5

def ofNat? : Nat → Option WireType
  | 0 => some varint
  | 1 => some fixed64
  | 2 => some lengthDelimited
  | 3 => some startGroup
  | 4 => some endGroup
  | 5 => some fixed32
  | _ => none

def name : WireType → String
  | varint => "varint"
  | fixed64 => "fixed64"
  | lengthDelimited => "length-delimited"
  | startGroup => "start-group"
  | endGroup => "end-group"
  | fixed32 => "fixed32"

end WireType

/-- A field number, from 1 to `Key.maxNumber` when it was read, and a wire type. -/
structure Key where
  number : Nat
  wireType : WireType
  deriving DecidableEq, Repr

namespace Key

def maxNumber : Nat := 0x1fffffff

def encode (key : Key) : List UInt8 := Varint.encode (key.number * 8 + key.wireType.toNat)

/-- The number of bytes a key of field `number` has, whatever its wire type. -/
def length (number : Nat) : Nat := Varint.length (number * 8)

end Key
end ReflectionError
