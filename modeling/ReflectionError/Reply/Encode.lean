import ReflectionError.Reply.Basic

/-!
# ReflectionError.Reply.Encode

Replies as bytes: the code as field 1 and the text as field 2, each only if it is set, then the
undeclared fields as they were found. `encodedLength` computes the number of bytes from sizes alone.
A `Sink` is a buffer of fixed size; encoding into it checks the room before the first byte is
written.
-/

namespace ReflectionError
namespace Reply

def codeField : Nat := 1

def textField : Nat := 2

/-- A code as it is written: a negative one as the 64-bit number of the same low bits, with all the
higher ones set. -/
def codeValue (code : Int32) : Nat := (code.toInt % UInt64.size).toNat

def chunks (r : Reply) : List (List UInt8) :=
  (if r.code = 0 then []
    else [Key.encode ⟨codeField, .varint⟩, Varint.encode (codeValue r.code)]) ++
  (if r.text = "" then []
    else [Key.encode ⟨textField, .lengthDelimited⟩, Varint.encode r.text.utf8ByteSize,
      Utf8.encode r.text]) ++
  r.unknown.map UnknownField.raw

def encode (r : Reply) : List UInt8 := r.chunks.flatten

def encodedLength (r : Reply) : Nat :=
  (if r.code = 0 then 0 else Key.length codeField + Varint.length (codeValue r.code)) +
  (if r.text = "" then 0
    else Key.length textField + Varint.length r.text.utf8ByteSize + r.text.utf8ByteSize) +
  UnknownField.totalLength r.unknown

def frameChunks (r : Reply) : List (List UInt8) := Varint.encode r.encodedLength :: r.chunks

def encodeDelimited (r : Reply) : List UInt8 := r.frameChunks.flatten

end Reply

structure Sink where
  storage : List UInt8
  filled : Nat := 0
  deriving DecidableEq

namespace Sink

def zeroed (capacity : Nat) : Sink := { storage := List.replicate capacity 0 }

def room (s : Sink) : Nat := s.storage.length - s.filled

def put? (s : Sink) (piece : List UInt8) : Option Sink :=
  if piece.length ≤ s.room then
    some ⟨s.storage.take s.filled ++ piece ++ s.storage.drop (s.filled + piece.length),
      s.filled + piece.length⟩
  else none

def putAll? (s : Sink) : List (List UInt8) → Option Sink
  | [] => some s
  | piece :: pieces => (s.put? piece).bind fun next => next.putAll? pieces

end Sink

inductive EncodeError where
  | insufficientCapacity (required remaining : Nat)
  /-- A piece went over the end of the buffer after the room had been found large enough. -/
  | overrun
  deriving DecidableEq

def EncodeError.message : EncodeError → String
  | .insufficientCapacity required remaining =>
    s!"Insufficient buffer capacity: {required} byte(s) required, {remaining} available"
  | .overrun => "Write past the end of the buffer"

namespace Sink

/-- Writes pieces of `required` bytes in all, or nothing if there is no room for so many. -/
def write (s : Sink) (required : Nat) (pieces : List (List UInt8)) : Except EncodeError Sink :=
  if s.room < required then .error (.insufficientCapacity required s.room)
  else match s.putAll? pieces with
    | some next => .ok next
    | none => .error .overrun

end Sink

namespace Reply

def encodeInto (r : Reply) (s : Sink) : Except EncodeError Sink := s.write r.encodedLength r.chunks

def encodeDelimitedInto (r : Reply) (s : Sink) : Except EncodeError Sink :=
  s.write (Varint.length r.encodedLength + r.encodedLength) r.frameChunks

end Reply
end ReflectionError
