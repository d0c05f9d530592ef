import ReflectionError.Reply.Decode
import ReflectionError.Status

/-!
# ReflectionError.Reply.Stream

Replies in the body of a gRPC call. Each stands behind five bytes, a zero that says it is not
compressed and its length in big-endian order. The codec writes one reply behind what the buffer for
sending holds, and reads one from the part of the buffer for receiving that belongs to it. A reply
that cannot be written, and a body that is no reply, ends the stream with an internal error.
-/

namespace ReflectionError
namespace Reply

/-! ## Sending -/

def bigEndian32 (n : Nat) : List UInt8 :=
  [UInt8.ofNat (n / 0x1000000), UInt8.ofNat (n / 0x10000), UInt8.ofNat (n / 0x100), UInt8.ofNat n]

def streamHeader (length : Nat) : List UInt8 := 0 :: bigEndian32 length

/-- The room left in a buffer that grows as needed and holds so many bytes. -/
def growingRoom (held : Nat) : Nat := UInt64.size - 1 - held

/-- Puts a reply behind what a growing buffer holds, or nothing if there is no room for all of
it. -/
def encodeOnto (r : Reply) (held : List UInt8) : Except EncodeError (List UInt8) :=
  let room := growingRoom held.length
  if room < r.encodedLength then .error (.insufficientCapacity r.encodedLength room)
  else .ok (held ++ r.encode)

def encodeFailure (e : EncodeError) : Status :=
  ⟨.internal, "Failed to encode ErrorResponse: " ++ e.message⟩

def encodeMessage (r : Reply) (held : List UInt8) : Except Status (List UInt8) :=
  (r.encodeOnto held).mapError encodeFailure

/-- A message with its header. Room for the header is left in front of the message, and it is filled
in when the message is there. -/
def sendMessage (held : List UInt8) (r : Reply) : Except Status (List UInt8) :=
  (r.encodeMessage (held ++ streamHeader 0)).map fun buffer =>
    let body := buffer.drop (held.length + (streamHeader 0).length)
    streamHeader body.length ++ body

/-- Sends replies behind the bytes that have been sent. Of these, `held` are still in the buffer
when the next one is written. -/
def encodeStream (held : List UInt8 → List UInt8) (sent : List UInt8) :
    List Reply → Except Status (List UInt8)
  | [] => .ok sent
  | r :: replies =>
    match sendMessage (held sent) r with
    | .error status => .error status
    | .ok message => encodeStream held (sent ++ message) replies

/-! ## Receiving -/

/-- A buffer whose first `length` bytes belong to one message. -/
structure Window where
  buffer : List UInt8
  length : Nat
  deriving DecidableEq

def Window.take (w : Window) (count : Nat) : List UInt8 × Window :=
  (w.buffer.take count, ⟨w.buffer.drop count, w.length - count⟩)

def decodeFailure (e : DecodeError) : Status :=
  ⟨.internal, "Failed to decode ErrorResponse: " ++ e.message⟩

def decodeMessage (o : Options) (w : Window) : Except Status Reply × Window :=
  let (body, rest) := w.take w.length
  ((decode body o).mapError decodeFailure, rest)

def decodeStream (o : Options) : List (List UInt8) → List Reply × Option Status
  | [] => ([], none)
  | body :: bodies =>
    match (decodeMessage o ⟨body, body.length⟩).1 with
    | .error status => ([], some status)
    | .ok r =>
      let (replies, stop) := decodeStream o bodies
      (r :: replies, stop)

end Reply
end ReflectionError
