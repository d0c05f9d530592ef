import ReflectionError.Text.Utf8
import ReflectionError.Wire.Key

/-!
# ReflectionError.Wire.Cursor

Reading from a place in a payload. A read gives a value and the place behind it, or a failure, which
holds the error and the place where reading stood when it arose: a varint or a run of bytes that
cannot be read is not begun, a refused key and the length in front of missing content are passed.
A read that succeeds goes forward: `rest_lt_of_readVarint`, `rest_lt_of_readKey`. Offsets count
bytes from the start of the payload that was handed in.
-/

namespace ReflectionError

/-! ## Errors -/

inductive DecodeError where
  /-- Ten bytes from `offset` on, and none of them ends the varint. -/
  | malformedVarint (offset : Nat)
  /-- What starts at `offset` needs more bytes than there are. -/
  | truncatedInput (offset needed remaining : Nat)
  | invalidEncoding (field : String) (fault : Utf8.Fault)
  | invalidKey (offset : Nat)
  | invalidWireType (offset value : Nat)
  | unexpectedEndGroup (offset number : Nat)
  /-- Groups stand in each other more than `limit` deep. -/
  | recursionLimitExceeded (limit : Nat)
  | messageTooLarge (size limit : Nat)
  deriving DecidableEq

namespace DecodeError

def message : DecodeError → String
  | malformedVarint offset =>
    s!"Malformed varint at offset {offset}: no terminating byte within 10 bytes"
  | truncatedInput offset needed remaining =>
    s!"Truncated input at offset {offset}: needed {needed} byte(s) but only {remaining} remain"
  | invalidEncoding field fault => "Field '" ++ field ++ "' is not valid UTF-8: " ++ fault.message
  | invalidKey offset => s!"Invalid field key at offset {offset}"
  | invalidWireType offset value => s!"Invalid wire type {value} at offset {offset}"
  | unexpectedEndGroup offset number =>
    s!"Unexpected end-group for field {number} at offset {offset}"
  | recursionLimitExceeded limit => s!"Group nesting exceeds the limit of {limit}"
  | messageTooLarge size limit => s!"Message of {size} bytes exceeds the limit of {limit} bytes"

end DecodeError

/-! ## Places -/

/-- A place in a payload: how many bytes stand before it, and the bytes behind it. -/
structure Cursor where
  offset : Nat
  rest : List UInt8
  deriving DecidableEq

namespace Cursor

def start (payload : List UInt8) : Cursor := ⟨0, payload⟩

def advance (c : Cursor) (n : Nat) : Cursor := ⟨c.offset + n, c.rest.drop n⟩

def upTo (c d : Cursor) : List UInt8 := c.rest.take (d.offset - c.offset)

end Cursor

structure Failure where
  error : DecodeError
  cursor : Cursor
  deriving DecidableEq

abbrev Read (α : Type) := Except Failure (α × Cursor)

namespace Cursor

/-- A varint of at most ten bytes, as a 64-bit number: what goes over 64 bits is lost. -/
def readVarint (c : Cursor) : Read Nat :=
  match Varint.scan Varint.maxLength c.rest with
  | .found value length => .ok (value % UInt64.size, c.advance length)
  | .cutOff length => .error ⟨.truncatedInput c.offset (length + 1) length, c⟩
  | .endless => .error ⟨.malformedVarint c.offset, c⟩

/-- A key. The field number is looked at before the wire type. -/
def readKey (c : Cursor) : Read Key :=
  match c.readVarint with
  | .error failure => .error failure
  | .ok (value, behind) =>
    if value / 8 = 0 || Key.maxNumber < value / 8 then .error ⟨.invalidKey c.offset, behind⟩
    else match WireType.ofNat? (value % 8) with
      | some wireType => .ok (⟨value / 8, wireType⟩, behind)
      | none => .error ⟨.invalidWireType c.offset (value % 8), behind⟩

def readBytes (c : Cursor) (length : Nat) : Read (List UInt8) :=
  if c.rest.length < length then .error ⟨.truncatedInput c.offset length c.rest.length, c⟩
  else .ok (c.rest.take length, c.advance length)

def readLengthDelimited (c : Cursor) : Read (List UInt8) :=
  match c.readVarint with
  | .error failure => .error failure
  | .ok (length, behind) => behind.readBytes length

theorem rest_lt_of_readVarint {c d : Cursor} {value : Nat} (h : c.readVarint = .ok (value, d)) :
    d.rest.length < c.rest.length := by
  unfold readVarint at h
  split at h
  · next hs =>
    have := Varint.scan_length_bounds hs
    simp only [Except.ok.injEq, Prod.mk.injEq] at h
    rw [← h.2, advance, List.length_drop]
    omega
  · simp at h
  · simp at h

theorem rest_lt_of_readKey {c d : Cursor} {key : Key} (h : c.readKey = .ok (key, d)) :
    d.rest.length < c.rest.length := by
  unfold readKey at h
  split at h
  · simp at h
  · next hv =>
    split at h
    · simp at h
    · split at h
      · simp only [Except.ok.injEq, Prod.mk.injEq] at h
        rw [← h.2]
        exact rest_lt_of_readVarint hv
      · simp at h

theorem rest_le_of_readBytes {c d : Cursor} {length : Nat} {bytes : List UInt8}
    (h : c.readBytes length = .ok (bytes, d)) : d.rest.length ≤ c.rest.length := by
  unfold readBytes at h
  split at h
  · simp at h
  · simp only [Except.ok.injEq, Prod.mk.injEq] at h
    rw [← h.2, advance, List.length_drop]
    omega

theorem rest_lt_of_readLengthDelimited {c d : Cursor} {bytes : List UInt8}
    (h : c.readLengthDelimited = .ok (bytes, d)) : d.rest.length < c.rest.length := by
  unfold readLengthDelimited at h
  split at h
  · simp at h
  · next hv => exact Nat.lt_of_le_of_lt (rest_le_of_readBytes h) (rest_lt_of_readVarint hv)

end Cursor
end ReflectionError
