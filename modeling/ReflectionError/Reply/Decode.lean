import ReflectionError.Reply.Encode

/-!
# ReflectionError.Reply.Decode

Replies from bytes. A declared field overrides what the reply had, so the last one counts; every
other field, and a declared number with another wire type, is kept as an undeclared field. A payload
gives a complete reply or an error. `decodeDelimited` reads one reply behind its length from the
front of a byte string, `readFrames` reads such replies one after another.
-/

namespace ReflectionError
namespace Reply

def decodeText (o : Options) (bytes : List UInt8) : Except DecodeError String :=
  match Utf8.decode bytes with
  | .ok text => .ok text
  | .error fault =>
    if o.strictText then .error (.invalidEncoding "error_message" fault)
    else .ok (Utf8.repair bytes)

/-- A code from the 64-bit number that was read: its low 32 bits. -/
def codeOfValue (value : Nat) : Int32 := Int32.ofNat value

def decodeField (o : Options) (r : Reply) (c : Cursor) : Except DecodeError (Reply × Cursor) :=
  match c.readKey with
  | .error failure => .error failure.error
  | .ok (key, behind) =>
    if key = ⟨codeField, .varint⟩ then
      match behind.readVarint with
      | .error failure => .error failure.error
      | .ok (value, next) => .ok ({ r with code := codeOfValue value }, next)
    else if key = ⟨textField, .lengthDelimited⟩ then
      match behind.readLengthDelimited with
      | .error failure => .error failure.error
      | .ok (bytes, next) => (decodeText o bytes).map fun text => ({ r with text }, next)
    else
      match behind.skipValue key o.nestingLimit with
      | .error failure => .error failure.error
      | .ok next =>
        .ok (r.appendUnknown
          [⟨key.number, key.wireType, behind.offset - c.offset, c.upTo next⟩], next)

theorem rest_lt_of_decodeField {o : Options} {r s : Reply} {c d : Cursor}
    (h : decodeField o r c = .ok (s, d)) : d.rest.length < c.rest.length := by
  unfold decodeField at h
  split at h
  · simp at h
  · next hk =>
    have := Cursor.rest_lt_of_readKey hk
    split at h
    · split at h
      · simp at h
      · next hv =>
        simp only [Except.ok.injEq, Prod.mk.injEq] at h
        exact Nat.lt_trans (h.2 ▸ Cursor.rest_lt_of_readVarint hv) this
    · split at h
      · split at h
        · simp at h
        · next bytes next hv =>
          obtain ⟨text, _, he⟩ := Except.map_eq_ok_iff.1 h
          cases he
          exact Nat.lt_trans (Cursor.rest_lt_of_readLengthDelimited hv) this
      · split at h
        · simp at h
        · next hs =>
          simp only [Except.ok.injEq, Prod.mk.injEq] at h
          exact Nat.lt_of_le_of_lt (h.2 ▸ Cursor.rest_le_of_skipValue hs) this

def decodeFields (o : Options) (r : Reply) (c : Cursor) : Except DecodeError Reply :=
  if c.rest = [] then .ok r
  else match _h : decodeField o r c with
    | .error e => .error e
    | .ok (s, next) => decodeFields o s next
termination_by c.rest.length
decreasing_by exact rest_lt_of_decodeField _h

def mergeWith (r : Reply) (payload : List UInt8) (o : Options) : Except DecodeError Reply :=
  match o.checkSize payload.length with
  | .error e => .error e
  | .ok () => decodeFields o r (Cursor.start payload)

def decode (payload : List UInt8) (o : Options) : Except DecodeError Reply :=
  mergeWith {} payload o

/-- Reads a length and a reply of that length from the front of `input`; the size limit and the
offsets of errors inside the reply are those of the reply alone. -/
def decodeDelimited (input : List UInt8) (o : Options) :
    Except DecodeError (Reply × List UInt8) :=
  match (Cursor.start input).readLengthDelimited with
  | .error failure => .error failure.error
  | .ok (body, next) => (decode body o).map fun r => (r, next.rest)

theorem length_lt_of_decodeDelimited {input rest : List UInt8} {o : Options} {r : Reply}
    (h : decodeDelimited input o = .ok (r, rest)) : rest.length < input.length := by
  unfold decodeDelimited at h
  split at h
  · simp at h
  · next body next hb =>
    obtain ⟨s, _, he⟩ := Except.map_eq_ok_iff.1 h
    cases he
    exact Cursor.rest_lt_of_readLengthDelimited hb

/-- Reads replies behind their lengths, at least one and then until nothing is left or one fails.
With each stands what is left after it; after a failure nothing has been taken away. -/
def readFrames (input : List UInt8) (o : Options) :
    List (Except DecodeError Reply × List UInt8) :=
  match _h : decodeDelimited input o with
  | .error e => [(.error e, input)]
  | .ok (r, rest) => (.ok r, rest) :: if rest = [] then [] else readFrames rest o
termination_by input.length
decreasing_by exact length_lt_of_decodeDelimited _h

end Reply
end ReflectionError
