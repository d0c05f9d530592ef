import ReflectionError.Proofs.Reply.Frames

/-!
# ReflectionError.Proofs.Reply.Sink

Replies in buffers of fixed size. The sizes that are computed beforehand are those of what is
written, so the room that was found large enough is. To say what a failed write leaves behind,
`writeInPlace` follows the buffer piece by piece: a piece that does not fit ends the writing, and
those in front of it stay.

* `write_eq`: writing is writing in place, and the buffer is handed out if nothing went wrong.
* `fill_eq`: pieces that fit together are written one behind the other.
* `writesWhole_writeInPlace`: what pieces do to a buffer if their size in all is the one asked for.
* `encodeInPlace_exact`: the sizes of a reply and of its frame, and what both do to any buffer.
-/

namespace ReflectionError
namespace Sink

/-- Puts pieces in turn until one does not fit: whether all did, and the buffer then. -/
def fill (s : Sink) : List (List UInt8) → Bool × Sink
  | [] => (true, s)
  | piece :: pieces =>
    match s.put? piece with
    | some next => next.fill pieces
    | none => (false, s)

/-- What writing does to the buffer: what went wrong, if anything, and the buffer after it. -/
def writeInPlace (s : Sink) (required : Nat) (pieces : List (List UInt8)) :
    Option EncodeError × Sink :=
  if s.room < required then (some (.insufficientCapacity required s.room), s)
  else match s.fill pieces with
    | (true, next) => (none, next)
    | (false, next) => (some .overrun, next)

def handOut : Option EncodeError × Sink → Except EncodeError Sink
  | (none, next) => .ok next
  | (some e, _) => .error e

/-- All of `output` is written into a buffer that has room for it, behind what the buffer holds and
over as many old bytes. Into any other nothing is written; the failure tells the room that is needed
and the room there is. -/
def WritesWhole (output : List UInt8) (write : Sink → Option EncodeError × Sink) : Prop :=
  ∀ s : Sink,
    (output.length ≤ s.room → ∃ t, write s = (none, t) ∧
      t.storage = s.storage.take s.filled ++ output ++ s.storage.drop (s.filled + output.length) ∧
      t.filled = s.filled + output.length ∧ t.room = s.room - output.length) ∧
    (s.room < output.length → write s = (some (.insufficientCapacity output.length s.room), s))

theorem putAll?_eq (s : Sink) (pieces : List (List UInt8)) :
    s.putAll? pieces = if (s.fill pieces).1 then some (s.fill pieces).2 else none := by
  induction pieces generalizing s with
  | nil => rfl
  | cons piece pieces ih =>
    rw [putAll?, fill]
    cases s.put? piece with
    | none => rfl
    | some next => exact ih next

theorem write_eq (s : Sink) (required : Nat) (pieces : List (List UInt8)) :
    s.write required pieces = handOut (s.writeInPlace required pieces) := by
  rw [write, writeInPlace, putAll?_eq]
  split
  · rfl
  · obtain ⟨done, next⟩ := s.fill pieces
    cases done <;> rfl

/-! ## Pieces that fit -/

def push (s : Sink) (output : List UInt8) : Sink :=
  ⟨s.storage.take s.filled ++ output ++ s.storage.drop (s.filled + output.length),
    s.filled + output.length⟩

theorem push_nil (s : Sink) : s.push [] = s := by
  simp [push]

section Push

variable {s : Sink} {output : List UInt8}

theorem put?_eq_push (h : output.length ≤ s.room) : s.put? output = some (s.push output) :=
  if_pos h

theorem room_push (h : output.length ≤ s.room) :
    (s.push output).room = s.room - output.length := by
  have hl : (s.push output).storage.length = s.storage.length := by
    rw [room] at h
    simp only [push, List.length_append, List.length_take, List.length_drop]
    omega
  rw [room, hl, push, room, Nat.sub_sub]

theorem push_push (h : output.length ≤ s.room) (more : List UInt8) :
    (s.push output).push more = s.push (output ++ more) := by
  by_cases hf : s.filled ≤ s.storage.length
  · have hl : (s.storage.take s.filled ++ output).length = s.filled + output.length := by
      rw [List.length_append, List.length_take, Nat.min_eq_left hf]
    have htake : (s.push output).storage.take (s.push output).filled =
        s.storage.take s.filled ++ output := by
      rw [push, ← hl, List.take_left]
    have hdrop : (s.push output).storage.drop ((s.push output).filled + more.length) =
        s.storage.drop (s.filled + output.length + more.length) := by
      rw [push, ← hl, List.drop_length_add_append, List.drop_drop]
    rw [push, htake, hdrop]
    simp only [push, List.length_append, List.append_assoc, Nat.add_assoc]
  · -- A buffer that claims to hold more than there is has no room.
    have hn : output = [] := by
      rw [room] at h
      exact List.length_eq_zero_iff.1 (by omega)
    rw [hn, push_nil, List.nil_append]

theorem fill_eq {pieces : List (List UInt8)} (h : pieces.flatten.length ≤ s.room) :
    s.fill pieces = (true, s.push pieces.flatten) := by
  induction pieces generalizing s with
  | nil => rw [fill, List.flatten_nil, push_nil]
  | cons piece pieces ih =>
    rw [List.flatten_cons, List.length_append] at h
    have hp : piece.length ≤ s.room := by omega
    have hr : pieces.flatten.length ≤ (s.push piece).room := by
      rw [room_push hp]
      omega
    rw [fill, put?_eq_push hp]
    exact (ih hr).trans (by rw [push_push hp, List.flatten_cons])

end Push

theorem writesWhole_writeInPlace {required : Nat} {pieces : List (List UInt8)}
    (h : required = pieces.flatten.length) :
    WritesWhole pieces.flatten fun s => s.writeInPlace required pieces := by
  subst h
  refine fun s => ⟨fun hr => ⟨s.push pieces.flatten, ?_, rfl, rfl, room_push hr⟩, fun hr => ?_⟩
  · simp only [writeInPlace, if_neg (Nat.not_lt.2 hr), fill_eq hr]
  · simp only [writeInPlace, if_pos hr]

/-- Where all of the output is written or nothing, no piece goes over the end. -/
theorem WritesWhole.handOut_ne_overrun {output : List UInt8}
    {write : Sink → Option EncodeError × Sink} (h : WritesWhole output write) (s : Sink) :
    handOut (write s) ≠ .error .overrun := by
  rcases Nat.lt_or_ge s.room output.length with hr | hr
  · rw [(h s).2 hr]
    exact nofun
  · obtain ⟨t, ht, _⟩ := (h s).1 hr
    rw [ht]
    exact nofun

end Sink

namespace Reply

open Sink

/-- What `encodeInto` does to the buffer. -/
def encodeInPlace (m : Reply) (s : Sink) : Option EncodeError × Sink :=
  s.writeInPlace m.encodedLength m.chunks

/-- What `encodeDelimitedInto` does to the buffer. -/
def encodeDelimitedInPlace (m : Reply) (s : Sink) : Option EncodeError × Sink :=
  s.writeInPlace (Varint.length m.encodedLength + m.encodedLength) m.frameChunks

theorem text_size_le_length (m : Reply) : m.text.utf8ByteSize ≤ m.encode.length := by
  by_cases ht : m.text = ""
  · rw [ht, String.utf8ByteSize_empty]
    exact Nat.zero_le _
  · have hm : Utf8.encode m.text ∈ m.chunks := by simp [chunks, if_neg ht]
    rw [← Utf8.length_encode]
    exact (List.sublist_flatten_of_mem hm).length_le

/-- The size of a reply and that of its frame are known before they are written, so both are written
as a whole or not at all. -/
theorem encodeInPlace_exact (m : Reply) (h : m.encodeDelimited.length < 2 ^ 64) :
    m.encodedLength = m.encode.length ∧
    (∃ header, Varint.Minimal header m.encode.length ∧ m.encodeDelimited = header ++ m.encode) ∧
    WritesWhole m.encode m.encodeInPlace ∧
    WritesWhole m.encodeDelimited m.encodeDelimitedInPlace ∧
    ∀ s : Sink,
      m.encodeInto s = handOut (m.encodeInPlace s) ∧
      m.encodeDelimitedInto s = handOut (m.encodeDelimitedInPlace s) ∧
      m.encodeInto s ≠ .error .overrun ∧ m.encodeDelimitedInto s ≠ .error .overrun := by
  have hd : m.encodeDelimited.length =
      (Varint.encode m.encodedLength).length + m.encode.length := by
    rw [encodeDelimited_eq, List.length_append]
  have ht : m.text.utf8ByteSize < 2 ^ 64 :=
    Nat.lt_of_le_of_lt m.text_size_le_length (by omega)
  have hl := length_encode ht
  have hf : m.encodeDelimited.length = Varint.length m.encodedLength + m.encodedLength := by
    rw [hd, hl, Varint.length_encode (by omega)]
  have hw : WritesWhole m.encode m.encodeInPlace := writesWhole_writeInPlace hl.symm
  have hw' : WritesWhole m.encodeDelimited m.encodeDelimitedInPlace :=
    writesWhole_writeInPlace hf.symm
  refine ⟨hl.symm, ⟨_, ?_, m.encodeDelimited_eq⟩, hw, hw', fun s => ?_⟩
  · rw [hl]
    exact Varint.minimal_encode _
  · have hi : m.encodeInto s = handOut (m.encodeInPlace s) := write_eq ..
    have hi' : m.encodeDelimitedInto s = handOut (m.encodeDelimitedInPlace s) := write_eq ..
    rw [hi, hi']
    exact ⟨rfl, rfl, hw.handOut_ne_overrun s, hw'.handOut_ne_overrun s⟩

/-- The first byte of each buffer is taken. The frame does not fit by one byte. -/
theorem encodeInPlace_one_byte_short :
    let m : Reply := { code := 5, text := "a" }
    let s : Sink := { storage := List.replicate 6 0xff, filled := 1 }
    m.encodeDelimited.length < 2 ^ 64 ∧
      m.encodeDelimitedInPlace s = (some (.insufficientCapacity 6 5), s) ∧
      ∃ t, m.encodeInPlace s = (none, t) ∧ t.storage = [0xff, 0x08, 0x05, 0x12, 0x01, 0x61] ∧
        t.room = 0 := by
  intro m s
  have hd : m.encodeDelimited.length = 6 := by decide +kernel
  have he : m.encode = [0x08, 0x05, 0x12, 0x01, 0x61] := by decide +kernel
  have h : m.encodeDelimited.length < 2 ^ 64 := by
    rw [hd]
    decide
  obtain ⟨_, _, hw, hw', _⟩ := encodeInPlace_exact m h
  have hshort := (hw' s).2 (by rw [hd]; decide)
  rw [hd] at hshort
  obtain ⟨t, ht, hs, _, hr⟩ := (hw s).1 (by rw [he]; decide)
  rw [he] at hs hr
  exact ⟨h, hshort, t, ht, hs, hr⟩

end Reply
end ReflectionError
