import ReflectionError.Proofs.Wire.Split

/-!
# ReflectionError.Proofs.Wire.Shift

Reading does not depend on how many bytes stand before the cursor. From a place that is `n` bytes
further on, with the same bytes behind it, every read gives the same value and moves as far; the
offsets in errors and fields are larger by `n`. A payload that is cut up completely is cut up in the
same way in front of more bytes.

* `readVarint_shift`, `readKey_shift`, `readBytes_shift`, `readLengthDelimited_shift`,
  `skipValue_shift`, `readField_shift`: one for each read.
* `splitFields_shift`: the fields of a whole payload.
* `splitFields_append`: the fields of two payloads, one behind the other.
-/

namespace ReflectionError

/-- The error with its offset, if it has one, larger by `n`. -/
def DecodeError.shift (n : Nat) : DecodeError → DecodeError
  | malformedVarint offset => malformedVarint (offset + n)
  | truncatedInput offset needed remaining => truncatedInput (offset + n) needed remaining
  | invalidEncoding field fault => invalidEncoding field fault
  | invalidKey offset => invalidKey (offset + n)
  | invalidWireType offset value => invalidWireType (offset + n) value
  | unexpectedEndGroup offset number => unexpectedEndGroup (offset + n) number
  | recursionLimitExceeded limit => recursionLimitExceeded limit
  | messageTooLarge size limit => messageTooLarge size limit

def Cursor.shift (n : Nat) (c : Cursor) : Cursor := ⟨c.offset + n, c.rest⟩

def Failure.shift (n : Nat) (failure : Failure) : Failure :=
  ⟨failure.error.shift n, failure.cursor.shift n⟩

def RawField.shift (n : Nat) (f : RawField) : RawField := { f with offset := f.offset + n }

/-- An outcome `n` bytes further on, if `move` does to a value what that does to it. -/
def moved {α : Type} (n : Nat) (move : α → α) : Except Failure α → Except Failure α
  | .ok a => .ok (move a)
  | .error failure => .error (failure.shift n)

/-- What a read gives `n` bytes further on, if its value holds no offset. -/
def movedRead {α : Type} (n : Nat) (x : Read α) : Read α := moved n (Prod.map id (Cursor.shift n)) x

section Moved

variable {α : Type} (n : Nat)

@[simp] theorem moved_ok (move : α → α) (a : α) : moved n move (.ok a) = .ok (move a) := rfl

@[simp] theorem movedRead_ok (a : α) (c : Cursor) :
    movedRead n (.ok (a, c)) = .ok (a, c.shift n) := rfl

theorem map_snd_movedRead (x : Read α) :
    (movedRead n x).map Prod.snd = moved n (Cursor.shift n) (x.map Prod.snd) := by
  cases x <;> rfl

theorem map_mk_moved (a : α) (x : Except Failure Cursor) :
    (moved n (Cursor.shift n) x).map (a, ·) = movedRead n (x.map (a, ·)) := by
  cases x <;> rfl

end Moved

namespace Cursor

section Reads

variable (n : Nat) (c d : Cursor)

theorem shift_rest : (c.shift n).rest = c.rest := rfl

theorem shift_advance (k : Nat) : (c.shift n).advance k = (c.advance k).shift n := by
  rw [advance, advance, shift, shift, Nat.add_right_comm]

theorem sub_shift : (d.shift n).offset - (c.shift n).offset = d.offset - c.offset :=
  Nat.add_sub_add_right ..

theorem upTo_shift : (c.shift n).upTo (d.shift n) = c.upTo d := by
  rw [upTo, upTo, sub_shift, shift_rest]

theorem readVarint_shift : (c.shift n).readVarint = movedRead n c.readVarint := by
  rw [readVarint, readVarint, shift_rest]
  cases Varint.scan Varint.maxLength c.rest with
  | found value length =>
    simp only [shift_advance]
    rfl
  | cutOff length => rfl
  | endless => rfl

theorem readKey_shift : (c.shift n).readKey = movedRead n c.readKey := by
  rw [readKey, readKey, readVarint_shift]
  cases c.readVarint with
  | error failure => rfl
  | ok r =>
    obtain ⟨value, behind⟩ := r
    simp only [movedRead_ok]
    split
    · rfl
    · cases WireType.ofNat? (value % 8) <;> rfl

theorem readBytes_shift (length : Nat) :
    (c.shift n).readBytes length = movedRead n (c.readBytes length) := by
  rw [readBytes, readBytes, shift_rest, shift_advance]
  split <;> rfl

theorem readLengthDelimited_shift :
    (c.shift n).readLengthDelimited = movedRead n c.readLengthDelimited := by
  rw [readLengthDelimited, readLengthDelimited, readVarint_shift]
  cases c.readVarint with
  | error failure => rfl
  | ok r => exact readBytes_shift n r.2 r.1

theorem skipPlain_shift (wireType : WireType) :
    (c.shift n).skipPlain wireType = moved n (shift n) (c.skipPlain wireType) := by
  cases wireType with
  | varint => rw [skipPlain, readVarint_shift, map_snd_movedRead]; rfl
  | fixed64 => rw [skipPlain, readBytes_shift, map_snd_movedRead]; rfl
  | lengthDelimited => rw [skipPlain, readLengthDelimited_shift, map_snd_movedRead]; rfl
  | startGroup => rfl
  | endGroup => rfl
  | fixed32 => rw [skipPlain, readBytes_shift, map_snd_movedRead]; rfl

theorem passInner_shift (limit number : Nat) (outer : List Nat) :
    (c.shift n).passInner limit number outer = movedRead n (c.passInner limit number outer) := by
  rw [passInner, passInner, readKey_shift]
  cases c.readKey with
  | error failure => rfl
  | ok r =>
    obtain ⟨⟨number', wireType⟩, behind⟩ := r
    simp only [movedRead_ok]
    cases wireType with
    | endGroup =>
      simp only
      split <;> rfl
    | startGroup =>
      simp only
      split <;> rfl
    | _ =>
      simp only [skipPlain_shift]
      exact map_mk_moved ..

theorem closeGroups_cons (limit number : Nat) (outer : List Nat) :
    c.closeGroups limit (number :: outer) =
      match c.passInner limit number outer with
      | .error failure => .error failure
      | .ok (opened, next) => next.closeGroups limit opened := by
  rw [closeGroups]
  split <;> simp [*]

/-- By induction on the steps. The stack holds numbers and no offsets, so it stays as it is. -/
theorem closeGroups_shift (limit : Nat) (opened : List Nat) :
    (c.shift n).closeGroups limit opened = moved n (shift n) (c.closeGroups limit opened) := by
  fun_induction closeGroups limit opened c with
  | case1 c => rw [closeGroups]; rfl
  | case2 c number outer failure hp => rw [closeGroups_cons, passInner_shift, hp]; rfl
  | case3 c number outer opened next hp ih =>
    rw [closeGroups_cons, passInner_shift, hp]
    exact ih

theorem skipValue_shift (key : Key) (limit : Nat) :
    (c.shift n).skipValue key limit = moved n (shift n) (c.skipValue key limit) := by
  rw [skipValue, skipValue]
  cases key.wireType with
  | startGroup =>
    simp only
    split
    · rfl
    · exact closeGroups_shift n c ..
  | endGroup => rfl
  | _ => exact skipPlain_shift n c _

theorem readField_shift (limit : Nat) :
    (c.shift n).readField limit =
      moved n (Prod.map (RawField.shift n) (shift n)) (c.readField limit) := by
  rw [readField, readField, readKey_shift]
  cases c.readKey with
  | error failure => rfl
  | ok r =>
    obtain ⟨key, behind⟩ := r
    simp only [movedRead_ok, skipValue_shift]
    cases behind.skipValue key limit with
    | error failure => rfl
    | ok next =>
      simp only [moved_ok, upTo_shift, sub_shift]
      rfl

end Reads

/-! ## Whole payloads -/

theorem splitFields_shift (n limit : Nat) (c : Cursor) :
    (c.shift n).splitFields limit =
      ((c.splitFields limit).1.map (RawField.shift n),
        (c.splitFields limit).2.map (DecodeError.shift n)) := by
  fun_induction splitFields limit c with
  | case1 c hc => exact splitFields_of_rest_eq_nil limit hc
  | case2 c hc failure hr =>
    have hs := readField_shift n c limit
    rw [hr] at hs
    rw [splitFields_of_error (c := c.shift n) hc hs]
    rfl
  | case3 c hc f next hr fields stop hs ih =>
    have hf := readField_shift n c limit
    rw [hr] at hf
    rw [splitFields_of_readField hf]
    simp only [ih, hs, List.map_cons]

/-- By induction on the fields in front: none of them looks behind its own bytes. -/
theorem splitFields_append {limit offset : Nat} {fields : List RawField} {front : List UInt8}
    (h : splitFields limit ⟨offset, front⟩ = (fields, none)) (back : List UInt8) :
    splitFields limit ⟨offset, front ++ back⟩ =
      (fields ++ (splitFields limit ⟨offset + front.length, back⟩).1,
        (splitFields limit ⟨offset + front.length, back⟩).2) := by
  have hs := splitFields_eq_iff.1 h
  clear h
  induction fields generalizing offset front with
  | nil =>
    obtain rfl : [] = front := hs.1
    rfl
  | cons field fields ih =>
    obtain ⟨hb, ⟨ho, hp⟩, hf⟩ := hs
    rw [List.flatMap_cons] at hb
    obtain rfl : field.bytes ++ fields.flatMap RawField.bytes = front := hb
    have hr : readField ⟨offset, field.bytes ++ (fields.flatMap RawField.bytes ++ back)⟩ limit =
        .ok (field, ⟨offset + field.bytes.length, fields.flatMap RawField.bytes ++ back⟩) :=
      readField_eq_ok_iff.2 ⟨ho, hf field (List.mem_cons_self ..), rfl, rfl⟩
    have hi := @ih (offset + field.bytes.length) (fields.flatMap RawField.bytes)
      ⟨rfl, hp, fun f hm => hf f (List.mem_cons_of_mem _ hm)⟩
    rw [List.append_assoc, splitFields_of_readField hr, hi, List.length_append, Nat.add_assoc]
    rfl

end Cursor
end ReflectionError
