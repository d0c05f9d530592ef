import ReflectionError.Proofs.Wire.Cut
import ReflectionError.Proofs.Wire.Reader

/-!
# ReflectionError.Proofs.Wire.Local

A reader's step depends on the bytes that it takes, and on nothing else of the buffer. What stands
before them only moves the offsets, and what stands behind them is not looked at: a step that has
all the bytes it asks for does the same anywhere in a longer buffer. A step that fails may have
asked for more bytes than there were, so it stays a failure only at the end of the buffer.

* `answer_shift`: a step `n` bytes further on, for answers and failures.
* `answer_append_of_ok`: a step that is answered, with more bytes behind the payload.
* `step_prepend`, `step_append_of_ok`: the same for the steps of a reader.
* `step_is_local`: a step over some bytes alone, and over a buffer that these bytes are part of.
-/

namespace ReflectionError

theorem Cursor.nextField_shift (n : Nat) (c : Cursor) (limit : Nat) :
    (c.shift n).nextField limit =
      moved n (Prod.map (Option.map (RawField.shift n)) (shift n)) (c.nextField limit) := by
  rw [nextField, nextField, shift_rest]
  split
  · rfl
  · rw [readField_shift]
    cases c.readField limit <;> rfl

namespace Reader

/-- The answer, with the offset of a field larger by `n`. -/
def Answer.shift (n : Nat) : Answer → Answer
  | field f => field (f.shift n)
  | a => a

theorem answer_shift (n : Nat) (c : Cursor) (s : Step) :
    answer (c.shift n) s = moved n (Prod.map (Answer.shift n) (Cursor.shift n)) (answer c s) := by
  cases s with
  | varint =>
    rw [answer, answer, Cursor.readVarint_shift]
    cases c.readVarint <;> rfl
  | key =>
    rw [answer, answer, Cursor.readKey_shift]
    cases c.readKey <;> rfl
  | bytes length =>
    rw [answer, answer, Cursor.readBytes_shift]
    cases c.readBytes length <;> rfl
  | lengthDelimited =>
    rw [answer, answer, Cursor.readLengthDelimited_shift]
    cases c.readLengthDelimited <;> rfl
  | skip key limit =>
    rw [answer, answer, Cursor.skipValue_shift]
    cases c.skipValue key limit <;> rfl
  | field limit =>
    rw [answer, answer, Cursor.nextField_shift]
    cases c.nextField limit with
    | error failure => rfl
    | ok r =>
      obtain ⟨_ | f, next⟩ := r
      · rfl
      · rfl

/-! ## Bytes behind -/

section Append

variable {c d : Cursor} {a : Answer} (back : List UInt8)

theorem map_append_of_ok {α : Type} {x y : Read α} {f : α → Answer}
    (h : CutOff back x ∨ y = appendedRead back x)
    (hx : x.map (fun (v, next) => (f v, next)) = .ok (a, d)) :
    y.map (fun (v, next) => (f v, next)) = .ok (a, d.append back) := by
  obtain ⟨⟨v, next⟩, hr, he⟩ := Except.map_eq_ok_iff.1 hx
  cases he
  rcases h with ⟨failure, hf, _⟩ | rfl
  · rw [hr] at hf
    cases hf
  · rw [hr]
    rfl

theorem answer_append_of_ok {s : Step} (h : answer c s = .ok (a, d)) (ha : a ≠ .atEnd) :
    answer (c.append back) s = .ok (a, d.append back) := by
  cases s with
  | varint => exact map_append_of_ok back (c.readVarint_append back) h
  | key => exact map_append_of_ok back (c.readKey_append back) h
  | bytes length => exact map_append_of_ok back (c.readBytes_append back length) h
  | lengthDelimited => exact map_append_of_ok back (c.readLengthDelimited_append back) h
  | skip key limit =>
    obtain ⟨next, hs, he⟩ := Except.map_eq_ok_iff.1 h
    cases he
    rcases c.skipValue_append back key limit with ⟨failure, hf, _⟩ | hs'
    · rw [hs] at hf
      cases hf
    · rw [answer, hs', hs]
      rfl
  | field limit =>
    obtain ⟨⟨found, next⟩, hn, he⟩ := Except.map_eq_ok_iff.1 h
    cases found with
    | none =>
      cases he
      exact absurd rfl ha
    | some f =>
      cases he
      have hr := Cursor.readField_append_of_ok back (Cursor.nextField_eq_ok_iff.1 hn)
      rw [answer, Cursor.nextField_eq_ok_iff.2 hr]
      rfl

end Append

/-! ## Steps of a reader -/

/-- The reader with `front` before its buffer, at the same byte. -/
def prepend (front : List UInt8) (r : Reader) : Reader :=
  ⟨front ++ r.buffer, front.length + r.position⟩

/-- The reader with `back` behind its buffer. -/
def append (r : Reader) (back : List UInt8) : Reader := ⟨r.buffer ++ back, r.position⟩

section Steps

variable {r l : Reader} {s : Step}

theorem cursor_prepend (front : List UInt8) (r : Reader) :
    (r.prepend front).cursor = r.cursor.shift front.length := by
  rw [cursor, prepend, List.drop_length_add_append, Nat.add_comm]
  rfl

theorem cursor_append (hr : r.position ≤ r.buffer.length) (back : List UInt8) :
    (r.append back).cursor = r.cursor.append back := by
  rw [cursor, append, List.drop_append_of_le_length hr]
  rfl

/-- Behind more bytes a step does the same, whether it is answered or fails. -/
theorem step_prepend (front : List UInt8) (r : Reader) (s : Step) :
    (r.prepend front).step s =
      (((r.step s).1.map (Answer.shift front.length)).mapError (DecodeError.shift front.length),
        (r.step s).2.prepend front) := by
  have hplace (d : Cursor) :
      (⟨front ++ r.buffer, (d.shift front.length).offset⟩ : Reader) =
        prepend front ⟨r.buffer, d.offset⟩ :=
    congrArg (Reader.mk _) (Nat.add_comm ..)
  rw [step_eq_outcome, step_eq_outcome, cursor_prepend, answer_shift]
  cases answer r.cursor s with
  | error failure => exact congrArg (Prod.mk _) (hplace failure.cursor)
  | ok p => exact congrArg (Prod.mk _) (hplace p.2)

/-- A step that is answered does the same in front of more bytes. At the end of the buffer it would
find them. -/
theorem step_append_of_ok (hr : r.position ≤ r.buffer.length) {a : Answer}
    (h : r.step s = (.ok a, l)) (ha : a ≠ .atEnd) (back : List UInt8) :
    (r.append back).step s = (.ok a, l.append back) := by
  obtain ⟨d, hd, rfl⟩ := step_eq_ok h
  rw [step_eq_outcome, cursor_append hr, answer_append_of_ok back hd ha]
  rfl

end Steps

/-- A step over `y` alone that is answered, and the same step inside a longer buffer, where `y`
begins: the answer and the bytes that are consumed are the same. A step over `w` alone that fails
does so at the end of a longer buffer. -/
theorem step_is_local (x y z w : List UInt8) (s : Step) :
    (∀ a l, (ofBuffer y).step s = (.ok a, l) → a ≠ .atEnd →
      (⟨x ++ y ++ z, x.length⟩ : Reader).step s =
          (.ok (a.shift x.length), ⟨x ++ y ++ z, x.length + l.position⟩) ∧
        (⟨x ++ y ++ z, x.length + l.position⟩ : Reader).consumedSince x.length =
          l.consumedSince 0) ∧
    ∀ e l, (ofBuffer w).step s = (.error e, l) →
      (⟨x ++ w, x.length⟩ : Reader).step s =
        (.error (e.shift x.length), ⟨x ++ w, x.length + l.position⟩) := by
  refine ⟨fun a l h ha => ?_, fun e l h => ?_⟩
  · have hlocal := step_prepend x ((ofBuffer y).append z) s
    rw [step_append_of_ok (Nat.zero_le _) h ha z] at hlocal
    obtain ⟨d, hd, rfl⟩ := step_eq_ok h
    rw [List.append_assoc]
    refine ⟨hlocal, ?_⟩
    obtain ⟨bytes, _, hp⟩ := takes_of_answer hd
    have hle := (passes_mk (Nat.zero_le _) hp).le_length (Nat.zero_le _)
    rw [consumedSince, consumedSince, List.drop_left, Nat.add_sub_cancel_left, List.drop_zero]
    exact List.take_append_of_le_length hle
  · have hlocal := step_prepend x (ofBuffer w) s
    rw [h] at hlocal
    obtain ⟨d, hd, rfl⟩ := step_eq_error h
    exact hlocal

/-- A group between bytes that are no fields, and a group that ends with the key of another. -/
theorem step_is_local_group :
    let x : List UInt8 := [0xff, 0xff]
    let y : List UInt8 := [0x0b, 0x08, 0x01, 0x0c]
    let z : List UInt8 := [0x0c]
    let w : List UInt8 := [0x0b, 0x14]
    let field (offset : Nat) : Answer := .field ⟨⟨1, .startGroup⟩, offset, y, 1⟩
    ((ofBuffer y).step (.field 100) = (.ok (field 0), ⟨y, 4⟩) ∧
      (⟨x ++ y ++ z, 2⟩ : Reader).step (.field 100) = (.ok (field 2), ⟨x ++ y ++ z, 6⟩)) ∧
    (ofBuffer w).step (.field 100) = (.error (.unexpectedEndGroup 1 2), ⟨w, 2⟩) ∧
      (⟨x ++ w, 2⟩ : Reader).step (.field 100) =
        (.error (.unexpectedEndGroup 3 2), ⟨x ++ w, 4⟩) := by
  intro x y z w field
  have hy : (ofBuffer y).step (.field 100) = (.ok (field 0), ⟨y, 4⟩) := by decide +kernel
  have hw : (ofBuffer w).step (.field 100) = (.error (.unexpectedEndGroup 1 2), ⟨w, 2⟩) := by
    decide +kernel
  have ha : field 0 ≠ .atEnd := by decide
  obtain ⟨hok, herror⟩ := step_is_local x y z w (.field 100)
  exact ⟨⟨hy, (hok _ _ hy ha).1⟩, hw, herror _ _ hw⟩

end Reader
end ReflectionError
