import ReflectionError.Proofs.Wire.Loop

/-!
# ReflectionError.Proofs.Wire.Reader

A reader that takes one step after another. A step that fails need not leave it where it stood: it
may be in the middle of nested groups, and the next step goes on from there. What is so of it at all
times is that it stands in its buffer and goes forward only. Whatever a step meets, it passes some
bytes and ends behind them. All that a step computes with is then in range.

* `takes_of_answer`: the bytes that a step takes when it is answered.
* `reaches_of_answer_error`: where a step stands that fails, one lemma for each read.
* `passes_of_step`, `passes_of_after`: one step passes some bytes, and so does every run.
* `run_stays_in_range`: what is so of a reader after any run, and of the step after it.
-/

namespace ReflectionError

open Grammar

namespace Cursor

/-! ## Where a read that fails has come to -/

def Reaches (c d : Cursor) : Prop := ∃ bytes, c.Passes bytes d

theorem Reaches.refl (c : Cursor) : c.Reaches c := ⟨[], .refl c⟩

theorem Passes.reaches {c d e : Cursor} {bytes : List UInt8} (h : c.Passes bytes d)
    (hd : d.Reaches e) : c.Reaches e := by
  obtain ⟨more, hm⟩ := hd
  exact ⟨bytes ++ more, h.trans hm⟩

section Errors

variable {c : Cursor} {failure : Failure}

theorem cursor_of_readVarint_error (h : c.readVarint = .error failure) : failure.cursor = c :=
  (readVarint_eq_error_iff.1 h).1

theorem cursor_of_readBytes_error {length : Nat} (h : c.readBytes length = .error failure) :
    failure.cursor = c := by
  unfold readBytes at h
  split at h
  · cases h
    rfl
  · cases h

theorem cursor_of_readLengthDelimited_error (h : c.readLengthDelimited = .error failure) :
    failure.cursor = c ∨
      ∃ header length, Varint.Denotes header length ∧ c.Passes header failure.cursor := by
  unfold readLengthDelimited at h
  split at h
  · next hv =>
    cases h
    exact .inl (cursor_of_readVarint_error hv)
  · next length behind hv =>
    obtain ⟨header, hh, hp⟩ := readVarint_eq_ok_iff.1 hv
    rw [cursor_of_readBytes_error h]
    exact .inr ⟨header, length, hh, hp⟩

theorem reaches_of_readVarint_error (h : c.readVarint = .error failure) :
    c.Reaches failure.cursor := by
  rw [cursor_of_readVarint_error h]
  exact .refl c

theorem reaches_of_readBytes_error {length : Nat} (h : c.readBytes length = .error failure) :
    c.Reaches failure.cursor := by
  rw [cursor_of_readBytes_error h]
  exact .refl c

theorem reaches_of_readLengthDelimited_error (h : c.readLengthDelimited = .error failure) :
    c.Reaches failure.cursor := by
  rcases cursor_of_readLengthDelimited_error h with he | ⟨header, _, _, hp⟩
  · rw [he]
    exact .refl c
  · exact ⟨header, hp⟩

theorem reaches_of_readKey_error (h : c.readKey = .error failure) : c.Reaches failure.cursor := by
  unfold readKey at h
  split at h
  · next hv =>
    cases h
    exact reaches_of_readVarint_error hv
  · next value behind hv =>
    obtain ⟨header, _, hp⟩ := readVarint_eq_ok_iff.1 hv
    have hbehind := hp.reaches (.refl behind)
    split at h
    · cases h
      exact hbehind
    · split at h
      · cases h
      · cases h
        exact hbehind

theorem reaches_of_skipPlain_error {wireType : WireType}
    (h : c.skipPlain wireType = .error failure) : c.Reaches failure.cursor := by
  cases wireType with
  | varint => exact reaches_of_readVarint_error (Except.map_eq_error_iff.1 h)
  | fixed64 => exact reaches_of_readBytes_error (Except.map_eq_error_iff.1 h)
  | lengthDelimited => exact reaches_of_readLengthDelimited_error (Except.map_eq_error_iff.1 h)
  | startGroup => cases h
  | endGroup => cases h
  | fixed32 => exact reaches_of_readBytes_error (Except.map_eq_error_iff.1 h)

theorem reaches_of_passInner_error {limit number : Nat} {outer : List Nat}
    (h : c.passInner limit number outer = .error failure) : c.Reaches failure.cursor := by
  unfold passInner at h
  split at h
  · next hk =>
    cases h
    exact reaches_of_readKey_error hk
  · next key behind hk =>
    obtain ⟨header, _, hp⟩ := readKey_eq_ok_iff.1 hk
    have hbehind := hp.reaches (.refl behind)
    split at h
    · split at h
      · cases h
      · cases h
        exact hbehind
    · split at h
      · cases h
      · cases h
        exact hbehind
    · exact hp.reaches (reaches_of_skipPlain_error (Except.map_eq_error_iff.1 h))

/-- By induction on the steps inside the groups. -/
theorem reaches_of_closeGroups_error {limit : Nat} {opened : List Nat}
    (h : c.closeGroups limit opened = .error failure) : c.Reaches failure.cursor := by
  fun_induction closeGroups limit opened c with
  | case1 => cases h
  | case2 c number outer failure hi =>
    cases h
    exact reaches_of_passInner_error hi
  | case3 c number outer opened next hi ih =>
    obtain ⟨bytes, _, hp⟩ := passInner_eq_ok_iff.1 hi
    exact hp.reaches (ih h)

theorem reaches_of_skipValue_error {key : Key} {limit : Nat}
    (h : c.skipValue key limit = .error failure) : c.Reaches failure.cursor := by
  unfold skipValue at h
  split at h
  · split at h
    · cases h
      exact .refl c
    · exact reaches_of_closeGroups_error h
  · cases h
    exact .refl c
  · exact reaches_of_skipPlain_error h

theorem reaches_of_readField_error {limit : Nat} (h : c.readField limit = .error failure) :
    c.Reaches failure.cursor := by
  unfold readField at h
  split at h
  · next hk =>
    cases h
    exact reaches_of_readKey_error hk
  · next key behind hk =>
    obtain ⟨header, _, hp⟩ := readKey_eq_ok_iff.1 hk
    split at h
    · next hs =>
      cases h
      exact hp.reaches (reaches_of_skipValue_error hs)
    · cases h

theorem reaches_of_nextField_error {limit : Nat} (h : c.nextField limit = .error failure) :
    c.Reaches failure.cursor := by
  unfold nextField at h
  split at h
  · cases h
  · exact reaches_of_readField_error (Except.map_eq_error_iff.1 h)

end Errors

end Cursor

namespace Reader

/-! ## What a step takes -/

/-- The bytes that a step at `place` takes when it is given an answer. They are all that the answer
tells of, or all that has been skipped. -/
inductive Takes (place : Nat) : Step → Answer → List UInt8 → Prop where
  | varint {value : Nat} {bytes : List UInt8} :
      Varint.Denotes bytes value → Takes place .varint (.value value) bytes
  | key {key : Key} {bytes : List UInt8} : key.SpelledBy bytes → Takes place .key (.key key) bytes
  | bytes {bytes : List UInt8} : Takes place (.bytes bytes.length) (.bytes bytes) bytes
  | lengthDelimited {header content : List UInt8} : Varint.Denotes header content.length →
      Takes place .lengthDelimited (.bytes content) (header ++ content)
  | skip {key : Key} {limit depth : Nat} {value : List UInt8} : depth ≤ min limit maxNesting →
      Value depth key value → Takes place (.skip key limit) .skipped value
  | field {limit : Nat} {field : RawField} : field.offset = place →
      IsField (min limit maxNesting) field.key field.keyLength field.bytes →
      Takes place (.field limit) (.field field) field.bytes
  | atEnd {limit : Nat} : Takes place (.field limit) .atEnd []

theorem takes_of_answer {c d : Cursor} {s : Step} {a : Answer} (h : answer c s = .ok (a, d)) :
    ∃ bytes, Takes c.offset s a bytes ∧ c.Passes bytes d := by
  cases s with
  | varint =>
    obtain ⟨⟨value, next⟩, hr, he⟩ := Except.map_eq_ok_iff.1 h
    cases he
    obtain ⟨bytes, hb, hp⟩ := Cursor.readVarint_eq_ok_iff.1 hr
    exact ⟨bytes, .varint hb, hp⟩
  | key =>
    obtain ⟨⟨key, next⟩, hr, he⟩ := Except.map_eq_ok_iff.1 h
    cases he
    obtain ⟨bytes, hb, hp⟩ := Cursor.readKey_eq_ok_iff.1 hr
    exact ⟨bytes, .key hb, hp⟩
  | bytes length =>
    obtain ⟨⟨bytes, next⟩, hr, he⟩ := Except.map_eq_ok_iff.1 h
    cases he
    obtain ⟨rfl, hp⟩ := Cursor.readBytes_eq_ok_iff.1 hr
    exact ⟨bytes, .bytes, hp⟩
  | lengthDelimited =>
    obtain ⟨⟨content, next⟩, hr, he⟩ := Except.map_eq_ok_iff.1 h
    cases he
    obtain ⟨header, hh, hp⟩ := Cursor.readLengthDelimited_eq_ok_iff.1 hr
    exact ⟨header ++ content, .lengthDelimited hh, hp⟩
  | skip key limit =>
    obtain ⟨next, hs, he⟩ := Except.map_eq_ok_iff.1 h
    cases he
    obtain ⟨depth, value, hd, hv, hp⟩ := Cursor.skipValue_eq_ok_iff.1 hs
    exact ⟨value, .skip hd hv, hp⟩
  | field limit =>
    obtain ⟨⟨found, next⟩, hn, he⟩ := Except.map_eq_ok_iff.1 h
    cases he
    cases found with
    | none =>
      obtain ⟨_, rfl⟩ := Cursor.nextField_eq_none_iff.1 hn
      exact ⟨[], .atEnd, .refl _⟩
    | some f =>
      obtain ⟨ho, hf, hp⟩ := Cursor.readField_eq_ok_iff.1 (Cursor.nextField_eq_ok_iff.1 hn)
      exact ⟨f.bytes, .field ho hf, hp⟩

theorem reaches_of_answer_error {c : Cursor} {s : Step} {failure : Failure}
    (h : answer c s = .error failure) : c.Reaches failure.cursor := by
  cases s with
  | varint => exact Cursor.reaches_of_readVarint_error (Except.map_eq_error_iff.1 h)
  | key => exact Cursor.reaches_of_readKey_error (Except.map_eq_error_iff.1 h)
  | bytes length => exact Cursor.reaches_of_readBytes_error (Except.map_eq_error_iff.1 h)
  | lengthDelimited =>
    exact Cursor.reaches_of_readLengthDelimited_error (Except.map_eq_error_iff.1 h)
  | skip key limit => exact Cursor.reaches_of_skipValue_error (Except.map_eq_error_iff.1 h)
  | field limit => exact Cursor.reaches_of_nextField_error (Except.map_eq_error_iff.1 h)

/-! ## Readers -/

/-- The reader after steps in turn. -/
def after (r : Reader) (steps : List Step) : Reader := steps.foldl (fun r s => (r.step s).2) r

theorem after_append (r : Reader) (front back : List Step) :
    r.after (front ++ back) = (r.after front).after back :=
  List.foldl_append

theorem run_append (r : Reader) (front back : List Step) :
    r.run (front ++ back) = r.run front ++ (r.after front).run back := by
  induction front generalizing r with
  | nil => rfl
  | cons s front ih =>
    rw [List.cons_append, run, run, ih, List.cons_append]
    rfl

/-- The readers have the same buffer, and the bytes between their positions are `bytes`. -/
structure Passes (r : Reader) (bytes : List UInt8) (l : Reader) : Prop where
  buffer_eq : l.buffer = r.buffer
  cursor : r.cursor.Passes bytes l.cursor

section Passes

variable {r l : Reader} {s : Step}

theorem isIn_cursor (h : r.position ≤ r.buffer.length) : r.cursor.IsIn r.buffer :=
  Cursor.isIn_atOffset h

namespace Passes

variable {bytes : List UInt8}

theorem le_length (h : r.Passes bytes l) (hr : r.position ≤ r.buffer.length) :
    l.position ≤ l.buffer.length := by
  have hl := ((isIn_cursor hr).of_passes h.cursor).offset_add
  rw [h.buffer_eq]
  exact Nat.le.intro hl

theorem consumedSince_eq (h : r.Passes bytes l) : l.consumedSince r.position = bytes := by
  rw [consumedSince, h.buffer_eq]
  exact h.cursor.upTo_eq

end Passes

theorem cursor_mk {d : Cursor} {buffer : List UInt8} (h : d.IsIn buffer) :
    (⟨buffer, d.offset⟩ : Reader).cursor = d := by
  rw [cursor, h.drop_eq]

theorem mk_of_eq_cursor {d : Cursor} (h : d = r.cursor) : (⟨r.buffer, d.offset⟩ : Reader) = r := by
  rw [h]
  rfl

theorem passes_mk (hr : r.position ≤ r.buffer.length) {bytes : List UInt8} {d : Cursor}
    (h : r.cursor.Passes bytes d) : r.Passes bytes ⟨r.buffer, d.offset⟩ := by
  refine ⟨rfl, ?_⟩
  rw [cursor_mk ((isIn_cursor hr).of_passes h)]
  exact h

theorem step_eq_outcome (r : Reader) (s : Step) :
    r.step s = Machine.outcome r.buffer (answer r.cursor s) := by
  rw [step]
  cases answer r.cursor s <;> rfl

theorem step_eq_ok {a : Answer} (h : r.step s = (.ok a, l)) :
    ∃ d, answer r.cursor s = .ok (a, d) ∧ l = ⟨r.buffer, d.offset⟩ := by
  rw [step] at h
  split at h
  · next d hd =>
    cases h
    exact ⟨d, hd, rfl⟩
  · cases h

theorem step_eq_error {e : DecodeError} (h : r.step s = (.error e, l)) :
    ∃ d, answer r.cursor s = .error ⟨e, d⟩ ∧ l = ⟨r.buffer, d.offset⟩ := by
  rw [step] at h
  split at h
  · cases h
  · next failure hf =>
    cases h
    exact ⟨failure.cursor, hf, rfl⟩

/-- A step goes forward in the buffer, whether it is answered or fails. -/
theorem passes_of_step (hr : r.position ≤ r.buffer.length) (s : Step) :
    ∃ bytes, r.Passes bytes (r.step s).2 := by
  cases h : r.step s with
  | mk x l =>
    cases x with
    | ok a =>
      obtain ⟨d, hd, rfl⟩ := step_eq_ok h
      obtain ⟨bytes, _, hp⟩ := takes_of_answer hd
      exact ⟨bytes, passes_mk hr hp⟩
    | error e =>
      obtain ⟨d, hd, rfl⟩ := step_eq_error h
      obtain ⟨bytes, hp⟩ := reaches_of_answer_error hd
      exact ⟨bytes, passes_mk hr hp⟩

/-- By induction on the steps. -/
theorem passes_of_after (hr : r.position ≤ r.buffer.length) (steps : List Step) :
    ∃ bytes, r.Passes bytes (r.after steps) := by
  induction steps generalizing r with
  | nil => exact ⟨[], rfl, .refl _⟩
  | cons s steps ih =>
    obtain ⟨front, hs⟩ := passes_of_step hr s
    obtain ⟨back, hl⟩ := ih (hs.le_length hr)
    exact ⟨front ++ back, hl.buffer_eq.trans hs.buffer_eq, hs.cursor.trans hl.cursor⟩

/-! ## Any run -/

/-- The reader stands in its buffer, in front of what remains, and what is consumed since a place
before is all that stands between. -/
structure InBuffer (buffer : List UInt8) (r : Reader) : Prop where
  buffer_eq : r.buffer = buffer
  le_length : r.position ≤ buffer.length
  add_remaining : r.position + r.remaining = buffer.length
  consumed : ∀ origin ≤ r.position,
    buffer = buffer.take origin ++ r.consumedSince origin ++ buffer.drop r.position

/-- Where a step leaves the reader. It goes forward by what it takes if it is answered. A varint or
bytes that are refused are not begun, and of missing content the length may have been passed. -/
structure Advances (r : Reader) (s : Step) : Prop where
  of_ok : ∀ a l, r.step s = (.ok a, l) → ∃ bytes, Takes r.position s a bytes ∧
    l.position = r.position + bytes.length ∧ l.consumedSince r.position = bytes
  of_varint : ∀ e l, s = .varint → r.step s = (.error e, l) → l = r
  of_bytes : ∀ e l length, s = .bytes length → r.step s = (.error e, l) → l = r
  of_lengthDelimited : ∀ e l, s = .lengthDelimited → r.step s = (.error e, l) →
    l = r ∨ ∃ header length, Varint.Denotes header length ∧
      l.position = r.position + header.length ∧ l.consumedSince r.position = header

/-- A machine does what the reader does. It does not stop, so that no number, place or part of the
buffer is out of range. -/
structure InRange (r : Reader) (s : Step) : Prop where
  step : Machine.run (Machine.step (r.buffer.length + 1) maxNesting s) r = .ok (r.step s)
  remaining : Machine.run Machine.remaining r = .ok (.ok r.remaining, r)
  consumed : ∀ origin ≤ r.position,
    Machine.run (Machine.consumedSince origin) r = .ok (.ok (r.consumedSince origin), r)

theorem passes_since {origin : Nat} (ho : origin ≤ r.position)
    (hr : r.position ≤ r.buffer.length) :
    (Cursor.atOffset r.buffer origin).Passes (r.consumedSince origin) r.cursor := by
  have hl : r.position - origin ≤ (r.buffer.drop origin).length := by
    rw [List.length_drop]
    omega
  have hadvance : (Cursor.atOffset r.buffer origin).advance (r.position - origin) = r.cursor := by
    rw [Cursor.advance, Cursor.atOffset, List.drop_drop, Nat.add_sub_cancel' ho]
    rfl
  rw [← hadvance]
  exact Cursor.passes_advance hl

theorem inBuffer (hr : r.position ≤ r.buffer.length) : r.InBuffer r.buffer := by
  refine ⟨rfl, hr, Nat.add_sub_cancel' hr, fun origin ho => ?_⟩
  have hp := (passes_since ho hr).1
  rw [List.append_assoc]
  exact (List.take_append_drop origin r.buffer).symm.trans (congrArg _ hp)

theorem advances (hr : r.position ≤ r.buffer.length) (s : Step) : r.Advances s where
  of_ok a l h := by
    obtain ⟨d, hd, rfl⟩ := step_eq_ok h
    obtain ⟨bytes, ht, hp⟩ := takes_of_answer hd
    exact ⟨bytes, ht, hp.2, (passes_mk hr hp).consumedSince_eq⟩
  of_varint e l hs h := by
    obtain ⟨d, hd, rfl⟩ := step_eq_error h
    rw [hs] at hd
    exact mk_of_eq_cursor (Cursor.cursor_of_readVarint_error (Except.map_eq_error_iff.1 hd))
  of_bytes e l length hs h := by
    obtain ⟨d, hd, rfl⟩ := step_eq_error h
    rw [hs] at hd
    exact mk_of_eq_cursor (Cursor.cursor_of_readBytes_error (Except.map_eq_error_iff.1 hd))
  of_lengthDelimited e l hs h := by
    obtain ⟨d, hd, rfl⟩ := step_eq_error h
    rw [hs] at hd
    rcases Cursor.cursor_of_readLengthDelimited_error (Except.map_eq_error_iff.1 hd) with
      he | ⟨header, length, hh, hp⟩
    · exact .inl (mk_of_eq_cursor he)
    · exact .inr ⟨header, length, hh, hp.2, (passes_mk hr hp).consumedSince_eq⟩

theorem run_step (hr : r.position ≤ r.buffer.length) (hb : r.buffer.length < UInt64.size)
    {room : Nat} (hroom : Machine.roomFor s ≤ room) :
    Machine.run (Machine.step (r.buffer.length + 1) room s) r = .ok (r.step s) := by
  have hc := isIn_cursor hr
  have ht : r.cursor.rest.length < r.buffer.length + 1 :=
    Nat.lt_succ_of_le (Nat.le.intro ((Nat.add_comm ..).trans hc.offset_add))
  rw [step_eq_outcome]
  exact Machine.performs_step hb hc ht hroom

theorem inRange (hr : r.position ≤ r.buffer.length) (hb : r.buffer.length < UInt64.size)
    (s : Step) : r.InRange s where
  step := run_step hr hb (Machine.roomFor_le s)
  remaining := by
    have h := Machine.performs_remaining (isIn_cursor hr)
    rw [Machine.Performs, cursor, List.length_drop] at h
    exact h
  consumed origin ho := by
    have hp := passes_since ho hr
    have h := Machine.performs_consumedSince (Cursor.isIn_atOffset (Nat.le_trans ho hr)) hp
    rw [hp.upTo_eq] at h
    exact h

end Passes

/-- After any steps, answered or failed, a reader stands in its buffer and has not gone back; the
next step goes forward by what it takes, and nothing in it is out of range if the buffer is one that
a machine can hold. -/
theorem run_stays_in_range (buffer : List UInt8) (steps : List Step) (s : Step) :
    (ofBuffer buffer).run (steps ++ [s]) =
        (ofBuffer buffer).run steps ++ [((ofBuffer buffer).after steps).step s] ∧
      ((ofBuffer buffer).after steps).InBuffer buffer ∧
      (∀ later, ((ofBuffer buffer).after steps).position ≤
        ((ofBuffer buffer).after (steps ++ later)).position) ∧
      ((ofBuffer buffer).after steps).Advances s ∧
      (buffer.length < UInt64.size → ((ofBuffer buffer).after steps).InRange s) := by
  obtain ⟨bytes, hp⟩ := passes_of_after (r := ofBuffer buffer) (Nat.zero_le _) steps
  have hr := hp.le_length (Nat.zero_le _)
  have hbuffer : ((ofBuffer buffer).after steps).buffer = buffer := hp.buffer_eq
  refine ⟨run_append .., ?_, fun later => ?_, advances hr s, fun hb => inRange hr ?_ s⟩
  · have h := inBuffer hr
    rw [hbuffer] at h
    exact h
  · obtain ⟨more, hm⟩ := passes_of_after hr later
    rw [after_append]
    exact hm.cursor.offset_le
  · rw [hbuffer]
    exact hb

/-- Two groups are open where an end key closes neither. The reader goes on behind it, with more
bytes asked for than any buffer has, and with a length that is complete. -/
theorem run_stays_in_range_inside_groups :
    let r : Reader := ⟨[0x0b, 0x13, 0x1c, 0x05, 0x61], 3⟩
    let l : Reader := ⟨[0x0b, 0x13, 0x1c, 0x05, 0x61], 4⟩
    (ofBuffer r.buffer).run [.field 100, .bytes (2 ^ 64 - 1), .lengthDelimited] =
        [(.error (.unexpectedEndGroup 2 3), r), (.error (.truncatedInput 3 (2 ^ 64 - 1) 2), r),
          (.error (.truncatedInput 4 5 1), l)] ∧
      r.InBuffer r.buffer ∧ r.InRange .lengthDelimited ∧ l.consumedSince r.position = [0x05] := by
  intro r l
  obtain ⟨_, hin, _, _, hrange⟩ :=
    run_stays_in_range r.buffer [.field 100, .bytes (2 ^ 64 - 1)] .lengthDelimited
  have hr : (ofBuffer r.buffer).after [.field 100, .bytes (2 ^ 64 - 1)] = r := by decide +kernel
  rw [hr] at hin hrange
  exact ⟨by decide +kernel, hin, hrange (by decide), by decide⟩

end Reader
end ReflectionError
