import ReflectionError.Proofs.Reply.Fields
import ReflectionError.Proofs.Wire.Failure

/-!
# ReflectionError.Proofs.Reply.Failure

Why a payload is refused, whether it is decoded or only cut into fields. But for its size and for
text that is no UTF-8 there is one reason, the first field that cannot be read, `FailsAt`.

* `refused_cases`: the three reasons.
* `FailsAt.reports`: what the error says when a field cannot be read.
* `refused_with_truth`: what an error says of the payload is so, and what stands in front of the
  field that it is about is accepted by itself.
* `unexpectedEndGroup_place`: an end key in a group of another number is pointed at. A stray one is
  not, the place behind it is named: `unexpectedEndGroup_behind_stray`.
-/

namespace ReflectionError

open Cursor DecodeError

/-- The field at `place` is the first that cannot be read, and `e` is why. -/
structure FailsAt (payload : List UInt8) (o : Options) (e : DecodeError) (place : Nat) : Prop where
  lt_length : place < payload.length
  front_accepted : ∃ fields, readFields (payload.take place) o = .ok fields
  refused : ∃ stood, (atOffset payload place).readField o.nestingLimit = .error ⟨e, stood⟩

theorem failsAt_of_splitFields {payload : List UInt8} {o : Options} {fields : List RawField}
    {e : DecodeError} (ha : o.Admits payload.length)
    (h : (start payload).splitFields o.nestingLimit = (fields, some e)) :
    ∃ place, FailsAt payload o e place := by
  obtain ⟨front, d, stood, hp, hd, hf, he⟩ := splitFields_stop h
  have hfront : d.offset = front.length := by
    rw [hp.2]
    exact Nat.zero_add _
  have hpayload : payload = front ++ d.rest := hp.1
  have hlength : payload.length = front.length + d.rest.length := by
    rw [hpayload, List.length_append]
  have htake : payload.take d.offset = front := by
    rw [hpayload, hfront, List.take_left]
  refine ⟨d.offset, ?_, ⟨fields, ?_⟩, stood, ?_⟩
  · have := List.length_pos_iff.2 hd
    omega
  · rw [htake]
    exact readFields_eq_ok_iff.2 ⟨ha.mono (by omega), hf⟩
  · rwa [((isIn_start payload).of_passes hp).atOffset_eq]

section Refused

variable {payload : List UInt8} {o : Options} {e : DecodeError}

theorem isTrueOf_of_checkSize (h : o.checkSize payload.length = .error e) :
    e.IsTrueOf o payload ∧ ∃ size limit, e = .messageTooLarge size limit := by
  unfold Options.checkSize at h
  split at h
  · next limit hl =>
    split at h
    · next hs =>
      cases h
      exact ⟨⟨rfl, hl, hs⟩, _, _, rfl⟩
    · cases h
  · cases h

theorem refused_cases (h : Reply.decode payload o = .error e ∨ readFields payload o = .error e) :
    (e.IsTrueOf o payload ∧ ∃ size limit, e = .messageTooLarge size limit) ∨
      (∃ field fault, e = .invalidEncoding field fault) ∨ ∃ place, FailsAt payload o e place := by
  cases hs : o.checkSize payload.length with
  | error e' =>
    have he : e' = e := by
      rcases h with h | h
      · simpa only [Reply.decode, Reply.mergeWith, hs, Except.error.injEq] using h
      · simpa only [readFields, hs, Except.error.injEq] using h
    exact .inl (isTrueOf_of_checkSize (he ▸ hs))
  | ok _ =>
    have ha := Options.checkSize_eq_ok_iff.1 hs
    cases hf : (start payload).splitFields o.nestingLimit with
    | mk fields stop =>
      rcases h with h | h
      · rw [Reply.decode_eq_of_splitFields payload o ha, hf] at h
        cases hr : Reply.refusal? o fields with
        | some fault =>
          simp only [hr, Except.error.injEq] at h
          exact .inr (.inl ⟨_, fault, h.symm⟩)
        | none =>
          cases stop with
          | none => simp [hr] at h
          | some e' =>
            simp only [hr, Except.error.injEq] at h
            exact .inr (.inr (failsAt_of_splitFields ha (h ▸ hf)))
      · simp only [readFields, hs, hf] at h
        cases stop with
        | none => simp at h
        | some e' =>
          simp only [Except.error.injEq] at h
          exact .inr (.inr (failsAt_of_splitFields ha (h ▸ hf)))

theorem FailsAt.reports {place : Nat} (h : FailsAt payload o e place) :
    e.IsStray payload place ∨
      e.Reports o payload place ∧
        (e.BlamesEndKey → ∃ number, KeyAt payload place ⟨number, .startGroup⟩ ∧
          ∀ offset, e.offset? = some offset → place < offset) := by
  obtain ⟨stood, hr⟩ := h.refused
  exact readField_error (isIn_atOffset (Nat.le_of_lt h.lt_length)) hr

theorem DecodeError.IsStray.le_offset {place offset : Nat} (h : e.IsStray payload place)
    (ho : e.offset? = some offset) : place ≤ offset := by
  obtain ⟨number, behind, hk, rfl⟩ := h
  obtain ⟨header, _, hp⟩ := readKey_eq_ok_iff.1 hk
  cases ho
  exact hp.offset_le

end Refused

/-- An error is about what stands in the payload at the offset that it names, and only a stray end
key stands right before it. If the payload is not refused for its size or for a text, then what
stands in front of the field that fails is accepted, and the error names no offset in there. -/
theorem refused_with_truth (payload : List UInt8) (o : Options) (e : DecodeError)
    (h : Reply.decode payload o = .error e ∨ readFields payload o = .error e) :
    (e.IsTrueOf o payload ∨ ∃ place, e.IsStray payload place) ∧
      ((∃ size limit, e = .messageTooLarge size limit) ∨
        (∃ field fault, e = .invalidEncoding field fault) ∨
        ∃ place, FailsAt payload o e place ∧
          ∀ offset, e.offset? = some offset → place ≤ offset) := by
  rcases refused_cases h with ⟨ht, hsize⟩ | ⟨field, fault, rfl⟩ | ⟨place, hp⟩
  · exact ⟨.inl ht, .inl hsize⟩
  · exact ⟨.inl trivial, .inr (.inl ⟨field, fault, rfl⟩)⟩
  · rcases hp.reports with hs | ⟨hr, _⟩
    · exact ⟨.inr ⟨place, hs⟩, .inr (.inr ⟨place, hp, fun _ ho => hs.le_offset ho⟩)⟩
    · exact ⟨.inl hr.isTrue, .inr (.inr ⟨place, hp, hr.le_offset⟩)⟩

/-- Behind one complete field, a wire type that does not exist, two groups deep. -/
theorem refused_with_truth_in_groups :
    let payload := [0x08, 0x01, 0x1b, 0x23, 0x2f]
    readFields payload {} = .error (.invalidWireType 4 7) ∧
      ((DecodeError.invalidWireType 4 7).IsTrueOf {} payload ∨
        ∃ place, (DecodeError.invalidWireType 4 7).IsStray payload place) ∧
      ∃ place, FailsAt payload {} (.invalidWireType 4 7) place ∧ place ≤ 4 := by
  intro payload
  have hr : readFields payload {} = .error (.invalidWireType 4 7) := by decide +kernel
  obtain ⟨ht, ⟨_, _, he⟩ | ⟨_, _, he⟩ | ⟨place, hp, hl⟩⟩ :=
    refused_with_truth payload {} _ (.inr hr)
  · cases he
  · cases he
  · exact ⟨hr, ht, place, hp, hl 4 rfl⟩

/-- If an end key is to blame, then either the field that fails is a group, and reading a key at the
offset gives the end key, or the end key is that field itself, and the offset is behind it. -/
theorem unexpectedEndGroup_place (payload : List UInt8) (o : Options) (offset number : Nat)
    (h : Reply.decode payload o = .error (.unexpectedEndGroup offset number) ∨
      readFields payload o = .error (.unexpectedEndGroup offset number)) :
    ∃ place, FailsAt payload o (.unexpectedEndGroup offset number) place ∧
      ((∃ opened, KeyAt payload place ⟨opened, .startGroup⟩ ∧ place < offset ∧
          KeyAt payload offset ⟨number, .endGroup⟩) ∨
        ∃ behind, (atOffset payload place).readKey = .ok (⟨number, .endGroup⟩, behind) ∧
          offset = behind.offset) := by
  rcases refused_cases h with ⟨_, _, _, he⟩ | ⟨_, _, he⟩ | ⟨place, hp⟩
  · cases he
  · cases he
  · refine ⟨place, hp, ?_⟩
    rcases hp.reports with ⟨_, behind, hk, he⟩ | ⟨hr, hgroup⟩
    · cases he
      exact .inr ⟨behind, hk, rfl⟩
    · obtain ⟨opened, hk, hlt⟩ := hgroup trivial
      exact .inl ⟨opened, hk, hlt offset rfl, hr.isTrue⟩

/-- The end key of field 5, in two bytes, in a group of field 4 that stands behind a code. -/
theorem unexpectedEndGroup_place_in_group :
    let payload := [0x08, 0x05, 0x23, 0x18, 0x01, 0xac, 0x00]
    Reply.decode payload {} = .error (.unexpectedEndGroup 5 5) ∧
      ∃ place, FailsAt payload {} (.unexpectedEndGroup 5 5) place ∧
        ((∃ opened, KeyAt payload place ⟨opened, .startGroup⟩ ∧ place < 5 ∧
            KeyAt payload 5 ⟨5, .endGroup⟩) ∨
          ∃ behind, (atOffset payload place).readKey = .ok (⟨5, .endGroup⟩, behind) ∧
            5 = behind.offset) := by
  intro payload
  have hd : Reply.decode payload {} = .error (.unexpectedEndGroup 5 5) := by decide +kernel
  exact ⟨hd, unexpectedEndGroup_place payload {} 5 5 (.inl hd)⟩

/-- A stray end key is not where the error says: it stands at 0, and at 1 there is no key. -/
theorem unexpectedEndGroup_behind_stray :
    readFields [0x1c] {} = .error (.unexpectedEndGroup 1 3) ∧
      Reply.decode [0x1c] {} = .error (.unexpectedEndGroup 1 3) ∧
      KeyAt [0x1c] 0 ⟨3, .endGroup⟩ ∧ ¬ KeyAt [0x1c] 1 ⟨3, .endGroup⟩ := by
  have hnone : (atOffset [0x1c] 1).readKey = .error ⟨.truncatedInput 1 1 0, ⟨1, []⟩⟩ := by decide
  refine ⟨by decide +kernel, by decide +kernel, ⟨⟨1, []⟩, by decide⟩, ?_⟩
  rintro ⟨behind, hk⟩
  rw [hnone] at hk
  cases hk

end ReflectionError
