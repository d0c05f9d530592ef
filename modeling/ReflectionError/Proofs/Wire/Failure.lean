import ReflectionError.Proofs.Wire.Split

/-!
# ReflectionError.Proofs.Wire.Failure

What a failure says of the payload. An error of each kind states something about the bytes at its
offset, `IsTrueOf`, and a read that fails states what is so, of bytes that are not before the place
where it began. Only an end key that closes nothing at all is reported at the place behind it,
`IsStray`.

* `readVarint_eq_error_iff`: when a varint cannot be read. The reader stays where it is.
* `readKey_error`, `readBytes_error`, `readLengthDelimited_error`, `skipPlain_error`: plain reads.
* `passInner_error`, `closeGroups_error`: one step inside groups, and all steps.
* `readField_error`: one field. The end key of another group is pointed at, a stray one is not.
* `splitFields_stop`: the field that ends the reading of a payload, behind complete ones.
-/

namespace ReflectionError

namespace Cursor

/-- The place behind the first `offset` bytes of a payload. -/
def atOffset (payload : List UInt8) (offset : Nat) : Cursor := ⟨offset, payload.drop offset⟩

/-- `c` is a place in the payload. -/
def IsIn (c : Cursor) (payload : List UInt8) : Prop :=
  ∃ front, payload = front ++ c.rest ∧ c.offset = front.length

theorem isIn_start (payload : List UInt8) : (start payload).IsIn payload := ⟨[], rfl, rfl⟩

theorem isIn_atOffset {payload : List UInt8} {offset : Nat} (h : offset ≤ payload.length) :
    (atOffset payload offset).IsIn payload :=
  ⟨payload.take offset, (List.take_append_drop ..).symm, (List.length_take_of_le h).symm⟩

namespace IsIn

variable {payload : List UInt8} {c : Cursor} (hc : c.IsIn payload)
include hc

theorem of_passes {bytes : List UInt8} {d : Cursor} (h : c.Passes bytes d) : d.IsIn payload := by
  obtain ⟨front, hp, ho⟩ := hc
  refine ⟨front ++ bytes, ?_, ?_⟩
  · rw [hp, h.1, List.append_assoc]
  · rw [h.2, ho, List.length_append]

theorem drop_eq : payload.drop c.offset = c.rest := by
  obtain ⟨front, hp, ho⟩ := hc
  rw [hp, ho, List.drop_left]

theorem atOffset_eq : atOffset payload c.offset = c := by
  rw [atOffset, hc.drop_eq]

theorem offset_add : c.offset + c.rest.length = payload.length := by
  obtain ⟨front, hp, ho⟩ := hc
  rw [hp, ho, List.length_append]

end IsIn
end Cursor

/-- A varint stands at `offset`, and a reader takes it for `value`. -/
def VarintAt (payload : List UInt8) (offset value : Nat) : Prop :=
  ∃ bytes, Varint.Denotes bytes value ∧ bytes <+: payload.drop offset

/-- Reading a key at `offset` yields `key`. -/
def KeyAt (payload : List UInt8) (offset : Nat) (key : Key) : Prop :=
  ∃ behind, (Cursor.atOffset payload offset).readKey = .ok (key, behind)

namespace DecodeError

/-- The place in the payload that an error points at. -/
def offset? : DecodeError → Option Nat
  | malformedVarint offset => some offset
  | truncatedInput offset _ _ => some offset
  | invalidEncoding _ _ => none
  | invalidKey offset => some offset
  | invalidWireType offset _ => some offset
  | unexpectedEndGroup offset _ => some offset
  | recursionLimitExceeded _ => none
  | messageTooLarge _ _ => none

/-- What an error says of the payload, read with the options, is so. -/
def IsTrueOf (o : Options) (payload : List UInt8) : DecodeError → Prop
  | malformedVarint offset =>
    offset + Varint.maxLength ≤ payload.length ∧
      ∀ b ∈ (payload.drop offset).take Varint.maxLength, 128 ≤ b.toNat
  | truncatedInput offset needed remaining =>
    offset + remaining = payload.length ∧ remaining < needed
  | invalidEncoding _ _ => True
  | invalidKey offset =>
    ∃ value, VarintAt payload offset value ∧ (value / 8 = 0 ∨ Key.maxNumber < value / 8)
  | invalidWireType offset wireType =>
    ∃ value, VarintAt payload offset value ∧ 0 < value / 8 ∧ value / 8 ≤ Key.maxNumber ∧
      value % 8 = wireType ∧ (wireType = 6 ∨ wireType = 7)
  | unexpectedEndGroup offset number => KeyAt payload offset ⟨number, .endGroup⟩
  | recursionLimitExceeded limit => limit = min o.nestingLimit maxNesting
  | messageTooLarge size limit =>
    size = payload.length ∧ o.sizeLimit = some limit ∧ limit < size

/-- What the error says is so, and it does not point at anything before `place`. -/
structure Reports (o : Options) (payload : List UInt8) (place : Nat) (e : DecodeError) : Prop where
  isTrue : e.IsTrueOf o payload
  le_offset : ∀ offset, e.offset? = some offset → place ≤ offset

namespace Reports

variable {o : Options} {payload : List UInt8} {place place' : Nat} {e : DecodeError}

theorem of_offset (h : e.IsTrueOf o payload) (ho : e.offset? = some place) :
    e.Reports o payload place := by
  refine ⟨h, fun offset he => ?_⟩
  rw [ho] at he
  cases he
  exact Nat.le_refl _

theorem mono (h : e.Reports o payload place') (hp : place ≤ place') : e.Reports o payload place :=
  ⟨h.isTrue, fun offset he => Nat.le_trans hp (h.le_offset offset he)⟩

end Reports

/-- An end key stands at `place`, and the error names the place behind it. -/
def IsStray (payload : List UInt8) (place : Nat) (e : DecodeError) : Prop :=
  ∃ number behind, (Cursor.atOffset payload place).readKey = .ok (⟨number, .endGroup⟩, behind) ∧
    e = unexpectedEndGroup behind.offset number

/-- The error is about an end key. -/
def BlamesEndKey : DecodeError → Prop
  | unexpectedEndGroup _ _ => True
  | _ => False

end DecodeError

namespace Cursor

open DecodeError

section Reads

variable {o : Options} {payload : List UInt8} {c : Cursor} {failure : Failure}

/-! ## Plain reads -/

theorem readVarint_eq_error_iff :
    c.readVarint = .error failure ↔
      failure.cursor = c ∧
        ((c.rest.length < Varint.maxLength ∧ (∀ b ∈ c.rest, 128 ≤ b.toNat) ∧
            failure.error = .truncatedInput c.offset (c.rest.length + 1) c.rest.length) ∨
          (Varint.maxLength ≤ c.rest.length ∧
            (∀ b ∈ c.rest.take Varint.maxLength, 128 ≤ b.toNat) ∧
            failure.error = .malformedVarint c.offset)) := by
  obtain ⟨error, cursor⟩ := failure
  constructor
  · intro h
    unfold readVarint at h
    split at h
    · cases h
    · next hs =>
      obtain ⟨rfl, hl, hb⟩ := Varint.scan_eq_cutOff_iff.1 hs
      cases h
      exact ⟨rfl, .inl ⟨hl, hb, rfl⟩⟩
    · next hs =>
      obtain ⟨hl, hb⟩ := Varint.scan_eq_endless_iff.1 hs
      cases h
      exact ⟨rfl, .inr ⟨hl, hb, rfl⟩⟩
  · rintro ⟨hf, h⟩
    obtain rfl : cursor = c := hf
    rcases h with ⟨hl, hb, rfl⟩ | ⟨hl, hb, rfl⟩
    · rw [readVarint, Varint.scan_eq_cutOff_iff.2 ⟨rfl, hl, hb⟩]
    · rw [readVarint, Varint.scan_eq_endless_iff.2 ⟨hl, hb⟩]

theorem readVarint_error (hc : c.IsIn payload) (h : c.readVarint = .error failure) :
    failure.error.Reports o payload c.offset ∧ ¬ failure.error.BlamesEndKey := by
  obtain ⟨_, ⟨_, _, he⟩ | ⟨hl, hb, he⟩⟩ := readVarint_eq_error_iff.1 h
  · rw [he]
    exact ⟨.of_offset ⟨hc.offset_add, Nat.lt_succ_self _⟩ rfl, id⟩
  · rw [he]
    refine ⟨.of_offset ⟨?_, ?_⟩ rfl, id⟩
    · rw [← hc.offset_add]
      exact Nat.add_le_add_left hl _
    · rwa [hc.drop_eq]

theorem readBytes_error (hc : c.IsIn payload) {length : Nat}
    (h : c.readBytes length = .error failure) :
    failure.error.Reports o payload c.offset ∧ ¬ failure.error.BlamesEndKey := by
  unfold readBytes at h
  split at h
  · next hl =>
    cases h
    exact ⟨.of_offset ⟨hc.offset_add, hl⟩ rfl, id⟩
  · cases h

theorem varintAt_of_readVarint (hc : c.IsIn payload) {value : Nat} {behind : Cursor}
    (h : c.readVarint = .ok (value, behind)) : VarintAt payload c.offset value := by
  obtain ⟨bytes, hb, hp⟩ := readVarint_eq_ok_iff.1 h
  exact ⟨bytes, hb, behind.rest, by rw [hc.drop_eq, hp.1]⟩

theorem readKey_error (hc : c.IsIn payload) (h : c.readKey = .error failure) :
    failure.error.Reports o payload c.offset ∧ ¬ failure.error.BlamesEndKey := by
  unfold readKey at h
  split at h
  · next hv =>
    cases h
    exact readVarint_error hc hv
  · next value behind hv =>
    have hat := varintAt_of_readVarint hc hv
    split at h
    · next hn =>
      cases h
      exact ⟨.of_offset ⟨value, hat, by simpa using hn⟩ rfl, id⟩
    · next hn =>
      simp only [Bool.or_eq_true, decide_eq_true_eq, not_or, Nat.not_lt] at hn
      split at h
      · cases h
      · next hw =>
        cases h
        have hm := WireType.ofNat?_eq_none_iff.1 hw
        exact ⟨.of_offset ⟨value, hat, Nat.pos_of_ne_zero hn.1, hn.2, rfl, by omega⟩ rfl, id⟩

theorem readLengthDelimited_error (hc : c.IsIn payload)
    (h : c.readLengthDelimited = .error failure) :
    failure.error.Reports o payload c.offset ∧ ¬ failure.error.BlamesEndKey := by
  unfold readLengthDelimited at h
  split at h
  · next hv =>
    cases h
    exact readVarint_error hc hv
  · next length behind hv =>
    obtain ⟨header, _, hp⟩ := readVarint_eq_ok_iff.1 hv
    obtain ⟨hr, hn⟩ := readBytes_error (o := o) (hc.of_passes hp) h
    exact ⟨hr.mono hp.offset_le, hn⟩

theorem skipPlain_error (hc : c.IsIn payload) {wireType : WireType}
    (h : c.skipPlain wireType = .error failure) :
    failure.error.Reports o payload c.offset ∧ ¬ failure.error.BlamesEndKey := by
  cases wireType with
  | varint => exact readVarint_error hc (Except.map_eq_error_iff.1 h)
  | fixed64 => exact readBytes_error hc (Except.map_eq_error_iff.1 h)
  | lengthDelimited => exact readLengthDelimited_error hc (Except.map_eq_error_iff.1 h)
  | startGroup => cases h
  | endGroup => cases h
  | fixed32 => exact readBytes_error hc (Except.map_eq_error_iff.1 h)

/-! ## Groups -/

theorem passInner_error (hc : c.IsIn payload) {number : Nat} {outer : List Nat}
    (h : c.passInner (min o.nestingLimit maxNesting) number outer = .error failure) :
    failure.error.Reports o payload c.offset := by
  unfold passInner at h
  split at h
  · next hk =>
    cases h
    exact (readKey_error hc hk).1
  · next key behind hk =>
    obtain ⟨header, _, hp⟩ := readKey_eq_ok_iff.1 hk
    obtain ⟨n, wireType⟩ := key
    split at h
    · next hw =>
      obtain rfl : wireType = .endGroup := hw
      split at h
      · cases h
      · cases h
        exact .of_offset ⟨behind, by rw [hc.atOffset_eq, hk]⟩ rfl
    · split at h
      · cases h
      · cases h
        exact ⟨rfl, fun _ ho => nomatch ho⟩
    · exact (skipPlain_error (hc.of_passes hp) (Except.map_eq_error_iff.1 h)).1.mono hp.offset_le

/-- By induction on the steps. Each goes forward, so no error points in front of the first. -/
theorem closeGroups_error (hc : c.IsIn payload) {opened : List Nat}
    (h : c.closeGroups (min o.nestingLimit maxNesting) opened = .error failure) :
    failure.error.Reports o payload c.offset := by
  fun_induction closeGroups (min o.nestingLimit maxNesting) opened c with
  | case1 => cases h
  | case2 c number outer failure hp =>
    cases h
    exact passInner_error hc hp
  | case3 c number outer opened next hp ih =>
    obtain ⟨bytes, _, hp⟩ := passInner_eq_ok_iff.1 hp
    exact (ih (hc.of_passes hp) h).mono hp.offset_le

/-- An end key that is to be skipped is stray. Any other error says what is so, and only in a group
is it about an end key. -/
theorem skipValue_error (hc : c.IsIn payload) {key : Key}
    (h : c.skipValue key o.nestingLimit = .error failure) :
    (key.wireType = .endGroup → failure.error = .unexpectedEndGroup c.offset key.number) ∧
      (key.wireType ≠ .endGroup → failure.error.Reports o payload c.offset) ∧
      (failure.error.BlamesEndKey → key.wireType = .endGroup ∨ key.wireType = .startGroup) := by
  obtain ⟨number, wireType⟩ := key
  cases wireType with
  | startGroup =>
    refine ⟨fun he => ?_, fun _ => ?_, fun _ => .inr rfl⟩
    · cases he
    · simp only [skipValue] at h
      split at h
      · next h0 =>
        cases h
        refine ⟨h0.symm, fun _ ho => ?_⟩
        cases ho
      · exact closeGroups_error hc h
  | endGroup =>
    cases h
    exact ⟨fun _ => rfl, fun hn => absurd rfl hn, fun _ => .inl rfl⟩
  | _ =>
    simp only [skipValue] at h
    obtain ⟨hr, hn⟩ := skipPlain_error hc h
    refine ⟨fun he => ?_, fun _ => hr, fun hb => absurd hb hn⟩
    cases he

/-! ## Fields -/

/-- A field that is refused gives an error that says what is so, or it is a stray end key. Where the
error is about an end key that is not stray, the field is a group, and the end key is in it. -/
theorem readField_error (hc : c.IsIn payload) (h : c.readField o.nestingLimit = .error failure) :
    failure.error.IsStray payload c.offset ∨
      failure.error.Reports o payload c.offset ∧
        (failure.error.BlamesEndKey →
          ∃ number, KeyAt payload c.offset ⟨number, .startGroup⟩ ∧
            ∀ offset, failure.error.offset? = some offset → c.offset < offset) := by
  unfold readField at h
  split at h
  · next hk =>
    cases h
    obtain ⟨hr, hn⟩ := readKey_error (o := o) hc hk
    exact .inr ⟨hr, fun hb => absurd hb hn⟩
  · next key behind hk =>
    obtain ⟨header, hh, hp⟩ := readKey_eq_ok_iff.1 hk
    have hat : (atOffset payload c.offset).readKey = .ok (key, behind) := by
      rw [hc.atOffset_eq, hk]
    split at h
    · next hs =>
      cases h
      obtain ⟨hend, hreports, hblames⟩ := skipValue_error (hc.of_passes hp) hs
      by_cases he : key.wireType = .endGroup
      · obtain ⟨number, wireType⟩ := key
        obtain rfl : wireType = .endGroup := he
        exact .inl ⟨number, behind, hat, hend rfl⟩
      · have hr := hreports he
        refine .inr ⟨hr.mono hp.offset_le, fun hb => ?_⟩
        obtain ⟨number, wireType⟩ := key
        obtain rfl : wireType = .startGroup := (hblames hb).resolve_left he
        refine ⟨number, ⟨behind, hat⟩, fun offset ho => ?_⟩
        have := hr.le_offset offset ho
        have := hh.length_pos
        have := hp.2
        omega
    · cases h

/-- Where the reading of a payload ends before the payload does, there is a field that is refused,
and what stands before it is read completely. By induction on the fields. -/
theorem splitFields_stop {limit : Nat} {fields : List RawField} {e : DecodeError}
    (h : c.splitFields limit = (fields, some e)) :
    ∃ front d stood, c.Passes front d ∧ d.rest ≠ [] ∧
      splitFields limit ⟨c.offset, front⟩ = (fields, none) ∧
      d.readField limit = .error ⟨e, stood⟩ := by
  fun_induction splitFields limit c generalizing fields with
  | case1 => cases h
  | case2 c hc failure hr =>
    cases h
    exact ⟨[], c, failure.cursor, .refl c, hc, splitFields_of_rest_eq_nil limit rfl, hr⟩
  | case3 c hc field next hr fields stop hs ih =>
    cases h
    obtain ⟨front, d, stood, hp, hd, hf, he⟩ := ih hs
    obtain ⟨ho, hfield, hb⟩ := readField_eq_ok_iff.1 hr
    have hfirst : readField ⟨c.offset, field.bytes ++ front⟩ limit =
        .ok (field, ⟨next.offset, front⟩) :=
      readField_eq_ok_iff.2 ⟨ho, hfield, rfl, hb.2⟩
    refine ⟨field.bytes ++ front, d, stood, hb.trans hp, hd, ?_, he⟩
    rw [splitFields_of_readField hfirst, hf]

end Reads

end Cursor
end ReflectionError
