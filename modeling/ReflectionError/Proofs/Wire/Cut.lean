import ReflectionError.Proofs.Wire.Shift

/-!
# ReflectionError.Proofs.Wire.Cut

Payloads that end too early. A read that has all the bytes it asks for does not notice what stands
behind them: in front of more bytes it gives the same, a failure too. Only a read that ran out of
bytes may give something else there, and only if there are as many more as it misses. So what was
read completely is truncated when it is cut off anywhere, and fails for no other reason.

* `readVarint_append`, `readKey_append`, `readBytes_append`, `readLengthDelimited_append`,
  `skipValue_append`, `readField_append`: one for each read.
* `splitFields_append_prefix`, `splitFields_append_of_stop`: the fields in front of a failure, and
  the failure, when more bytes stand behind the payload.
* `cutOff_take`: what is read to the end of the payload needs all of it.
* `splitFields_take`: the fields of a payload that is cut off, and whether a part of one is left.
-/

namespace ReflectionError

/-- Bytes are missing at the end of the payload. -/
def DecodeError.IsTruncation (e : DecodeError) : Prop :=
  ∃ offset needed remaining, e = truncatedInput offset needed remaining

/-- Bytes are missing at the end of the payload, and `count` are enough. -/
def DecodeError.IsMetBy (count : Nat) (e : DecodeError) : Prop :=
  ∃ offset needed remaining, e = truncatedInput offset needed remaining ∧ needed ≤ remaining + count

/-- The error when `count` more bytes have come that are not enough. -/
def DecodeError.supply (count : Nat) : DecodeError → DecodeError
  | truncatedInput offset needed remaining => truncatedInput offset needed (remaining + count)
  | e => e

theorem DecodeError.IsMetBy.isTruncation {count : Nat} {e : DecodeError} (h : e.IsMetBy count) :
    e.IsTruncation := by
  obtain ⟨offset, needed, remaining, rfl, _⟩ := h
  exact ⟨offset, needed, remaining, rfl⟩

theorem DecodeError.supply_of_not_isTruncation {e : DecodeError} (h : ¬ e.IsTruncation)
    (count : Nat) : e.supply count = e := by
  cases e with
  | truncatedInput offset needed remaining => exact absurd ⟨offset, needed, remaining, rfl⟩ h
  | _ => rfl

theorem DecodeError.supply_zero (e : DecodeError) : e.supply 0 = e := by
  cases e <;> rfl

/-- Reading ran out of bytes, and `back` has as many as are missing. -/
def CutOff {α : Type} (back : List UInt8) (x : Except Failure α) : Prop :=
  ∃ failure, x = .error failure ∧ failure.error.IsMetBy back.length

def Cursor.append (c : Cursor) (back : List UInt8) : Cursor := ⟨c.offset, c.rest ++ back⟩

def Failure.append (failure : Failure) (back : List UInt8) : Failure :=
  ⟨failure.error.supply back.length, failure.cursor.append back⟩

theorem Cursor.append_nil (c : Cursor) : c.append [] = c := by
  rw [append, List.append_nil]

theorem Failure.append_nil (failure : Failure) : failure.append [] = failure := by
  rw [append, Cursor.append_nil, List.length_nil, DecodeError.supply_zero]

/-- An outcome with `back` behind the payload, if `move` does to a value what that does to it. -/
def appended {α : Type} (back : List UInt8) (move : α → α) : Except Failure α → Except Failure α
  | .ok a => .ok (move a)
  | .error failure => .error (failure.append back)

/-- What a read gives with `back` behind the payload, if its value lies before that. -/
def appendedRead {α : Type} (back : List UInt8) (x : Read α) : Read α :=
  appended back (Prod.map id (Cursor.append · back)) x

section Appended

variable {α : Type} (back : List UInt8)

@[simp] theorem appended_ok (move : α → α) (a : α) :
    appended back move (.ok a) = .ok (move a) := rfl

@[simp] theorem appendedRead_ok (a : α) (c : Cursor) :
    appendedRead back (.ok (a, c)) = .ok (a, c.append back) := rfl

theorem appendedRead_nil (x : Read α) : appendedRead [] x = x := by
  cases x with
  | error failure => exact congrArg Except.error failure.append_nil
  | ok r => exact congrArg (fun c => Except.ok (r.1, c)) r.2.append_nil

theorem map_snd_appendedRead (x : Read α) :
    (appendedRead back x).map Prod.snd = appended back (Cursor.append · back) (x.map Prod.snd) := by
  cases x <;> rfl

theorem map_mk_appended (a : α) (x : Except Failure Cursor) :
    (appended back (Cursor.append · back) x).map (a, ·) = appendedRead back (x.map (a, ·)) := by
  cases x <;> rfl

end Appended

namespace CutOff

variable {α β : Type} {back : List UInt8}

theorem mk {offset needed remaining : Nat} (h : needed ≤ remaining + back.length) (c : Cursor) :
    CutOff (α := α) back (.error ⟨.truncatedInput offset needed remaining, c⟩) :=
  ⟨_, rfl, _, _, _, rfl, h⟩

theorem of_error {failure : Failure} (h : failure.error.IsMetBy back.length) :
    CutOff (α := α) back (.error failure) :=
  ⟨failure, rfl, h⟩

theorem map {x : Except Failure α} (h : CutOff back x) (f : α → β) : CutOff back (x.map f) := by
  obtain ⟨failure, rfl, ht⟩ := h
  exact of_error ht

end CutOff

namespace Cursor

theorem Passes.append {c d : Cursor} {bytes : List UInt8} (h : c.Passes bytes d)
    (back : List UInt8) : (c.append back).Passes bytes (d.append back) := by
  refine ⟨?_, h.2⟩
  rw [Cursor.append, Cursor.append, h.1, List.append_assoc]

section Reads

variable (c : Cursor) (back : List UInt8)

theorem append_advance {n : Nat} (h : n ≤ c.rest.length) :
    (c.append back).advance n = (c.advance n).append back := by
  rw [advance, advance, append, append, List.drop_append_of_le_length h]

theorem readVarint_append :
    CutOff back c.readVarint ∨ (c.append back).readVarint = appendedRead back c.readVarint := by
  have hr : (c.append back).rest = c.rest ++ back := rfl
  have ha := Varint.scan_append_of_not_cutOff Varint.maxLength c.rest back
  rw [readVarint, readVarint]
  cases hs : Varint.scan Varint.maxLength c.rest with
  | found value length =>
    rw [hr, ha.resolve_left (by simp [hs]), hs]
    simp only [appendedRead_ok, append_advance c back (Varint.scan_length_bounds hs).2]
    exact .inr trivial
  | cutOff length =>
    cases back with
    | nil =>
      rw [append_nil, hs]
      exact .inr (appendedRead_nil _).symm
    | cons b back => exact .inl (.mk (by rw [List.length_cons]; omega) _)
  | endless =>
    rw [hr, ha.resolve_left (by simp [hs]), hs]
    exact .inr rfl

theorem readKey_append :
    CutOff back c.readKey ∨ (c.append back).readKey = appendedRead back c.readKey := by
  rw [readKey, readKey]
  rcases readVarint_append c back with ⟨failure, h, ht⟩ | h
  · rw [h]
    exact .inl (.of_error ht)
  · rw [h]
    cases c.readVarint with
    | error failure => exact .inr rfl
    | ok r =>
      obtain ⟨value, behind⟩ := r
      simp only [appendedRead_ok]
      split
      · exact .inr rfl
      · cases WireType.ofNat? (value % 8) <;> exact .inr rfl

theorem readBytes_append (length : Nat) :
    CutOff back (c.readBytes length) ∨
      (c.append back).readBytes length = appendedRead back (c.readBytes length) := by
  have hr : (c.append back).rest = c.rest ++ back := rfl
  rw [readBytes, readBytes, hr]
  split
  · by_cases hb : length ≤ c.rest.length + back.length
    · exact .inl (.mk hb _)
    · rw [if_pos (by rw [List.length_append]; omega), List.length_append]
      exact .inr rfl
  · next hl =>
    have hl := Nat.not_lt.1 hl
    have hn : ¬ (c.rest ++ back).length < length := by
      rw [List.length_append]
      omega
    rw [if_neg hn, List.take_append_of_le_length hl, append_advance c back hl]
    exact .inr rfl

theorem readLengthDelimited_append :
    CutOff back c.readLengthDelimited ∨
      (c.append back).readLengthDelimited = appendedRead back c.readLengthDelimited := by
  rw [readLengthDelimited, readLengthDelimited]
  rcases readVarint_append c back with ⟨failure, h, ht⟩ | h
  · rw [h]
    exact .inl (.of_error ht)
  · rw [h]
    cases c.readVarint with
    | error failure => exact .inr rfl
    | ok r => exact readBytes_append r.2 back r.1

theorem map_snd_append {α : Type} {x y : Read α} (h : CutOff back x ∨ y = appendedRead back x) :
    CutOff back (x.map Prod.snd) ∨
      y.map Prod.snd = appended back (Cursor.append · back) (x.map Prod.snd) := by
  rcases h with h | rfl
  · exact .inl (h.map _)
  · exact .inr (map_snd_appendedRead back x)

theorem skipPlain_append (wireType : WireType) :
    CutOff back (c.skipPlain wireType) ∨
      (c.append back).skipPlain wireType =
        appended back (Cursor.append · back) (c.skipPlain wireType) := by
  cases wireType with
  | varint => exact map_snd_append back (readVarint_append c back)
  | fixed64 => exact map_snd_append back (readBytes_append c back 8)
  | lengthDelimited => exact map_snd_append back (readLengthDelimited_append c back)
  | startGroup => exact .inr rfl
  | endGroup => exact .inr rfl
  | fixed32 => exact map_snd_append back (readBytes_append c back 4)

theorem passInner_append (limit number : Nat) (outer : List Nat) :
    CutOff back (c.passInner limit number outer) ∨
      (c.append back).passInner limit number outer =
        appendedRead back (c.passInner limit number outer) := by
  rw [passInner, passInner]
  rcases readKey_append c back with ⟨failure, h, ht⟩ | h
  · rw [h]
    exact .inl (.of_error ht)
  · rw [h]
    cases c.readKey with
    | error failure => exact .inr rfl
    | ok r =>
      obtain ⟨⟨number', wireType⟩, behind⟩ := r
      simp only [appendedRead_ok]
      cases wireType with
      | endGroup =>
        simp only
        split <;> exact .inr rfl
      | startGroup =>
        simp only
        split <;> exact .inr rfl
      | _ =>
        simp only
        rcases skipPlain_append behind back _ with h | h
        · exact .inl (h.map _)
        · rw [h]
          exact .inr (map_mk_appended ..)

/-- By induction on the steps: the first one that runs out of bytes ends them. -/
theorem closeGroups_append (limit : Nat) (opened : List Nat) :
    CutOff back (c.closeGroups limit opened) ∨
      (c.append back).closeGroups limit opened =
        appended back (Cursor.append · back) (c.closeGroups limit opened) := by
  fun_induction closeGroups limit opened c with
  | case1 c => rw [closeGroups]; exact .inr rfl
  | case2 c number outer failure hp =>
    rcases passInner_append c back limit number outer with ⟨failure', h, ht⟩ | h
    · rw [hp] at h
      cases h
      exact .inl (.of_error ht)
    · rw [closeGroups_cons, h, hp]
      exact .inr rfl
  | case3 c number outer opened next hp ih =>
    rcases passInner_append c back limit number outer with ⟨failure, h, _⟩ | h
    · rw [hp] at h
      cases h
    · rw [closeGroups_cons, h, hp]
      exact ih

theorem skipValue_append (key : Key) (limit : Nat) :
    CutOff back (c.skipValue key limit) ∨
      (c.append back).skipValue key limit =
        appended back (Cursor.append · back) (c.skipValue key limit) := by
  rw [skipValue, skipValue]
  cases key.wireType with
  | startGroup =>
    simp only
    split
    · exact .inr rfl
    · exact closeGroups_append c back ..
  | endGroup => exact .inr rfl
  | _ => exact skipPlain_append c back _

theorem readField_append (limit : Nat) :
    CutOff back (c.readField limit) ∨
      (c.append back).readField limit = appendedRead back (c.readField limit) := by
  rw [readField, readField]
  rcases readKey_append c back with ⟨failure, h, ht⟩ | h
  · rw [h]
    exact .inl (.of_error ht)
  · rw [h]
    cases hk : c.readKey with
    | error failure => exact .inr rfl
    | ok r =>
      obtain ⟨key, behind⟩ := r
      simp only [appendedRead_ok]
      rcases skipValue_append behind back key limit with ⟨failure, h, ht⟩ | h
      · rw [h]
        exact .inl (.of_error ht)
      · rw [h]
        cases hs : behind.skipValue key limit with
        | error failure => exact .inr rfl
        | ok next =>
          obtain ⟨header, _, hp⟩ := readKey_eq_ok_iff.1 hk
          obtain ⟨_, value, _, _, hp'⟩ := skipValue_eq_ok_iff.1 hs
          have hb := hp.trans hp'
          simp only [appended_ok, (hb.append back).upTo_eq, hb.upTo_eq]
          exact .inr rfl

end Reads

/-! ## Fields of a payload with more behind it -/

section Fields

variable {limit : Nat} {c : Cursor} (back : List UInt8)

theorem append_rest_ne_nil (hc : c.rest ≠ []) : (c.append back).rest ≠ [] := by
  intro h
  exact hc (List.append_eq_nil_iff.1 h).1

theorem readField_append_of_ok {field : RawField} {d : Cursor}
    (h : c.readField limit = .ok (field, d)) :
    (c.append back).readField limit = .ok (field, d.append back) := by
  rcases readField_append c back limit with ⟨failure, he, _⟩ | hr
  · rw [h] at he
    cases he
  · rw [hr, h]
    rfl

/-- Complete fields stay what they are. -/
theorem splitFields_append_prefix (limit : Nat) (c : Cursor) :
    (c.splitFields limit).1 <+: ((c.append back).splitFields limit).1 := by
  fun_induction splitFields limit c with
  | case1 => exact List.nil_prefix
  | case2 => exact List.nil_prefix
  | case3 c hc field next hr fields stop hs ih =>
    rw [splitFields_of_readField (readField_append_of_ok back hr), List.prefix_cons_inj]
    rwa [hs] at ih

/-- A failure stays what it is, unless it is met by what stands behind. By induction on the fields
in front of it. -/
theorem splitFields_append_of_stop {fields : List RawField} {e : DecodeError}
    (h : c.splitFields limit = (fields, some e)) (he : ¬ e.IsMetBy back.length) :
    (c.append back).splitFields limit = (fields, some (e.supply back.length)) := by
  fun_induction splitFields limit c generalizing fields with
  | case1 => cases h
  | case2 c hc failure hr =>
    cases h
    rcases readField_append c back limit with ⟨_, hf, hm⟩ | ha
    · rw [hr] at hf
      cases hf
      exact absurd hm he
    · rw [hr] at ha
      exact splitFields_of_error (append_rest_ne_nil back hc) ha
  | case3 c hc field next hr more stop hs ih =>
    cases h
    rw [splitFields_of_readField (readField_append_of_ok back hr), ih hs]

end Fields

/-! ## What is left of a payload -/

/-- The same place in a payload that ends `k` bytes behind it. -/
def take (c : Cursor) (k : Nat) : Cursor := ⟨c.offset, c.rest.take k⟩

theorem take_append_drop (c : Cursor) (k : Nat) : (c.take k).append (c.rest.drop k) = c := by
  rw [take, append, List.take_append_drop]

/-- A read that does not look behind the payload, and goes to its end, needs all of it. -/
theorem cutOff_take {α : Type} {read : Cursor → Read α}
    (h : ∀ c back, CutOff back (read c) ∨ read (c.append back) = appendedRead back (read c))
    {c d : Cursor} {a : α} (hr : read c = .ok (a, d)) (hd : d.rest = []) {k : Nat}
    (hk : k < c.rest.length) :
    ∃ failure, read (c.take k) = .error failure ∧ failure.error.IsTruncation := by
  rcases h (c.take k) (c.rest.drop k) with ⟨failure, he, hm⟩ | h
  · exact ⟨failure, he, hm.isTruncation⟩
  · rw [take_append_drop, hr] at h
    cases hx : read (c.take k) with
    | error failure =>
      rw [hx] at h
      cases h
    | ok r =>
      rw [hx] at h
      cases h
      obtain ⟨_, hn⟩ := List.append_eq_nil_iff.1 hd
      rw [List.drop_eq_nil_iff] at hn
      omega

end Cursor

/-- The place behind the field. -/
def RawField.behind (f : RawField) : Nat := f.offset + f.bytes.length

theorem Placed.offset_le {offset : Nat} {fields : List RawField} (h : Placed offset fields) :
    ∀ f ∈ fields, offset ≤ f.offset := by
  induction fields generalizing offset with
  | nil => intro f hf; cases hf
  | cons field fields ih =>
    intro f hf
    rcases List.mem_cons.1 hf with rfl | hf
    · exact Nat.le_of_eq h.1.symm
    · exact Nat.le_trans (Nat.le_add_right ..) (ih h.2 f hf)

theorem Placed.behind_le {offset : Nat} {field : RawField} {fields : List RawField}
    (h : Placed offset (field :: fields)) : ∀ f ∈ field :: fields, field.behind ≤ f.behind := by
  intro f hf
  rcases List.mem_cons.1 hf with rfl | hf
  · exact Nat.le_refl _
  · have ho : field.offset = offset := h.1
    have hs := h.2.offset_le f hf
    rw [RawField.behind, RawField.behind, ho]
    exact Nat.le_trans hs (Nat.le_add_right ..)

namespace Cursor

/-- Nothing, or a truncated field, is left of a payload that is cut off in its first field. -/
theorem splitFields_take_first {limit : Nat} {field : RawField} {c d : Cursor}
    (h : c.readField limit = .ok (field, d)) {k : Nat} (hk : k < field.bytes.length) :
    ∃ stop, (c.take k).splitFields limit = ([], stop) ∧ (stop = none ↔ k = 0) ∧
      ∀ e, stop = some e → e.IsTruncation := by
  obtain ⟨ho, hf, hp⟩ := readField_eq_ok_iff.1 h
  by_cases h0 : k = 0
  · subst h0
    exact ⟨none, splitFields_of_rest_eq_nil limit rfl, by simp, fun e he => nomatch he⟩
  · have hr : readField ⟨c.offset, field.bytes⟩ limit =
        .ok (field, ⟨c.offset + field.bytes.length, []⟩) :=
      readField_eq_ok_iff.2 ⟨ho, hf, (List.append_nil _).symm, rfl⟩
    have hc : c.take k = take ⟨c.offset, field.bytes⟩ k := by
      rw [take, take, hp.1, List.take_append_of_le_length (Nat.le_of_lt hk)]
    obtain ⟨failure, he, ht⟩ := cutOff_take (fun c back => readField_append c back limit) hr rfl hk
    have hn : (take ⟨c.offset, field.bytes⟩ k).rest ≠ [] := by
      intro hn
      rcases List.take_eq_nil_iff.1 hn with h | (h : field.bytes = [])
      · exact h0 h
      · rw [h] at hk
        exact Nat.not_lt_zero _ hk
    rw [hc]
    refine ⟨_, splitFields_of_error hn he, by simp [h0], fun e hs => ?_⟩
    cases hs
    exact ht

/-- By induction on the fields, up to the first one that is not there as a whole. -/
theorem splitFields_take {limit offset : Nat} {fields : List RawField} {payload : List UInt8}
    (h : splitFields limit ⟨offset, payload⟩ = (fields, none)) {k : Nat} (hk : k ≤ payload.length) :
    ∃ stop,
      splitFields limit ⟨offset, payload.take k⟩ =
        (fields.filter fun f => f.behind ≤ offset + k, stop) ∧
      (stop = none ↔ k = 0 ∨ ∃ f ∈ fields, f.behind = offset + k) ∧
      ∀ e, stop = some e → e.IsTruncation := by
  have hs := splitFields_eq_iff.1 h
  clear h
  induction fields generalizing offset payload k with
  | nil =>
    obtain rfl : [] = payload := hs.1
    obtain rfl : k = 0 := Nat.le_zero.1 hk
    exact ⟨none, splitFields_of_rest_eq_nil limit rfl, by simp, fun e he => nomatch he⟩
  | cons field fields ih =>
    obtain ⟨hb, hplaced, hf⟩ := hs
    have ho : field.offset = offset := hplaced.1
    have hp : Placed (offset + field.bytes.length) fields := hplaced.2
    rw [List.flatMap_cons] at hb
    obtain rfl : field.bytes ++ fields.flatMap RawField.bytes = payload := hb
    have hfield := hf field (List.mem_cons_self ..)
    have hbehind : field.behind = offset + field.bytes.length := by rw [RawField.behind, ho]
    have hr (rest : List UInt8) : readField ⟨offset, field.bytes ++ rest⟩ limit =
        .ok (field, ⟨offset + field.bytes.length, rest⟩) :=
      readField_eq_ok_iff.2 ⟨ho, hfield, rfl, rfl⟩
    by_cases hl : field.bytes.length ≤ k
    · obtain ⟨j, rfl⟩ := Nat.exists_eq_add_of_le hl
      rw [List.length_append] at hk
      obtain ⟨stop, hsplit, hstop, ht⟩ := @ih (offset + field.bytes.length)
        (fields.flatMap RawField.bytes) j (by omega)
        ⟨rfl, hp, fun f hm => hf f (List.mem_cons_of_mem _ hm)⟩
      refine ⟨stop, ?_, ?_, ht⟩
      · rw [List.take_length_add_append, splitFields_of_readField (hr _), hsplit,
          List.filter_cons_of_pos (by simp [hbehind]), Nat.add_assoc]
      · have := hfield.length_pos
        have h0 : field.bytes.length + j ≠ 0 := by omega
        have hj : field.behind = offset + (field.bytes.length + j) ↔ j = 0 := by
          rw [hbehind]
          omega
        simp only [hstop, h0, false_or, List.mem_cons, exists_eq_or_imp, hj, Nat.add_assoc]
    · have hout : ∀ f ∈ field :: fields, offset + k < f.behind := by
        intro f hm
        refine Nat.lt_of_lt_of_le ?_ (hplaced.behind_le f hm)
        omega
      obtain ⟨stop, hsplit, hstop, ht⟩ := splitFields_take_first (hr _) (Nat.not_le.1 hl)
      refine ⟨stop, ?_, ?_, ht⟩
      · rw [List.filter_eq_nil_iff.2 (fun f hm => by simpa using hout f hm)]
        exact hsplit
      · rw [hstop, or_iff_left]
        rintro ⟨f, hm, he⟩
        exact absurd he (Nat.ne_of_gt (hout f hm))

end Cursor
end ReflectionError
