import ReflectionError.Proofs.Reply.Fields
import ReflectionError.Proofs.Wire.Cut

/-!
# ReflectionError.Proofs.Reply.Truncation

Replies from the front part of a payload. Where the payload was accepted, a part of it is a reply if
it ends between two fields, and then it is made of the fields that are left. Anywhere else bytes are
missing, and nothing else is ever wrong. The other way round, a front part in which anything else is
wrong is the beginning of no payload that is accepted, and where bytes are missing, fewer than those
do not help.

* `refusal?_of_subset`: fewer fields hold no more text that is refused.
* `mergeWith_take`: what the front part of a payload does to a reply.
* `decode_take`: when it is a reply itself, which one, and what it is otherwise.
* `readFields_append_of_error`, `acceptFields_append_of_error`: a failure in the front part.
* `failures_are_final`: which failures more bytes cannot mend.
-/

namespace ReflectionError
namespace Reply

theorem refusal?_of_subset {o : Options} {fields more : List RawField}
    (h : refusal? o fields = none) (hs : more ⊆ fields) : refusal? o more = none := by
  unfold refusal? textFault? at h ⊢
  split at h
  · next hstrict =>
    rw [if_pos hstrict, List.findSome?_eq_none_iff]
    rw [List.findSome?_eq_none_iff] at h
    intro f hf
    obtain ⟨hm, ht⟩ := List.mem_filter.1 hf
    exact h f (List.mem_filter.2 ⟨hs hm, ht⟩)
  · next hlossy => rw [if_neg hlossy]

/-- What is left of an accepted payload is put on a reply field by field. If a part of a field is
left behind the last complete one, the reply is refused because bytes are missing. -/
theorem mergeWith_take {buf : List UInt8} {o : Options} {fields : List RawField}
    (hr : readFields buf o = .ok fields) (hn : refusal? o fields = none) {k : Nat}
    (hk : k ≤ buf.length) (r : Reply) :
    ((k = 0 ∨ ∃ f ∈ fields, f.behind = k) ∧
      buf.take k = (fields.filter fun f => f.behind ≤ k).flatMap RawField.bytes ∧
      r.mergeWith (buf.take k) o = .ok (r.overlay (fields.filter fun f => f.behind ≤ k))) ∨
    (¬ (k = 0 ∨ ∃ f ∈ fields, f.behind = k) ∧
      ∃ e, e.IsTruncation ∧ r.mergeWith (buf.take k) o = .error e) := by
  obtain ⟨ha, hs⟩ := readFields_eq_ok_iff.1 hr
  obtain ⟨stop, hsplit, hstop, ht⟩ := Cursor.splitFields_take hs hk
  have hl : o.Admits (buf.take k).length := ha.mono (by simp)
  have hf := refusal?_of_subset hn (List.filter_sublist (p := fun f => f.behind ≤ k)).subset
  rw [Nat.zero_add] at hsplit hstop
  rw [mergeWith_eq_of_splitFields hl, Cursor.start, hsplit, hf, ← hstop]
  cases stop with
  | none => exact .inl ⟨rfl, (Cursor.splitFields_eq_iff.1 hsplit).1.symm, rfl⟩
  | some e => exact .inr ⟨Option.some_ne_none e, e, ht e rfl, rfl⟩

/-- The front part of an accepted payload is accepted if and only if it ends behind one of the
fields of the whole, or before the first. It then is made of the fields that end in it, and is
decoded to what they make of an empty reply. Anywhere else bytes are missing. -/
theorem decode_take (buf : List UInt8) (o : Options) (m : Reply) (h : decode buf o = .ok m) :
    ∃ fields, readFields buf o = .ok fields ∧ ∀ k ≤ buf.length,
      ((∃ r, decode (buf.take k) o = .ok r) ↔ k = 0 ∨ ∃ f ∈ fields, f.behind = k) ∧
      (∀ r, decode (buf.take k) o = .ok r →
        buf.take k = (fields.filter fun f => f.behind ≤ k).flatMap RawField.bytes ∧
        r = overlay {} (fields.filter fun f => f.behind ≤ k)) ∧
      ∀ e, decode (buf.take k) o = .error e → e.IsTruncation := by
  obtain ⟨fields, hr, hn, rfl⟩ := mergeWith_eq_ok_iff.1 h
  refine ⟨fields, hr, fun k hk => ?_⟩
  rcases mergeWith_take hr hn hk {} with ⟨hend, hbytes, hd⟩ | ⟨hend, e, ht, hd⟩
  · rw [decode, hd]
    refine ⟨iff_of_true ⟨_, rfl⟩ hend, fun r hr => ⟨hbytes, ?_⟩, nofun⟩
    exact (Except.ok.inj hr).symm
  · rw [decode, hd]
    refine ⟨iff_of_false nofun hend, nofun, fun e' he => ?_⟩
    exact Except.error.inj he ▸ ht

/-- Behind the code a group is cut off between the field in it and its end key. -/
theorem decode_take_inside_group :
    let buf := [0x08, 0x05, 0x1b, 0x20, 0x01, 0x1c]
    let m : Reply := { code := 5, unknown := [⟨3, .startGroup, 1, [0x1b, 0x20, 0x01, 0x1c]⟩] }
    decode buf {} = .ok m ∧ (∃ r, decode (buf.take 2) {} = .ok r) ∧
      ∃ e, decode (buf.take 5) {} = .error e ∧ e.IsTruncation := by
  intro buf m
  have h : decode buf {} = .ok m := by decide +kernel
  have hr : readFields buf {} = .ok [⟨⟨1, .varint⟩, 0, [0x08, 0x05], 1⟩,
      ⟨⟨3, .startGroup⟩, 2, [0x1b, 0x20, 0x01, 0x1c], 1⟩] := by decide +kernel
  have he : decode (buf.take 5) {} = .error (.truncatedInput 5 1 0) := by decide +kernel
  obtain ⟨fields, hf, hk⟩ := decode_take buf {} m h
  rw [hr] at hf
  cases hf
  exact ⟨h, (hk 2 (by decide)).1.2 (by decide), _, he, (hk 5 (by decide)).2.2 _ he⟩

end Reply

/-! ## Payloads that go on -/

section Continued

variable {o : Options} {front : List UInt8} {e : DecodeError} (back : List UInt8)

theorem readFields_append_of_error (hs : o.sizeLimit = none) (h : readFields front o = .error e)
    (he : ¬ e.IsMetBy back.length) :
    readFields (front ++ back) o = .error (e.supply back.length) := by
  have hl := Options.admits_of_no_limit hs
  rw [readFields, Options.checkSize_eq_ok_iff.2 (hl _)] at h ⊢
  cases hf : (Cursor.start front).splitFields o.nestingLimit with
  | mk fields stop =>
    rw [hf] at h
    cases stop with
    | none => cases h
    | some e' =>
      cases h
      have ha := Cursor.splitFields_append_of_stop back hf he
      simp only [show Cursor.start (front ++ back) = (Cursor.start front).append back from rfl, ha]

theorem Reply.acceptFields_append_of_error (hs : o.sizeLimit = none)
    (h : acceptFields front o = .error e) (he : ¬ e.IsMetBy back.length) :
    acceptFields (front ++ back) o = .error (e.supply back.length) := by
  have hl := Options.admits_of_no_limit hs
  rw [acceptFields, Options.checkSize_eq_ok_iff.2 (hl _)] at h ⊢
  simp only [show Cursor.start (front ++ back) = (Cursor.start front).append back from rfl]
  cases hf : (Cursor.start front).splitFields o.nestingLimit with
  | mk fields stop =>
    simp only [hf] at h
    cases hn : refusal? o fields with
    | some fault =>
      rw [hn] at h
      cases h
      obtain ⟨more, hm⟩ :=
        Cursor.splitFields_append_prefix back o.nestingLimit (Cursor.start front)
      rw [hf] at hm
      simp only [← hm, refusal?_append, hn, Option.some_or]
      rfl
    | none =>
      rw [hn] at h
      cases stop with
      | none => cases h
      | some e' =>
        cases h
        simp only [Cursor.splitFields_append_of_stop back hf he, hn]

end Continued

/-- A payload that is refused for anything but missing bytes is refused for the same reason,
whatever is put behind it. Where bytes are missing, fewer than those are found to be missing at the
same place still, and what has come is counted. -/
theorem Reply.failures_are_final (a b : List UInt8) (o : Options) (hs : o.sizeLimit = none) :
    (∀ e, decode a o = .error e → ¬ e.IsTruncation → decode (a ++ b) o = .error e) ∧
    (∀ e, readFields a o = .error e → ¬ e.IsTruncation → readFields (a ++ b) o = .error e) ∧
    (∀ offset needed remaining, b.length < needed - remaining →
      decode a o = .error (.truncatedInput offset needed remaining) →
      decode (a ++ b) o = .error (.truncatedInput offset needed (remaining + b.length))) ∧
    (∀ offset needed remaining, b.length < needed - remaining →
      readFields a o = .error (.truncatedInput offset needed remaining) →
      readFields (a ++ b) o = .error (.truncatedInput offset needed (remaining + b.length))) := by
  have hfew {offset needed remaining : Nat} (h : b.length < needed - remaining) :
      ¬ (DecodeError.truncatedInput offset needed remaining).IsMetBy b.length := by
    rintro ⟨_, _, _, he, hm⟩
    cases he
    omega
  have hdecode {e : DecodeError} (h : decode a o = .error e) (he : ¬ e.IsMetBy b.length) :
      decode (a ++ b) o = .error (e.supply b.length) := by
    rw [decode, mergeWith_eq_map, Except.map_eq_error_iff] at h ⊢
    exact acceptFields_append_of_error b hs h he
  refine ⟨fun e h ht => ?_, fun e h ht => ?_, fun _ _ _ hb h => hdecode h (hfew hb),
    fun _ _ _ hb h => readFields_append_of_error b hs h (hfew hb)⟩
  · rw [hdecode h (mt DecodeError.IsMetBy.isTruncation ht), e.supply_of_not_isTruncation ht]
  · rw [readFields_append_of_error b hs h (mt DecodeError.IsMetBy.isTruncation ht),
      e.supply_of_not_isTruncation ht]

/-- Inside a group, four of eight bytes are there and then six. A text that is no UTF-8 stays
one. -/
theorem Reply.failures_are_final_in_group :
    let cut := [0x1b, 0x21, 1, 2, 3, 4]
    let refused := [0x12, 0x01, 0xff, 0x08]
    decode (cut ++ [5, 6]) {} = .error (.truncatedInput 2 8 6) ∧
      decode (refused ++ [0x05]) {} = .error (.invalidEncoding "error_message" ⟨0, some 1⟩) := by
  intro cut refused
  have hc : decode cut {} = .error (.truncatedInput 2 8 4) := by decide +kernel
  have hr : decode refused {} = .error (.invalidEncoding "error_message" ⟨0, some 1⟩) := by
    decide +kernel
  have ht : ¬ (DecodeError.invalidEncoding "error_message" ⟨0, some 1⟩).IsTruncation := by
    rintro ⟨_, _, _, h⟩
    cases h
  exact ⟨(failures_are_final cut [5, 6] {} rfl).2.2.1 2 8 4 (by decide) hc,
    (failures_are_final refused [0x05] {} rfl).1 _ hr ht⟩

end ReflectionError
