import ReflectionError.Proofs.Wire.Shift

/-!
# ReflectionError.Proofs.Wire.Limit

Reading with a larger nesting limit. Only a read that stopped because groups stand too deep in each
other may go on; any other gives the same as before, a failure too.

* `passInner_mono`, `closeGroups_mono`: one step inside groups, and all steps.
* `readField_mono`, `splitFields_mono`: one field, and all fields.
-/

namespace ReflectionError

/-- Groups stand too deep in each other. -/
def DecodeError.IsNesting (e : DecodeError) : Prop := ∃ limit, e = recursionLimitExceeded limit

namespace Cursor

/-- The outcome `y` is `x`, unless groups stood too deep for `x`. -/
def SameUnlessNested {α : Type} (x y : Except Failure α) : Prop :=
  Except.SameUnless (fun failure => failure.error.IsNesting) x y

section Limits

variable {limit limit' : Nat} (h : limit ≤ limit') (c : Cursor)
include h

theorem passInner_mono (number : Nat) (outer : List Nat) :
    SameUnlessNested (c.passInner limit number outer) (c.passInner limit' number outer) := by
  rw [passInner, passInner]
  cases c.readKey with
  | error failure => exact .refl _
  | ok r =>
    obtain ⟨⟨number', wireType⟩, behind⟩ := r
    cases wireType with
    | startGroup =>
      simp only
      by_cases hl : outer.length + 1 < limit
      · rw [if_pos hl, if_pos (Nat.lt_of_lt_of_le hl h)]
        exact .refl _
      · rw [if_neg hl]
        exact .of_excused ⟨limit, rfl⟩
    | _ => exact .refl _

/-- By induction on the steps. The groups that are open are the same under both limits. -/
theorem closeGroups_mono (opened : List Nat) :
    SameUnlessNested (c.closeGroups limit opened) (c.closeGroups limit' opened) := by
  fun_induction closeGroups limit opened c with
  | case1 c => rw [closeGroups]; exact .refl _
  | case2 c number outer failure hp =>
    have hm := passInner_mono h c number outer
    rw [hp] at hm
    rw [closeGroups_cons]
    rcases hm with ⟨_, he, hn⟩ | hm
    · cases he
      exact .of_excused hn
    · rw [hm]
      exact .refl _
  | case3 c number outer opened next hp ih =>
    have hm := passInner_mono h c number outer
    rw [hp] at hm
    rw [closeGroups_cons, hm.eq_of_ok]
    exact ih

theorem skipValue_mono (key : Key) :
    SameUnlessNested (c.skipValue key limit) (c.skipValue key limit') := by
  rw [skipValue, skipValue]
  cases key.wireType with
  | startGroup =>
    simp only
    by_cases h0 : min limit maxNesting = 0
    · rw [if_pos h0]
      exact .of_excused ⟨0, rfl⟩
    · have hm : min limit maxNesting ≤ min limit' maxNesting := by omega
      rw [if_neg h0, if_neg (by omega)]
      exact closeGroups_mono hm c _
  | _ => exact .refl _

theorem readField_mono :
    SameUnlessNested (c.readField limit) (c.readField limit') := by
  rw [readField, readField]
  cases c.readKey with
  | error failure => exact .refl _
  | ok r =>
    obtain ⟨key, behind⟩ := r
    simp only
    rcases skipValue_mono h behind key with ⟨failure, he, hn⟩ | hm
    · rw [he]
      exact .of_excused hn
    · rw [hm]
      exact .refl _

theorem splitFields_mono :
    (∃ e, (c.splitFields limit).2 = some e ∧ e.IsNesting) ∨
      c.splitFields limit' = c.splitFields limit := by
  fun_induction splitFields limit c with
  | case1 c hc => exact .inr (splitFields_of_rest_eq_nil limit' hc)
  | case2 c hc failure hr =>
    have hm := readField_mono h c
    rw [hr] at hm
    rcases hm with ⟨_, he, hn⟩ | hm
    · cases he
      exact .inl ⟨_, rfl, hn⟩
    · exact .inr (splitFields_of_error hc hm)
  | case3 c hc f next hr fields stop hs ih =>
    have hm := readField_mono h c
    rw [hr] at hm
    rw [hs] at ih
    rw [splitFields_of_readField hm.eq_of_ok]
    rcases ih with he | hn
    · exact .inl he
    · rw [hn]
      exact .inr rfl

end Limits
end Cursor
end ReflectionError
