import ReflectionError.Proofs.Wire.Nesting

/-!
# ReflectionError.Proofs.Wire.Descent

Groups passed by descent. `closeGroups` keeps the numbers of the open groups on a stack. The same is
done by one loop for each group, which runs inside the loop of the group around it and allows one
level less: a round of it (`passRound`) passes one field, a group with all that is in it included.
An error about nesting is noticed where nothing is left of the limit, and each loop on the way out
puts its own limit into it, so that the outermost one tells what was asked for.

* `passInner_atop`, `closeGroups_atop`: open groups do not look at those further out.
* `closeGroups_eq_passRound`: closing one group is going through its rounds.
* `two_le_of_passRound`: a round that does not end the group goes forward by two bytes at least.
* `ComesBy.length_le`: no more groups are open at any time than the limit allows.
-/

namespace ReflectionError

/-- The error with another limit, if it is about nesting. -/
def DecodeError.withLimit (limit : Nat) : DecodeError → DecodeError
  | recursionLimitExceeded _ => recursionLimitExceeded limit
  | e => e

def Failure.withLimit (limit : Nat) (failure : Failure) : Failure :=
  { failure with error := failure.error.withLimit limit }

theorem Failure.withLimit_of_not_isNesting {failure : Failure} (h : ¬ failure.error.IsNesting)
    (limit : Nat) : failure.withLimit limit = failure := by
  obtain ⟨e, c⟩ := failure
  cases e with
  | recursionLimitExceeded n => exact absurd ⟨n, rfl⟩ h
  | _ => rfl

namespace Cursor

/-! ## More open groups at the bottom of the stack -/

section Atop

variable (low : Nat) (outer : List Nat)

theorem passInner_atop (number : Nat) (inner : List Nat) (c : Cursor) :
    c.passInner (low + outer.length) number (inner ++ outer) =
      match c.passInner low number inner with
      | .error failure => .error (failure.withLimit (low + outer.length))
      | .ok (opened, d) => .ok (opened ++ outer, d) := by
  rw [passInner, passInner]
  cases hk : c.readKey with
  | error failure =>
    simp only [Failure.withLimit_of_not_isNesting (not_isNesting_of_readKey hk)]
  | ok r =>
    obtain ⟨⟨n, wireType⟩, behind⟩ := r
    cases wireType with
    | endGroup =>
      simp only
      split <;> rfl
    | startGroup =>
      have hroom : (inner ++ outer).length + 1 < low + outer.length ↔ inner.length + 1 < low := by
        rw [List.length_append]
        omega
      simp only [hroom]
      split <;> rfl
    | _ =>
      simp only
      cases hs : behind.skipPlain _ with
      | error failure =>
        simp only [Except.map, Failure.withLimit_of_not_isNesting (not_isNesting_of_skipPlain hs)]
      | ok next => rfl

/-- By induction on the steps, until none of the groups above `outer` is left. -/
theorem closeGroups_atop (opened : List Nat) (c : Cursor) :
    c.closeGroups (low + outer.length) (opened ++ outer) =
      match c.closeGroups low opened with
      | .error failure => .error (failure.withLimit (low + outer.length))
      | .ok d => d.closeGroups (low + outer.length) outer := by
  fun_induction closeGroups low opened c with
  | case1 c => rfl
  | case2 c number inner failure hp => rw [List.cons_append, closeGroups_cons, passInner_atop, hp]
  | case3 c number inner opened next hp ih =>
    rw [List.cons_append, closeGroups_cons, passInner_atop, hp]
    exact ih

end Atop

/-! ## One loop for each group -/

/-- One round of the loop of group `number`: the next key, and the value behind it unless the key
ends the group, in which groups may be `depth` deep. It gives whether the group has ended. -/
def passRound (number depth : Nat) (c : Cursor) : Read Bool :=
  match c.readKey with
  | .error failure => .error failure
  | .ok (key, behind) =>
    if key.wireType = .endGroup then
      if key.number = number then .ok (true, behind)
      else .error ⟨.unexpectedEndGroup c.offset key.number, behind⟩
    else match behind.skipValue key depth with
      | .error failure => .error (failure.withLimit (depth + 1))
      | .ok next => .ok (false, next)

theorem closeGroups_nil (limit : Nat) (c : Cursor) : c.closeGroups limit [] = .ok c := by
  rw [closeGroups]

theorem closeGroups_eq_passRound {depth : Nat} (h : depth < maxNesting) (number : Nat)
    (c : Cursor) :
    c.closeGroups (depth + 1) [number] =
      match c.passRound number depth with
      | .error failure => .error failure
      | .ok (ended, d) => if ended then .ok d else d.closeGroups (depth + 1) [number] := by
  rw [closeGroups_cons, passInner, passRound]
  cases c.readKey with
  | error failure => rfl
  | ok r =>
    obtain ⟨⟨n, wireType⟩, behind⟩ := r
    cases wireType with
    | endGroup =>
      by_cases hn : n = number
      · simp only [hn, if_true]
        exact closeGroups_nil ..
      · simp only [hn, if_true, if_false]
    | startGroup =>
      have hmin : min depth maxNesting = depth := Nat.min_eq_left (Nat.le_of_lt h)
      simp only [skipValue, hmin, List.length_nil, Nat.zero_add, Nat.lt_add_left_iff_pos,
        reduceCtorEq, if_false]
      cases depth with
      | zero => rfl
      | succ left =>
        have hinner := closeGroups_atop (left + 1) [number] [n] behind
        simp only [Nat.succ_pos, if_true, Nat.succ_ne_zero, if_false]
        refine hinner.trans ?_
        cases behind.closeGroups (left + 1) [n] <;> rfl
    | _ =>
      simp only [skipValue, reduceCtorEq, if_false]
      cases hs : behind.skipPlain _ with
      | error failure =>
        simp only [Except.map, Failure.withLimit_of_not_isNesting (not_isNesting_of_skipPlain hs)]
      | ok next => rfl

theorem passes_of_passRound {number depth : Nat} {ended : Bool} {c d : Cursor}
    (h : c.passRound number depth = .ok (ended, d)) :
    ∃ header value, 0 < header.length ∧ (ended = false → 0 < value.length) ∧
      c.Passes (header ++ value) d := by
  unfold passRound at h
  split at h
  · cases h
  · next key behind hk =>
    obtain ⟨header, hh, hp⟩ := readKey_eq_ok_iff.1 hk
    split at h
    · split at h
      · cases h
        refine ⟨header, [], hh.length_pos, fun he => ?_, ?_⟩
        · cases he
        · rw [List.append_nil]
          exact hp
      · cases h
    · split at h
      · cases h
      · next next hs =>
        cases h
        obtain ⟨_, value, _, hv, hp'⟩ := skipValue_eq_ok_iff.1 hs
        exact ⟨header, value, hh.length_pos, fun _ => hv.length_pos, hp.trans hp'⟩

/-- The key takes one byte at least, and so does the value. -/
theorem two_le_of_passRound {number depth : Nat} {c d : Cursor}
    (h : c.passRound number depth = .ok (false, d)) : c.offset + 2 ≤ d.offset := by
  obtain ⟨header, value, hh, hv, hp⟩ := passes_of_passRound h
  have hlength := hp.2
  rw [List.length_append] at hlength
  have := hv rfl
  omega

/-! ## How many groups are open -/

/-- What closing groups comes by, from `opened` and `c` on: open groups, and places. -/
inductive ComesBy (limit : Nat) (opened : List Nat) (c : Cursor) : List Nat → Cursor → Prop where
  | start : ComesBy limit opened c opened c
  | step {number : Nat} {outer next : List Nat} {d e : Cursor} :
      ComesBy limit opened c (number :: outer) d → d.passInner limit number outer = .ok (next, e) →
      ComesBy limit opened c next e

theorem ComesBy.closeGroups_eq {limit : Nat} {opened opened' : List Nat} {c d : Cursor}
    (h : ComesBy limit opened c opened' d) :
    c.closeGroups limit opened = d.closeGroups limit opened' := by
  induction h with
  | start => rfl
  | step _ hs ih => rw [ih, closeGroups_cons, hs]

theorem length_le_of_passInner {limit number : Nat} {outer opened : List Nat} {c d : Cursor}
    (h : c.passInner limit number outer = .ok (opened, d)) (hl : outer.length + 1 ≤ limit) :
    opened.length ≤ limit := by
  obtain ⟨bytes, hi, _⟩ := passInner_eq_ok_iff.1 h
  cases hi with
  | close _ => exact Nat.le_of_succ_le hl
  | nest _ hn => exact hn
  | plain _ _ => exact hl

theorem ComesBy.length_le {limit : Nat} {opened opened' : List Nat} {c d : Cursor}
    (h : ComesBy limit opened c opened' d) (hl : opened.length ≤ limit) :
    opened'.length ≤ limit := by
  induction h with
  | start => exact hl
  | step _ hs ih => exact length_le_of_passInner hs ih

end Cursor
end ReflectionError
