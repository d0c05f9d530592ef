import ReflectionError.Proofs.Json.RoundTrip

/-!
# ReflectionError.Proofs.Json.Stack

What is below on the stack is not looked at before what is above it has come to its end.

* `Machine.atop`: a machine with more below on its stack.
* `step_atop`: a step that succeeds with more below is one without it.
* `run_atop`: so a run that succeeds goes through the run without it.
-/

namespace ReflectionError
namespace Json

namespace Machine

/-- The machine with more below on its stack. -/
def atop (m : Machine) (base : List Frame) : Machine := { m with stack := m.stack ++ base }

theorem result?_atop {m : Machine} (hm : m.result? = none) (base : List Frame) :
    (m.atop base).result? = none := by
  obtain ⟨stack, state, rest⟩ := m
  cases state with
  | wanted => rfl
  | complete v =>
    cases stack with
    | nil => cases hm
    | cons frame stack => rfl

theorem openMember_atop (mode : Mode) (outer base : List Frame) (members : List (String × Value))
    (s : List Char) :
    openMember mode (outer ++ base) members s =
      (openMember mode outer members s).map (·.atop base) := by
  unfold openMember
  cases readKey mode s with
  | error f => rfl
  | ok key => rfl

theorem openList_atop (outer base : List Frame) (s : List Char) :
    openList (outer ++ base) s = (openList outer s).map (·.atop base) := by
  unfold openList
  split
  · rfl
  · split <;> rfl

theorem openObject_atop (mode : Mode) (outer base : List Frame) (s : List Char) :
    openObject mode (outer ++ base) s = (openObject mode outer s).map (·.atop base) := by
  unfold openObject
  split
  · rfl
  · split
    · rfl
    · split
      · exact openMember_atop mode outer base [] _
      · rfl

theorem stepWanted_atop {mode : Mode} {stack base : List Frame} {s : List Char} {n : Machine}
    (h : stepWanted mode (stack ++ base) s = .ok n) :
    ∃ n', stepWanted mode stack s = .ok n' ∧ n = n'.atop base := by
  unfold stepWanted at h ⊢
  split at h
  · cases h
  · next c rest hb =>
    split at h
    · next hopen =>
      split at h
      · cases h
      · next hdepth =>
        have hshallow : ¬ ((mode = .keep && maxDepth ≤ stack.length) = true) := by
          intro hdeep
          refine hdepth ?_
          simp only [Bool.and_eq_true, decide_eq_true_eq, List.length_append] at hdeep ⊢
          exact ⟨hdeep.1, by omega⟩
        simp only [if_pos hopen, if_neg hshallow]
        split at h
        · next hc =>
          rw [openList_atop] at h
          obtain ⟨n', hn, rfl⟩ := Except.map_eq_ok_iff.1 h
          exact ⟨n', by rw [if_pos hc, hn], rfl⟩
        · next hc =>
          rw [openObject_atop] at h
          obtain ⟨n', hn, rfl⟩ := Except.map_eq_ok_iff.1 h
          exact ⟨n', by rw [if_neg hc, hn], rfl⟩
    · next hopen =>
      obtain ⟨⟨v, behind⟩, hv, rfl⟩ := Except.map_eq_ok_iff.1 h
      simp only [if_neg hopen]
      exact ⟨⟨stack, .complete v, behind⟩, by rw [hv]; rfl, rfl⟩

theorem stepList_atop (mode : Mode) (outer base : List Frame) (items : List Value)
    (s : List Char) :
    stepList mode (outer ++ base) items s =
      (stepList mode outer items s).map (·.atop base) := by
  unfold stepList
  split
  · rfl
  · split
    · rfl
    · split
      · split
        · split
          · rfl
          · split <;> rfl
        · rfl
      · rfl

theorem stepObject_atop (mode : Mode) (outer base : List Frame)
    (members : List (String × Value)) (s : List Char) :
    stepObject mode (outer ++ base) members s =
      (stepObject mode outer members s).map (·.atop base) := by
  unfold stepObject
  split
  · rfl
  · split
    · rfl
    · split
      · split
        · rfl
        · split
          · exact openMember_atop mode outer base members _
          · split <;> rfl
      · rfl

/-- A step with more below is the step without it, as long as that has not come to its end. -/
theorem step_atop {mode : Mode} {m n : Machine} {base : List Frame} (hm : m.result? = none)
    (h : step mode (m.atop base) = .ok n) : ∃ n', step mode m = .ok n' ∧ n = n'.atop base := by
  obtain ⟨stack, state, rest⟩ := m
  cases state with
  | wanted => exact stepWanted_atop h
  | complete v =>
    cases stack with
    | nil => cases hm
    | cons frame outer =>
      cases frame with
      | list items =>
        have hstep : stepList mode (outer ++ base) (v :: items) rest = .ok n := h
        rw [stepList_atop] at hstep
        obtain ⟨n', hn, rfl⟩ := Except.map_eq_ok_iff.1 hstep
        exact ⟨n', hn, rfl⟩
      | object members key =>
        have hstep : stepObject mode (outer ++ base) ((key, v) :: members) rest = .ok n := h
        rw [stepObject_atop] at hstep
        obtain ⟨n', hn, rfl⟩ := Except.map_eq_ok_iff.1 hstep
        exact ⟨n', hn, rfl⟩

/-- By induction on the run without what is below. It ends where what is below is looked at next. -/
theorem run_atop {mode : Mode} {m : Machine} {base : List Frame} {v : Value} {rest : List Char}
    (h : (m.atop base).run mode = .ok (v, rest)) :
    ∃ u behind, m.run mode = .ok (u, behind) ∧
      run mode ⟨base, .complete u, behind⟩ = .ok (v, rest) := by
  fun_induction run mode m with
  | case1 m u hm =>
    refine ⟨u, m.rest, rfl, ?_⟩
    have habove : m.atop base = ⟨base, .complete u, m.rest⟩ := by
      obtain ⟨stack, state, s⟩ := m
      cases state with
      | wanted => cases hm
      | complete w =>
        cases stack with
        | nil =>
          cases hm
          rfl
        | cons frame outer => cases frame <;> cases hm
    rwa [habove] at h
  | case2 m hm f hs =>
    rw [run_eq_of_step (result?_atop hm base)] at h
    split at h
    · cases h
    · next n hn =>
      obtain ⟨n', hn', -⟩ := step_atop hm hn
      rw [hs] at hn'
      cases hn'
  | case3 m hm n hs ih =>
    rw [run_eq_of_step (result?_atop hm base)] at h
    split at h
    · cases h
    · next n' hn =>
      obtain ⟨n'', hn'', rfl⟩ := step_atop hm hn
      rw [hs] at hn''
      cases hn''
      exact ih h

end Machine

end Json
end ReflectionError
