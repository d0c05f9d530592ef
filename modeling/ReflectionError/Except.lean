/-!
# ReflectionError.Except

When operations that may fail succeed: after a result has been mapped, `map_eq_ok_iff` and
`mapError_eq_ok_iff`, and one after another, `bind_eq_ok_iff`; and when they fail, with an `error`
lemma for each. Mapping a result leaves failures as they are. `SameUnless` compares two outcomes,
and leaves open what the second is where the first is a failure of some kind.
-/

namespace ReflectionError
namespace Except

theorem map_eq_ok_iff {ε α β : Type} {x : Except ε α} {f : α → β} {b : β} :
    x.map f = .ok b ↔ ∃ a, x = .ok a ∧ f a = b := by
  cases x with
  | error e => simp [Except.map]
  | ok a => simp [Except.map]

theorem map_eq_error_iff {ε α β : Type} {x : Except ε α} {f : α → β} {e : ε} :
    x.map f = .error e ↔ x = .error e := by
  cases x <;> simp [Except.map]

theorem mapError_eq_ok_iff {ε ε' α : Type} {x : Except ε α} {f : ε → ε'} {a : α} :
    x.mapError f = .ok a ↔ x = .ok a := by
  cases x with
  | error e => exact ⟨fun h => (nomatch h), fun h => (nomatch h)⟩
  | ok b =>
    constructor
    · intro h
      cases h
      rfl
    · intro h
      cases h
      rfl

theorem bind_eq_ok_iff {ε α β : Type} {x : Except ε α} {f : α → Except ε β} {b : β} :
    x >>= f = .ok b ↔ ∃ a, x = .ok a ∧ f a = .ok b := by
  cases x with
  | error e => simp [bind, Except.bind]
  | ok a => simp [bind, Except.bind]

theorem mapError_eq_error_iff {ε ε' α : Type} {x : Except ε α} {f : ε → ε'} {e' : ε'} :
    x.mapError f = .error e' ↔ ∃ e, x = .error e ∧ f e = e' := by
  constructor
  · intro h
    cases x with
    | error e =>
      cases h
      exact ⟨e, rfl, rfl⟩
    | ok a => cases h
  · rintro ⟨e, rfl, rfl⟩
    rfl

theorem bind_eq_error_iff {ε α β : Type} {x : Except ε α} {f : α → Except ε β} {e : ε} :
    x >>= f = .error e ↔ x = .error e ∨ ∃ a, x = .ok a ∧ f a = .error e := by
  cases x with
  | error e => simp [bind, Except.bind]
  | ok a => simp [bind, Except.bind]

/-- The outcome `y` is `x`, unless `x` is an error that is excused. -/
def SameUnless {ε α : Type} (Excused : ε → Prop) (x y : Except ε α) : Prop :=
  (∃ e, x = .error e ∧ Excused e) ∨ y = x

namespace SameUnless

variable {ε α β : Type} {Excused : ε → Prop} {x y : Except ε α}

theorem refl (x : Except ε α) : SameUnless Excused x x := .inr rfl

theorem of_excused {e : ε} (h : Excused e) : SameUnless Excused (.error e) y := .inl ⟨e, rfl, h⟩

theorem map (h : SameUnless Excused x y) (f : α → β) : SameUnless Excused (x.map f) (y.map f) := by
  rcases h with ⟨e, rfl, he⟩ | rfl
  · exact of_excused he
  · exact refl _

theorem eq_of_ok {a : α} (h : SameUnless Excused (.ok a) y) : y = .ok a := by
  rcases h with ⟨e, he, _⟩ | h
  · cases he
  · exact h

end SameUnless

end Except
end ReflectionError
