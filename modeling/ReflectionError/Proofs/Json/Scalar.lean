import ReflectionError.Json.Parser

/-!
# ReflectionError.Proofs.Json.Scalar

Values that are neither lists nor objects: the texts that they are read from, by the kind of value.
-/

namespace ReflectionError
namespace Json

/-- A text begins with a value that is neither a list nor an object, and goes on with `rest`. -/
inductive IsScalar (mode : Mode) : List Char → Value → List Char → Prop where
  | null {s rest : List Char} : readWord ['u', 'l', 'l'] s = .ok rest →
      IsScalar mode ('n' :: s) .null rest
  | true {s rest : List Char} : readWord ['r', 'u', 'e'] s = .ok rest →
      IsScalar mode ('t' :: s) (.boolean true) rest
  | false {s rest : List Char} : readWord ['a', 'l', 's', 'e'] s = .ok rest →
      IsScalar mode ('f' :: s) (.boolean false) rest
  | string {s rest cs : List Char} : readString mode s = .ok (cs, rest) →
      IsScalar mode ('"' :: s) (.string (String.ofList cs)) rest
  | number {c : Char} {s rest : List Char} {n : Number} : (c = '-' ∨ isDigit c = true) →
      readNumber mode (c :: s) = .ok (n, rest) → IsScalar mode (c :: s) (.number n) rest

theorem isScalar_of_readScalar {mode : Mode} {s rest : List Char} {v : Value}
    (h : readScalar mode s = .ok (v, rest)) : IsScalar mode s v rest := by
  cases s with
  | nil => cases h
  | cons c s =>
    rw [readScalar] at h
    split at h
    · next hc =>
      obtain ⟨_, hw, he⟩ := Except.map_eq_ok_iff.1 h
      cases he
      exact hc ▸ .null hw
    split at h
    · next hc =>
      obtain ⟨_, hw, he⟩ := Except.map_eq_ok_iff.1 h
      cases he
      exact hc ▸ .true hw
    split at h
    · next hc =>
      obtain ⟨_, hw, he⟩ := Except.map_eq_ok_iff.1 h
      cases he
      exact hc ▸ .false hw
    split at h
    · next hc =>
      obtain ⟨_, hs, he⟩ := Except.map_eq_ok_iff.1 h
      cases he
      exact hc ▸ .string hs
    split at h
    · next hc =>
      obtain ⟨_, hn, he⟩ := Except.map_eq_ok_iff.1 h
      cases he
      simp only [Bool.or_eq_true, decide_eq_true_eq] at hc
      exact .number hc hn
    · cases h

theorem ne_of_beginsNumber {c d : Char} (hc : c = '-' ∨ isDigit c = true) (hminus : d ≠ '-')
    (hdigit : isDigit d = false) : c ≠ d := by
  rintro rfl
  rcases hc with rfl | hc
  · exact hminus rfl
  · rw [hdigit] at hc
    cases hc

theorem readScalar_of_isScalar {mode : Mode} {s rest : List Char} {v : Value}
    (h : IsScalar mode s v rest) : readScalar mode s = .ok (v, rest) := by
  cases h with
  | null hw => rw [readScalar, if_pos rfl, hw]; rfl
  | true hw => rw [readScalar, if_neg (by decide), if_pos rfl, hw]; rfl
  | false hw => rw [readScalar, if_neg (by decide), if_neg (by decide), if_pos rfl, hw]; rfl
  | string hs =>
    rw [readScalar, if_neg (by decide), if_neg (by decide), if_neg (by decide), if_pos rfl, hs]
    rfl
  | number hc hn =>
    have hne {d : Char} (hminus : d ≠ '-') (hdigit : isDigit d = Bool.false) :=
      ne_of_beginsNumber hc hminus hdigit
    rw [readScalar, if_neg (hne (by decide) rfl), if_neg (hne (by decide) rfl),
      if_neg (hne (by decide) rfl), if_neg (hne (by decide) rfl), if_pos (by simpa using hc), hn]
    rfl

end Json
end ReflectionError
