import ReflectionError.Proofs.Decimal.Integer
import ReflectionError.Status

/-!
# ReflectionError.Proofs.Status

The numbers and names of the status codes, in any spelling that is accepted.

* `trim_of_no_blank`: a text without blanks is left as it is.
* `find?_name`: no two codes have names that are compared equal.
* `ofNat?_eq_some_iff`: the numbers that are codes.
* `parse?_of_spelledBy`: a spelling of a name is read as the code.
* `parse?_eq_some_iff`: the texts that are read as a code, by number or by name.
-/

namespace ReflectionError

/-! ## Blanks around a text -/

namespace Text

theorem dropWhile_isBlank {s : List Char} (h : ∀ c ∈ s, isBlank c = false) :
    s.dropWhile isBlank = s := by
  cases s with
  | nil => rfl
  | cons c s => exact List.dropWhile_cons_of_neg (by simp [h c (List.mem_cons_self ..)])

theorem trim_of_no_blank {s : List Char} (h : ∀ c ∈ s, isBlank c = false) : trim s = s := by
  have hr : ∀ c ∈ s.reverse, isBlank c = false := fun c hc => h c (List.mem_reverse.1 hc)
  rw [trim, dropWhile_isBlank h, trimEnd, dropWhile_isBlank hr, List.reverse_reverse]

end Text

namespace Code

/-- The text is the name of the code, up to blanks around it, `_` and `-`, and the case of ASCII
letters. -/
def SpelledBy (c : Code) (s : String) : Prop :=
  normalize (Text.trim s.toList) = normalize c.name.toList

instance (c : Code) (s : String) : Decidable (c.SpelledBy s) :=
  inferInstanceAs (Decidable (normalize (Text.trim s.toList) = normalize c.name.toList))

theorem find?_name (c : Code) :
    all.find? (fun d => normalize d.name.toList = normalize c.name.toList) = some c := by
  cases c <;> decide

theorem any_isDigit_name (c : Code) : (normalize c.name.toList).any Char.isDigit = false := by
  cases c <;> decide

theorem mem_normalize_of_isDigit {s : List Char} {d : Char} (h : d ∈ s) (hd : d.isDigit = true) :
    d ∈ normalize s := by
  have hle : d.val ≤ '9'.val := by
    simp only [Char.isDigit, Bool.and_eq_true, decide_eq_true_eq] at hd
    exact hd.2
  have hlower : d.toLower = d := by
    refine dif_neg fun hupper => ?_
    exact absurd (UInt32.le_trans hupper.1 hle) (by decide)
  have hkept : (d != '_' && d != '-') = true := by
    rw [Bool.and_eq_true, bne_iff_ne, bne_iff_ne]
    constructor
    · rintro rfl
      cases hd
    · rintro rfl
      cases hd
  rw [normalize, ← hlower]
  exact List.mem_map_of_mem (List.mem_filter.2 ⟨h, hkept⟩)

theorem SpelledBy.no_digit {c : Code} {s : String} (h : c.SpelledBy s) :
    ∀ d ∈ Text.trim s.toList, d.isDigit = false := by
  intro d hd
  cases hdigit : d.isDigit with
  | false => rfl
  | true =>
    have hname := List.any_eq_false.1 c.any_isDigit_name d (h ▸ mem_normalize_of_isDigit hd hdigit)
    exact absurd hdigit hname

theorem parse?_of_spelledBy {c : Code} {s : String} (h : c.SpelledBy s) : parse? s = some c := by
  obtain ⟨fault, hn⟩ := Decimal.readNat_of_no_digit (UInt64.size - 1) h.no_digit
  have hname : normalize (Text.trim s.toList) = normalize c.name.toList := h
  simp only [parse?, hn, hname]
  exact find?_name c

/-! ## Numbers -/

theorem getElem?_all (c : Code) : all[c.toNat]? = some c := by
  cases c <;> rfl

theorem ofNat?_eq_some_iff {n : Nat} {c : Code} : ofNat? n = some c ↔ n = c.toNat := by
  constructor
  · intro h
    obtain ⟨hn, hc⟩ := List.getElem?_eq_some_iff.1 h
    have hplace : ∀ k : Fin 17, (all.get ⟨k.val, k.isLt⟩).toNat = k.val := by decide
    rw [← hc]
    exact (hplace ⟨n, hn⟩).symm
  · rintro rfl
    exact getElem?_all c

theorem toInt_toInt32 (c : Code) : c.toInt32.toInt = c.toNat := by
  cases c <;> rfl

/-- The text is the number of the code in digits, up to blanks around it and zeros in front. A plus
may stand in front of them. -/
def NumberedBy (c : Code) (s : String) : Prop :=
  Decimal.Numeral (Text.trim s.toList) c.toNat ∧ (Text.trim s.toList).head? ≠ some '-'

theorem toNat_le (c : Code) : c.toNat ≤ 16 := by
  cases c <;> decide

/-- A text is read as a code if and only if it is its number, or a spelling of its name. -/
theorem parse?_eq_some_iff {s : String} {c : Code} :
    parse? s = some c ↔ c.NumberedBy s ∨ c.SpelledBy s := by
  constructor
  · intro h
    simp only [parse?] at h
    split at h
    · next n hn =>
      obtain ⟨hs, hminus, -⟩ := Decimal.readNat_eq_ok_iff.1 hn
      obtain rfl := ofNat?_eq_some_iff.1 h
      exact .inl ⟨hs, hminus⟩
    · have hname := List.find?_some h
      rw [decide_eq_true_eq] at hname
      exact .inr hname.symm
  · rintro (⟨hs, hminus⟩ | h)
    · have hle : c.toNat ≤ UInt64.size - 1 := Nat.le_trans c.toNat_le (by decide)
      simp only [parse?, Decimal.readNat_eq_ok_iff.2 ⟨hs, hminus, hle⟩]
      exact ofNat?_eq_some_iff.2 rfl
    · exact parse?_of_spelledBy h

end Code
end ReflectionError
