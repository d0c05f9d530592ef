import ReflectionError.Proofs.Json.Members

/-!
# ReflectionError.Proofs.Json.Literal

Which texts are whole numbers that are not negative: digits only, without a sign, a fraction or an
exponent, and without a zero in front.

* `toDigits_ofDigitChars`: digits that do not begin with a zero are those of their number.
* `readWhole_eq_ok`, `readUnsigned_eq_plain`: what a numeral without fraction and exponent has in
  front of it and behind it.
* `Numeral.eq_of_value`: a numeral whose value is kept as a whole number that is not negative.
* `readNumber_eq_natural_iff`, `readValue_eq_natural_iff`: the texts of such a number.
-/

namespace ReflectionError
namespace Json

/-! ## Digits -/

theorem exists_digitChar {c : Char} (h : isDigit c = true) : ∃ k < 10, c = Nat.digitChar k := by
  obtain ⟨hlow, hhigh⟩ := Bool.and_eq_true_iff.1 h
  have hlow : 48 ≤ c.toNat := of_decide_eq_true hlow
  have hhigh : c.toNat ≤ 57 := of_decide_eq_true hhigh
  refine ⟨c.toNat - 48, by omega, Char.toNat_inj.1 ?_⟩
  rw [Nat.toNat_digitChar_of_lt_ten (by omega)]
  omega

theorem toDigits_ofDigitChars_append {ds : List Char} {value : Nat} (hpos : 0 < value)
    (hd : ∀ c ∈ ds, isDigit c = true) :
    Nat.toDigits 10 (Nat.ofDigitChars 10 ds value) = Nat.toDigits 10 value ++ ds := by
  induction ds generalizing value with
  | nil => rw [Nat.ofDigitChars_nil, List.append_nil]
  | cons c ds ih =>
    obtain ⟨k, hk, rfl⟩ := exists_digitChar (hd c (List.mem_cons_self ..))
    rw [Nat.ofDigitChars_cons_digitChar_of_lt_ten hk,
      ih (by omega) fun d hmem => hd d (List.mem_cons_of_mem _ hmem),
      ← Nat.toDigits_append_toDigits (by decide) hpos hk, Nat.toDigits_of_lt_base hk,
      List.append_assoc]
    rfl

theorem toDigits_ofDigitChars {c : Char} {ds : List Char} (hzero : c ≠ '0')
    (hd : ∀ d ∈ c :: ds, isDigit d = true) :
    Nat.toDigits 10 (Nat.ofDigitChars 10 (c :: ds) 0) = c :: ds := by
  obtain ⟨k, hk, rfl⟩ := exists_digitChar (hd c (List.mem_cons_self ..))
  have hpos : 0 < k := by
    rw [ne_eq, Nat.digitChar_eq_zero] at hzero
    exact Nat.pos_of_ne_zero hzero
  rw [Nat.ofDigitChars_cons_digitChar_of_lt_ten hk, Nat.mul_zero, Nat.zero_add,
    toDigits_ofDigitChars_append hpos fun d hmem => hd d (List.mem_cons_of_mem _ hmem),
    Nat.toDigits_of_lt_base hk]
  rfl

theorem appendDigits_le {limit value n : Nat} {ds : List Char} (hv : value ≤ limit)
    (h : appendDigits limit value ds = (n, 0)) :
    n ≤ limit ∧ Nat.ofDigitChars 10 ds value = n := by
  induction ds generalizing value with
  | nil =>
    cases h
    exact ⟨hv, rfl⟩
  | cons c ds ih =>
    rw [appendDigits] at h
    split at h
    · cases h
    · next hle =>
      rw [Nat.ofDigitChars_cons, Nat.mul_comm]
      exact ih (Nat.le_of_not_lt hle) h

/-! ## Numerals -/

theorem readWhole_eq_ok {s rest ds : List Char} (h : readWhole .keep s = .ok (ds, rest)) :
    s = ds ++ rest ∧ (∀ c ∈ rest.head?, isDigit c = false) ∧
      Nat.toDigits 10 (Nat.ofDigitChars 10 ds 0) = ds := by
  unfold readWhole at h
  split at h
  · cases h
  next c tail =>
  split at h
  · next hzero =>
    subst hzero
    split at h
    · split at h
      · cases h
      · next hd =>
        cases h
        refine ⟨rfl, fun c hc => ?_, by decide⟩
        cases hc
        exact Bool.eq_false_iff.2 hd
    · cases h
      exact ⟨rfl, by simp, by decide⟩
  · next hzero =>
    split at h
    · next hc =>
      cases h
      refine ⟨by rw [List.cons_append, List.takeWhile_append_dropWhile], fun d hd => ?_, ?_⟩
      · have hnot := List.head?_dropWhile_not isDigit tail
        rw [Option.mem_def.1 hd] at hnot
        exact hnot
      · refine toDigits_ofDigitChars hzero fun d hd => ?_
        rcases List.mem_cons.1 hd with rfl | hd
        · exact hc
        · exact List.all_eq_true.1 List.all_takeWhile d hd
    · cases h

theorem readFraction_eq_nil {s rest : List Char} (h : readFraction .keep s = .ok ([], rest)) :
    rest = s ∧ ∀ c ∈ s.head?, c ≠ '.' := by
  unfold readFraction at h
  split at h
  · split at h <;> cases h
  · next hpoint =>
    cases h
    refine ⟨rfl, fun c hc => ?_⟩
    rintro rfl
    cases s with
    | nil => cases hc
    | cons d tail =>
      cases hc
      exact hpoint tail rfl

theorem readExponent_eq_none {s rest : List Char} (h : readExponent .keep s = .ok (none, rest)) :
    rest = s ∧ ∀ c ∈ s.head?, c ≠ 'e' ∧ c ≠ 'E' := by
  cases s with
  | nil =>
    cases h
    exact ⟨rfl, fun c hc => (nomatch hc)⟩
  | cons c tail =>
    rw [readExponent] at h
    split at h
    · obtain ⟨_, -, he⟩ := Except.map_eq_ok_iff.1 h
      cases he
    · next hc =>
      cases h
      refine ⟨rfl, fun d hd => ?_⟩
      cases hd
      simpa [not_or] using hc

theorem readUnsigned_eq_plain {negative : Bool} {s rest : List Char} {m : Numeral}
    (h : readUnsigned .keep negative s = .ok (m, rest)) (hfraction : m.fraction = [])
    (hexponent : m.hasExponent = false) :
    s = m.whole ++ rest ∧ EndsNumber rest ∧
      Nat.toDigits 10 (Nat.ofDigitChars 10 m.whole 0) = m.whole := by
  unfold readUnsigned at h
  split at h
  · cases h
  next hw =>
  split at h
  · cases h
  next hf =>
  split at h
  · cases h
  · next he =>
    cases h
    obtain rfl : _ = [] := hfraction
    obtain ⟨rfl, hpoint⟩ := readFraction_eq_nil hf
    obtain ⟨rfl, hletter⟩ := readExponent_eq_none he
    obtain ⟨hs, hdigit, hdigits⟩ := readWhole_eq_ok hw
    exact ⟨hs, fun c hc => ⟨hdigit c hc, hpoint c hc, hletter c hc⟩, hdigits⟩
  · cases h
    cases hexponent

theorem negative_of_readUnsigned {negative : Bool} {s rest : List Char} {m : Numeral}
    (h : readUnsigned .keep negative s = .ok (m, rest)) : m.negative = negative := by
  unfold readUnsigned at h
  split at h
  · cases h
  split at h
  · cases h
  split at h
  · cases h
  · cases h
    rfl
  · cases h
    rfl

theorem Numeral.eq_of_value {m : Numeral} {n : Nat} (h : m.value = .ok (.integer n)) :
    m.negative = false ∧ m.fraction = [] ∧ m.hasExponent = false ∧
      appendDigits (UInt64.size - 1) 0 m.whole = (n, 0) := by
  obtain ⟨negative, whole, fraction, hasExponent, exponentNegative, exponent⟩ := m
  simp only [value] at h
  split at h
  · next hplain =>
    simp only [Bool.and_eq_true, decide_eq_true_eq, Bool.not_eq_true'] at hplain
    obtain ⟨⟨rfl, rfl⟩, hleft⟩ := hplain
    split at h
    · next hsign =>
      simp only [Except.ok.injEq, Number.integer.injEq, Int.natCast_inj] at h
      exact ⟨by simpa using hsign, rfl, rfl, Prod.ext h hleft⟩
    · split at h
      · next hnegative =>
        simp only [Bool.and_eq_true, decide_eq_true_eq] at hnegative
        simp only [Except.ok.injEq, Number.integer.injEq] at h
        omega
      · simp at h
  · split at h
    · split at h
      · cases h
      · simp at h
    · split at h
      · next x hx =>
        obtain ⟨y, -, rfl⟩ := Option.map_eq_some_iff.1 hx
        simp at h
      · cases h

/-! ## Numbers -/

theorem isWhole_natural {n : Nat} (h : n < 2 ^ 64) : (Number.integer n).IsWhole :=
  ⟨n, rfl, by omega, Int.ofNat_lt.2 h⟩

/-- The texts of a whole number that is not negative are its digits. -/
theorem readNumber_eq_natural_iff {s rest : List Char} {n : Nat} :
    readNumber .keep s = .ok (.integer n, rest) ↔
      n < 2 ^ 64 ∧ EndsNumber rest ∧ s = Nat.toDigits 10 n ++ rest := by
  constructor
  · intro h
    unfold readNumber at h
    split at h
    · cases h
    next m behind hm =>
    dsimp only at h
    split at h
    · next i hi =>
      cases h
      obtain ⟨hsign, hfraction, hexponent, hsum⟩ := Numeral.eq_of_value hi
      have hunsigned : readUnsigned .keep false s = .ok (m, rest) := by
        unfold readNumeral at hm
        split at hm
        · rw [negative_of_readUnsigned hm] at hsign
          cases hsign
        · exact hm
      obtain ⟨hs, hend, hdigits⟩ := readUnsigned_eq_plain hunsigned hfraction hexponent
      obtain ⟨hle, hn⟩ := appendDigits_le (Nat.zero_le _) hsum
      rw [hn] at hdigits
      exact ⟨Nat.lt_of_le_sub_one (by decide) hle, hend, by rw [hdigits, hs]⟩
    · cases h
  · rintro ⟨hn, hend, rfl⟩
    have hread := readNumber_printed (isWhole_natural hn) hend
    rwa [Number.print, Decimal.toList_toString_nonneg] at hread

/-- A value is a whole number that is not negative if and only if it is written as the digits of
that number, with no sign, fraction or exponent. -/
theorem readValue_eq_natural_iff {s rest : List Char} {n : Nat} :
    readValue .keep s = .ok (.number (.integer n), rest) ↔
      n < 2 ^ 64 ∧ EndsNumber rest ∧ skipBlank s = Nat.toDigits 10 n ++ rest := by
  constructor
  · intro h
    cases readAs_of_readValue h with
    | scalar hs _ _ hv =>
      rw [hs]
      cases isScalar_of_readScalar hv with
      | number _ hnumber => exact readNumber_eq_natural_iff.1 hnumber
  · rintro ⟨hn, hend, hs⟩
    have hnumber : Reads 0 (.number (.integer n)) _ := Reads.number (isWhole_natural hn)
    have hrun := hnumber.run_eq [] rest (Nat.zero_le _) hend
    rw [Number.print, Decimal.toList_toString_nonneg, ← hs, Machine.run_skipBlank] at hrun
    rw [readValue, hrun, Machine.run]
    rfl

end Json
end ReflectionError
