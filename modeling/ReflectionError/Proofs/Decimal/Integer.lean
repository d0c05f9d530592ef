import Mathlib.Algebra.Group.Nat.Defs
import ReflectionError.Decimal.Integer
import ReflectionError.Except

/-!
# ReflectionError.Proofs.Decimal.Integer

Whole numbers are read back from their decimal text.

* `toList_toString_nonneg`, `toList_toString_neg`: the characters of a number.
* `toDigits_cases`: no zero stands in front of other digits.
* `readDigits_toDigits`, `readInt_toString`: reading digits, and a number within its bounds.
* `readInt_of_no_digit`, `readNat_of_no_digit`: a text without digits is no number.
* `readDigits_eq_ok_iff`, `readInt_eq_ok_iff`, `readNat_eq_ok_iff`: the texts that are numbers,
  `Numeral`, and their values.
* `Numeral.unique`: a text stands for one number at most.
-/

namespace ReflectionError
namespace Decimal

/-! ## The text of a number -/

theorem toList_toString_nonneg (n : Nat) : (toString (n : Int)).toList = Nat.toDigits 10 n := by
  rw [Int.toString_eq_repr, Int.repr_eq_if, if_pos (Int.natCast_nonneg n), Int.toNat_natCast,
    Nat.toList_repr]

theorem toList_toString_neg {n : Nat} (h : 0 < n) :
    (toString (-(n : Int))).toList = '-' :: Nat.toDigits 10 n := by
  have hn : ¬ 0 ≤ -(n : Int) := by omega
  rw [Int.toString_eq_repr, Int.repr_eq_if, if_neg hn, Int.neg_neg, Int.toNat_natCast,
    String.toList_append, Nat.toList_repr]
  rfl

theorem int_cases (n : Int) : ∃ m : Nat, n = m ∨ (0 < m ∧ n = -(m : Int)) := by
  refine ⟨n.natAbs, ?_⟩
  omega

theorem isDigit_of_mem_toDigits {n : Nat} {c : Char} (h : c ∈ Nat.toDigits 10 n) :
    c.isDigit = true :=
  Nat.isDigit_of_mem_toDigits (by decide) (by decide) h

theorem toDigits_cases (n : Nat) :
    Nat.toDigits 10 n = ['0'] ∨ ∃ d ds, Nat.toDigits 10 n = d :: ds ∧ d ≠ '0' := by
  induction n using Nat.strongRecOn with
  | ind n ih =>
    rw [Nat.toDigits_eq_if (by decide)]
    split
    · by_cases h0 : n = 0
      · subst h0
        exact .inl rfl
      · exact .inr ⟨_, [], rfl, by rwa [ne_eq, Nat.digitChar_eq_zero]⟩
    · next hn =>
      right
      rcases ih (n / 10) (by omega) with h | ⟨d, ds, h, hd⟩
      · have hz := Nat.ofDigitChars_ten_toDigits (n := n / 10)
        rw [h] at hz
        have : n / 10 = 0 := hz.symm
        omega
      · exact ⟨d, ds ++ [(n % 10).digitChar], by rw [h]; rfl, hd⟩

theorem toDigits_eq_cons (n : Nat) :
    ∃ d ds, Nat.toDigits 10 n = d :: ds ∧ d.isDigit = true := by
  cases h : Nat.toDigits 10 n with
  | nil => exact absurd h Nat.toDigits_ne_nil
  | cons d ds => exact ⟨d, ds, rfl, isDigit_of_mem_toDigits (h ▸ List.mem_cons_self ..)⟩

theorem le_ofDigitChars (ds : List Char) (value : Nat) : value ≤ Nat.ofDigitChars 10 ds value := by
  rw [Nat.ofDigitChars_eq_ofDigitChars_zero]
  have := Nat.mul_le_mul_right value (Nat.pow_pos (n := ds.length) (show 0 < 10 by decide))
  omega

/-! ## Reading -/

theorem digitValue?_of_isDigit {c : Char} (h : c.isDigit = true) :
    digitValue? c = some (c.toNat - '0'.toNat) :=
  if_pos h

/-- Reading digits is summing them up, as long as the sum stays within the limit. -/
theorem readDigits_eq_ok {limit value : Nat} (overflow : Fault) {ds : List Char}
    (hd : ∀ c ∈ ds, c.isDigit = true) (hl : Nat.ofDigitChars 10 ds value ≤ limit) :
    readDigits limit overflow value ds = .ok (Nat.ofDigitChars 10 ds value) := by
  induction ds generalizing value with
  | nil => rfl
  | cons c ds ih =>
    rw [Nat.ofDigitChars_cons, Nat.mul_comm] at hl ⊢
    have hle := le_ofDigitChars ds (value * 10 + (c.toNat - '0'.toNat))
    simp only [readDigits, digitValue?_of_isDigit (hd c (List.mem_cons_self ..))]
    rw [if_neg (by omega)]
    exact ih (fun d hm => hd d (List.mem_cons_of_mem _ hm)) hl

theorem readDigits_toDigits {limit n : Nat} (overflow : Fault) (h : n ≤ limit) :
    readDigits limit overflow 0 (Nat.toDigits 10 n) = .ok n := by
  have hsum : Nat.ofDigitChars 10 (Nat.toDigits 10 n) 0 = n := Nat.ofDigitChars_ten_toDigits
  have hr := readDigits_eq_ok overflow (fun _ => isDigit_of_mem_toDigits) (hsum.symm ▸ h)
  rwa [hsum] at hr

theorem isLoneSign_of_isDigit {d : Char} (h : d.isDigit = true) (ds : List Char) :
    isLoneSign (d :: ds) = false := by
  rw [isLoneSign]
  · rintro hd
    cases hd
    cases h
  · rintro hd
    cases hd
    cases h

theorem isLoneSign_of_ne_nil (sign : Char) {ds : List Char} (h : ds ≠ []) :
    isLoneSign (sign :: ds) = false := by
  cases ds with
  | nil => exact absurd rfl h
  | cons d ds =>
    rw [isLoneSign]
    · rintro ⟨⟩
    · rintro ⟨⟩

theorem readInt_of_isDigit (bits : Nat) {d : Char} (h : d.isDigit = true) (ds : List Char) :
    readInt bits (d :: ds) =
      (readDigits (Nat.pow 2 (bits - 1) - 1) .tooLarge 0 (d :: ds)).map Int.ofNat := by
  rw [readInt, if_neg (List.cons_ne_nil d ds), isLoneSign_of_isDigit h, if_neg Bool.false_ne_true]
  · rintro digits hd
    cases hd
    cases h
  · rintro digits hd
    cases hd
    cases h

theorem readInt_minus (bits : Nat) {ds : List Char} (h : ds ≠ []) :
    readInt bits ('-' :: ds) =
      (readDigits (Nat.pow 2 (bits - 1)) .tooSmall 0 ds).map fun n => -(n : Int) := by
  rw [readInt, if_neg (List.cons_ne_nil _ _), isLoneSign_of_ne_nil _ h, if_neg Bool.false_ne_true]

/-- A number of so many bits is read back from its text. -/
theorem readInt_toString {bits : Nat} {n : Int} (hl : -(2 ^ (bits - 1) : Nat) ≤ n)
    (hu : n < (2 ^ (bits - 1) : Nat)) : readInt bits (toString n).toList = .ok n := by
  obtain ⟨m, rfl | ⟨hm, rfl⟩⟩ := int_cases n
  · have hle : m ≤ Nat.pow 2 (bits - 1) - 1 := Nat.le_sub_one_of_lt (Int.ofNat_lt.1 hu)
    have hread := readDigits_toDigits .tooLarge hle
    obtain ⟨d, ds, hd, hdigit⟩ := toDigits_eq_cons m
    rw [hd] at hread
    rw [toList_toString_nonneg, hd, readInt_of_isDigit bits hdigit, hread]
    rfl
  · have hle : m ≤ Nat.pow 2 (bits - 1) := Int.ofNat_le.1 (by simpa using hl)
    rw [toList_toString_neg hm, readInt_minus bits Nat.toDigits_ne_nil,
      readDigits_toDigits .tooSmall hle]
    rfl

/-! ## Texts that are no numbers -/

theorem readDigits_of_not_isDigit {limit value : Nat} {overflow : Fault} {d : Char}
    (h : d.isDigit = false) (ds : List Char) :
    readDigits limit overflow value (d :: ds) = .error .invalidDigit := by
  have hd : digitValue? d = none := if_neg fun hd => Bool.false_ne_true (h.symm.trans hd)
  rw [readDigits, hd]

/-- Reading fails at the first character that is not there or is no digit. -/
theorem readDigits_of_no_digit {limit value : Nat} {overflow : Fault} {ds : List Char}
    (hne : ds ≠ []) (h : ∀ c ∈ ds, c.isDigit = false) :
    readDigits limit overflow value ds = .error .invalidDigit := by
  cases ds with
  | nil => exact absurd rfl hne
  | cons d ds => exact readDigits_of_not_isDigit (h d (List.mem_cons_self ..)) ds

theorem ne_nil_of_not_isLoneSign {sign : Char} {ds : List Char} (hs : sign = '+' ∨ sign = '-')
    (h : ¬ isLoneSign (sign :: ds) = true) : ds ≠ [] := by
  rintro rfl
  rcases hs with rfl | rfl
  · exact h rfl
  · exact h rfl

theorem readInt_of_no_digit (bits : Nat) {s : List Char} (h : ∀ c ∈ s, c.isDigit = false) :
    ∃ fault, readInt bits s = .error fault := by
  unfold readInt
  split
  · exact ⟨_, rfl⟩
  · next hne =>
    split
    · exact ⟨_, rfl⟩
    · next hsign =>
      split
      · next ds =>
        rw [readDigits_of_no_digit (ne_nil_of_not_isLoneSign (.inr rfl) hsign)
          fun c hc => h c (List.mem_cons_of_mem _ hc)]
        exact ⟨_, rfl⟩
      · next ds =>
        rw [readDigits_of_no_digit (ne_nil_of_not_isLoneSign (.inl rfl) hsign)
          fun c hc => h c (List.mem_cons_of_mem _ hc)]
        exact ⟨_, rfl⟩
      · rw [readDigits_of_no_digit hne h]
        exact ⟨_, rfl⟩

theorem readNat_of_no_digit (limit : Nat) {s : List Char} (h : ∀ c ∈ s, c.isDigit = false) :
    ∃ fault, readNat limit s = .error fault := by
  unfold readNat
  split
  · exact ⟨_, rfl⟩
  · next hne =>
    split
    · exact ⟨_, rfl⟩
    · next hsign =>
      split
      · next ds =>
        exact ⟨_, readDigits_of_no_digit (ne_nil_of_not_isLoneSign (.inl rfl) hsign)
          fun c hc => h c (List.mem_cons_of_mem _ hc)⟩
      · exact ⟨_, readDigits_of_no_digit hne h⟩

/-! ## Texts that are numbers -/

/-- Digits, at least one, behind a sign or none, and the number that they stand for. -/
inductive Numeral : List Char → Int → Prop where
  | bare {ds : List Char} :
      ds ≠ [] → (∀ c ∈ ds, c.isDigit = true) → Numeral ds (Nat.ofDigitChars 10 ds 0)
  | plus {ds : List Char} :
      ds ≠ [] → (∀ c ∈ ds, c.isDigit = true) → Numeral ('+' :: ds) (Nat.ofDigitChars 10 ds 0)
  | minus {ds : List Char} :
      ds ≠ [] → (∀ c ∈ ds, c.isDigit = true) → Numeral ('-' :: ds) (-Nat.ofDigitChars 10 ds 0)

/-- A sign is no digit, so a text is a numeral in one way at most. -/
theorem Numeral.unique {s : List Char} {n m : Int} (hn : Numeral s n) (hm : Numeral s m) :
    n = m := by
  have hsign {sign : Char} {ds : List Char} (hd : ∀ c ∈ sign :: ds, c.isDigit = true) :
      sign.isDigit = true := hd sign (List.mem_cons_self ..)
  cases hn with
  | bare hne hd =>
    cases hm with
    | bare => rfl
    | plus => cases hsign hd
    | minus => cases hsign hd
  | plus hne hd =>
    cases hm with
    | bare _ hd => cases hsign hd
    | plus => rfl
  | minus hne hd =>
    cases hm with
    | bare _ hd => cases hsign hd
    | minus => rfl

/-- By induction on the digits: the number only grows, so it is within the limit in the end if and
only if it is so behind each of them. -/
theorem readDigits_eq_ok_iff {limit value n : Nat} {overflow : Fault} {ds : List Char}
    (hv : value ≤ limit) :
    readDigits limit overflow value ds = .ok n ↔
      (∀ c ∈ ds, c.isDigit = true) ∧ n = Nat.ofDigitChars 10 ds value ∧ n ≤ limit := by
  constructor
  · intro h
    induction ds generalizing value with
    | nil =>
      cases h
      exact ⟨by simp, rfl, hv⟩
    | cons c ds ih =>
      cases hc : c.isDigit with
      | false =>
        rw [readDigits_of_not_isDigit hc] at h
        cases h
      | true =>
        simp only [readDigits, digitValue?_of_isDigit hc] at h
        split at h
        · cases h
        · next hl =>
          obtain ⟨hd, hn, hle⟩ := ih (Nat.not_lt.1 hl) h
          refine ⟨List.forall_mem_cons.2 ⟨hc, hd⟩, ?_, hle⟩
          rw [hn, Nat.ofDigitChars_cons, Nat.mul_comm]
  · rintro ⟨hd, rfl, hle⟩
    exact readDigits_eq_ok overflow hd hle

theorem readInt_plus (bits : Nat) {ds : List Char} (h : ds ≠ []) :
    readInt bits ('+' :: ds) =
      (readDigits (Nat.pow 2 (bits - 1) - 1) .tooLarge 0 ds).map Int.ofNat := by
  rw [readInt, if_neg (List.cons_ne_nil _ _), isLoneSign_of_ne_nil _ h, if_neg Bool.false_ne_true]

theorem readInt_of_isDigits (bits : Nat) {ds : List Char} (h : ds ≠ [])
    (hd : ∀ c ∈ ds, c.isDigit = true) :
    readInt bits ds = (readDigits (Nat.pow 2 (bits - 1) - 1) .tooLarge 0 ds).map Int.ofNat := by
  cases ds with
  | nil => exact absurd rfl h
  | cons d ds => exact readInt_of_isDigit bits (hd d (List.mem_cons_self ..)) ds

theorem bounds_of_le_sub_one {m limit : Nat} (hpos : 0 < limit) (h : m ≤ limit - 1) :
    -(limit : Int) ≤ m ∧ (m : Int) < limit := by
  omega

theorem neg_bounds_of_le {m limit : Nat} (hpos : 0 < limit) (h : m ≤ limit) :
    -(limit : Int) ≤ -m ∧ -(m : Int) < limit := by
  omega

/-- A text is read as a number of so many bits if and only if it is a numeral and the number that it
stands for has so many bits. -/
theorem readInt_eq_ok_iff {bits : Nat} {s : List Char} {n : Int} :
    readInt bits s = .ok n ↔
      Numeral s n ∧ -(2 ^ (bits - 1) : Nat) ≤ n ∧ n < (2 ^ (bits - 1) : Nat) := by
  have hpos : 0 < 2 ^ (bits - 1) := Nat.two_pow_pos _
  constructor
  · intro h
    unfold readInt at h
    split at h
    · cases h
    · next hne =>
      split at h
      · cases h
      · next hsign =>
        split at h
        · next ds =>
          obtain ⟨i, hi, rfl⟩ := Except.map_eq_ok_iff.1 h
          obtain ⟨m, hm, hpure⟩ := Except.bind_eq_ok_iff.1 hi
          cases hpure
          obtain ⟨hd, rfl, hle⟩ := (readDigits_eq_ok_iff (Nat.zero_le _)).1 hm
          exact ⟨.minus (ne_nil_of_not_isLoneSign (.inr rfl) hsign) hd, neg_bounds_of_le hpos hle⟩
        · next ds =>
          obtain ⟨m, hm, rfl⟩ := Except.map_eq_ok_iff.1 h
          obtain ⟨hd, rfl, hle⟩ := (readDigits_eq_ok_iff (Nat.zero_le _)).1 hm
          exact ⟨.plus (ne_nil_of_not_isLoneSign (.inl rfl) hsign) hd,
            bounds_of_le_sub_one hpos hle⟩
        · obtain ⟨m, hm, rfl⟩ := Except.map_eq_ok_iff.1 h
          obtain ⟨hd, rfl, hle⟩ := (readDigits_eq_ok_iff (Nat.zero_le _)).1 hm
          exact ⟨.bare hne hd, bounds_of_le_sub_one hpos hle⟩
  · rintro ⟨hs, hlow, hhigh⟩
    cases hs with
    | @bare ds hne hd =>
      have hle : Nat.ofDigitChars 10 s 0 ≤ Nat.pow 2 (bits - 1) - 1 :=
        Nat.le_sub_one_of_lt (Int.ofNat_lt.1 hhigh)
      rw [readInt_of_isDigits bits hne hd, readDigits_eq_ok _ hd hle]
      rfl
    | @plus ds hne hd =>
      have hle : Nat.ofDigitChars 10 ds 0 ≤ Nat.pow 2 (bits - 1) - 1 :=
        Nat.le_sub_one_of_lt (Int.ofNat_lt.1 hhigh)
      rw [readInt_plus bits hne, readDigits_eq_ok _ hd hle]
      rfl
    | @minus ds hne hd =>
      have hle : Nat.ofDigitChars 10 ds 0 ≤ Nat.pow 2 (bits - 1) :=
        Int.ofNat_le.1 (Int.neg_le_neg_iff.1 hlow)
      rw [readInt_minus bits hne, readDigits_eq_ok _ hd hle]
      rfl

theorem readNat_plus (limit : Nat) {ds : List Char} (h : ds ≠ []) :
    readNat limit ('+' :: ds) = readDigits limit .tooLarge 0 ds := by
  rw [readNat, if_neg (List.cons_ne_nil _ _), isLoneSign_of_ne_nil _ h, if_neg Bool.false_ne_true]

theorem readNat_of_isDigits (limit : Nat) {ds : List Char} (h : ds ≠ [])
    (hd : ∀ c ∈ ds, c.isDigit = true) : readNat limit ds = readDigits limit .tooLarge 0 ds := by
  cases ds with
  | nil => exact absurd rfl h
  | cons d ds =>
    have hdigit := hd d (List.mem_cons_self ..)
    rw [readNat, if_neg h, isLoneSign_of_isDigit hdigit, if_neg Bool.false_ne_true]
    rintro digits hplus
    cases hplus
    cases hdigit

/-- A text is read as a number up to the limit if and only if it is a numeral without a minus and
the number that it stands for is within the limit. -/
theorem readNat_eq_ok_iff {limit : Nat} {s : List Char} {n : Nat} :
    readNat limit s = .ok n ↔ Numeral s n ∧ s.head? ≠ some '-' ∧ n ≤ limit := by
  have hhead {ds : List Char} (hd : ∀ c ∈ ds, c.isDigit = true) : ds.head? ≠ some '-' := by
    intro h
    cases hd '-' (List.mem_of_mem_head? h)
  constructor
  · intro h
    unfold readNat at h
    split at h
    · cases h
    · next hne =>
      split at h
      · cases h
      · next hsign =>
        split at h
        · next ds =>
          obtain ⟨hd, rfl, hle⟩ := (readDigits_eq_ok_iff (Nat.zero_le _)).1 h
          exact ⟨.plus (ne_nil_of_not_isLoneSign (.inl rfl) hsign) hd, nofun, hle⟩
        · obtain ⟨hd, rfl, hle⟩ := (readDigits_eq_ok_iff (Nat.zero_le _)).1 h
          exact ⟨.bare hne hd, hhead hd, hle⟩
  · rintro ⟨hs, hminus, hle⟩
    generalize hm : (n : Int) = m at hs
    cases hs with
    | @bare ds hne hd =>
      rw [Int.natCast_inj.1 hm] at hle ⊢
      rw [readNat_of_isDigits limit hne hd, readDigits_eq_ok _ hd hle]
    | @plus ds hne hd =>
      rw [Int.natCast_inj.1 hm] at hle ⊢
      rw [readNat_plus limit hne, readDigits_eq_ok _ hd hle]
    | minus => exact absurd rfl hminus

end Decimal
end ReflectionError
