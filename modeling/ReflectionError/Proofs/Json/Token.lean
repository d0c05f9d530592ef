import ReflectionError.Json.Token
import ReflectionError.Proofs.Decimal.Integer

/-!
# ReflectionError.Proofs.Json.Token

What the printer writes for strings and whole numbers is what the readers take, whatever follows.

* `skipBlank_append`, `skipBlank_of_not_isBlank`: blanks in front of a text.
* `readString_escapeChar`: one character, escaped or as it is.
* `readString_printed`: a string up to its closing quotation mark.
* `readNumber_printed`: a whole number, when the text behind it does not go on with the number.
-/

namespace ReflectionError
namespace Json

/-! ## Blanks -/

/-- A text of blanks only. -/
def IsPadding (s : List Char) : Prop := ∀ c ∈ s, isBlank c = true

theorem isPadding_nil : IsPadding [] := fun _ h => nomatch h

theorem isBlank_cases {c : Char} (h : isBlank c = true) :
    c = ' ' ∨ c = '\t' ∨ c = '\n' ∨ c = '\r' := by
  simpa [isBlank, or_assoc] using h

theorem skipBlank_append {pad : List Char} (h : IsPadding pad) (s : List Char) :
    skipBlank (pad ++ s) = skipBlank s :=
  List.dropWhile_append_of_pos h

theorem skipBlank_of_not_isBlank {c : Char} (h : isBlank c = false) (s : List Char) :
    skipBlank (c :: s) = c :: s :=
  List.dropWhile_cons_of_neg (by simp [h])

theorem skipBlank_skipBlank (s : List Char) : skipBlank (skipBlank s) = skipBlank s := by
  cases h : skipBlank s with
  | nil => rfl
  | cons c rest =>
    have hc := List.head?_dropWhile_not isBlank s
    have hd : s.dropWhile isBlank = c :: rest := h
    rw [hd] at hc
    exact skipBlank_of_not_isBlank hc rest

/-! ## Strings -/

theorem readString_of_readEscape {mode : Mode} {s behind : List Char} {c : Char}
    (h : readEscape mode s = .ok (c, behind)) :
    readString mode ('\\' :: s) =
      (readString mode behind).map fun (cs, next) => (c :: cs, next) := by
  rw [readString]
  split
  · next hc => cases hc
  · split
    · split
      · next hf => rw [h] at hf; cases hf
      · next hok => rw [h] at hok; cases hok; rfl
    · next hc => exact absurd rfl hc

theorem readString_of_letter {letter c : Char} (hu : letter ≠ 'u')
    (h : escapedChar? letter = some c) (s : List Char) :
    readString .keep ('\\' :: letter :: s) =
      (readString .keep s).map fun (cs, next) => (c :: cs, next) := by
  apply readString_of_readEscape
  rw [readEscape, if_neg hu, h]

theorem hexValue?_hexDigit (n : Fin 16) : hexValue? (hexDigit n) = some n.val := by
  revert n
  decide

theorem readHex4_hexDigit (a b : Fin 16) (s : List Char) :
    readHex4 ('0' :: '0' :: hexDigit a :: hexDigit b :: s) = .ok (a * 16 + b, s) := by
  have hlength : ¬ byteLength ('0' :: '0' :: hexDigit a :: hexDigit b :: s) < 4 := by
    have ha := (hexDigit a).utf8Size_pos
    have hb := (hexDigit b).utf8Size_pos
    have h0 : '0'.utf8Size = 1 := by decide
    simp only [byteLength, h0]
    omega
  have hzero : hexValue? '0' = some 0 := by decide
  simp [readHex4, hlength, hzero, hexValue?_hexDigit]

theorem readEscape_control {c : Char} (h : c.toNat < 0x20) (s : List Char) :
    readEscape .keep ('u' :: '0' :: '0' :: hexDigit (c.toNat / 16) :: hexDigit (c.toNat % 16) :: s)
      = .ok (c, s) := by
  have hread := readHex4_hexDigit ⟨c.toNat / 16, by omega⟩ ⟨c.toNat % 16, by omega⟩ s
  have hsum : c.toNat / 16 * 16 + c.toNat % 16 = c.toNat := by omega
  have htrailing : isTrailing c.toNat = false := by simp [isTrailing]; omega
  have hleading : isLeading c.toNat = false := by simp [isLeading]; omega
  rw [readEscape, if_pos rfl, readCodePoint, hread]
  simp [hsum, htrailing, hleading]

theorem readString_plain {mode : Mode} {c : Char} (hq : c ≠ '"') (hb : c ≠ '\\')
    (hc : ¬ c.toNat < 0x20) (s : List Char) :
    readString mode (c :: s) = (readString mode s).map fun (cs, next) => (c :: cs, next) := by
  rw [readString, if_neg hq, if_neg hb, if_neg hc]

def lettered : List Char := ['"', '\\', '\x08', '\x0c', '\n', '\r', '\t']

theorem escapeChar_of_lettered {c : Char} (h : c ∈ lettered) :
    ∃ letter, letter ≠ 'u' ∧ escapedChar? letter = some c ∧ escapeChar c = ['\\', letter] := by
  simp only [lettered, List.mem_cons, List.not_mem_nil, or_false] at h
  rcases h with rfl | rfl | rfl | rfl | rfl | rfl | rfl
  · exact ⟨'"', by decide, rfl, rfl⟩
  · exact ⟨'\\', by decide, rfl, rfl⟩
  · exact ⟨'b', by decide, rfl, rfl⟩
  · exact ⟨'f', by decide, rfl, rfl⟩
  · exact ⟨'n', by decide, rfl, rfl⟩
  · exact ⟨'r', by decide, rfl, rfl⟩
  · exact ⟨'t', by decide, rfl, rfl⟩

/-- A character is printed with a letter of its own, by its code point, or as it is. -/
theorem escapeChar_cases (c : Char) :
    (∃ letter, letter ≠ 'u' ∧ escapedChar? letter = some c ∧ escapeChar c = ['\\', letter]) ∨
    (c.toNat < 0x20 ∧ escapeChar c =
      ['\\', 'u', '0', '0', hexDigit (c.toNat / 16), hexDigit (c.toNat % 16)]) ∨
    (c ≠ '"' ∧ c ≠ '\\' ∧ ¬ c.toNat < 0x20 ∧ escapeChar c = [c]) := by
  by_cases h : c ∈ lettered
  · exact .inl (escapeChar_of_lettered h)
  · simp only [lettered, List.mem_cons, List.not_mem_nil, or_false, not_or] at h
    obtain ⟨hq, hb, h8, hf, hn, hr, ht⟩ := h
    have hprint : escapeChar c = if c.toNat < 0x20 then
        ['\\', 'u', '0', '0', hexDigit (c.toNat / 16), hexDigit (c.toNat % 16)] else [c] := by
      rw [escapeChar, if_neg hq, if_neg hb, if_neg h8, if_neg hf, if_neg hn, if_neg hr, if_neg ht]
    by_cases hlow : c.toNat < 0x20
    · exact .inr (.inl ⟨hlow, hprint.trans (if_pos hlow)⟩)
    · exact .inr (.inr ⟨hq, hb, hlow, hprint.trans (if_neg hlow)⟩)

theorem readString_escapeChar (c : Char) (s : List Char) :
    readString .keep (escapeChar c ++ s) =
      (readString .keep s).map fun (cs, next) => (c :: cs, next) := by
  rcases escapeChar_cases c with ⟨letter, hu, hread, hp⟩ | ⟨hlow, hp⟩ | ⟨hq, hb, hlow, hp⟩
  · rw [hp]
    exact readString_of_letter hu hread s
  · rw [hp]
    exact readString_of_readEscape (readEscape_control hlow s)
  · rw [hp]
    exact readString_plain hq hb hlow s

/-- A string is read back from its printed form, and the text behind it is left. -/
theorem readString_printed (cs s : List Char) :
    readString .keep (cs.flatMap escapeChar ++ '"' :: s) = .ok (cs, s) := by
  induction cs with
  | nil =>
    rw [List.flatMap_nil, List.nil_append, readString, if_pos rfl]
  | cons c cs ih =>
    rw [List.flatMap_cons, List.append_assoc, readString_escapeChar, ih]
    rfl

/-! ## Numbers -/

/-- The text does not go on with a number: no digit, point or exponent is next. -/
def EndsNumber (s : List Char) : Prop :=
  ∀ c ∈ s.head?, isDigit c = false ∧ c ≠ '.' ∧ c ≠ 'e' ∧ c ≠ 'E'

theorem endsNumber_cons {c : Char} (h : isDigit c = false) (hp : c ≠ '.') (he : c ≠ 'e')
    (hE : c ≠ 'E') (s : List Char) : EndsNumber (c :: s) := by
  intro d hd
  cases hd
  exact ⟨h, hp, he, hE⟩

theorem endsNumber_padding {pad s : List Char} (hp : IsPadding pad) (hs : EndsNumber s) :
    EndsNumber (pad ++ s) := by
  cases pad with
  | nil => exact hs
  | cons c pad =>
    rcases isBlank_cases (hp c (List.mem_cons_self ..)) with rfl | rfl | rfl | rfl
    all_goals exact endsNumber_cons (by decide) (by decide) (by decide) (by decide) _

def Number.IsWhole (n : Number) : Prop :=
  ∃ i : Int, n = .integer i ∧ -(2 ^ 63 : Nat) ≤ i ∧ i < (2 ^ 64 : Nat)

theorem takeWhile_isDigit_append {ds s : List Char} (hd : ∀ c ∈ ds, isDigit c = true)
    (hs : EndsNumber s) : (ds ++ s).takeWhile isDigit = ds := by
  rw [List.takeWhile_append_of_pos hd]
  cases s with
  | nil => simp
  | cons c s =>
    rw [List.takeWhile_cons_of_neg (by simp [(hs c rfl).1]), List.append_nil]

theorem dropWhile_isDigit_append {ds s : List Char} (hd : ∀ c ∈ ds, isDigit c = true)
    (hs : EndsNumber s) : (ds ++ s).dropWhile isDigit = s := by
  rw [List.dropWhile_append_of_pos hd]
  cases s with
  | nil => rfl
  | cons c s => rw [List.dropWhile_cons_of_neg (by simp [(hs c rfl).1])]

theorem readWhole_toDigits (n : Nat) {s : List Char} (hs : EndsNumber s) :
    readWhole .keep (Nat.toDigits 10 n ++ s) = .ok (Nat.toDigits 10 n, s) := by
  rcases Decimal.toDigits_cases n with h | ⟨d, ds, h, hd⟩
  · rw [h]
    cases s with
    | nil => rfl
    | cons c s => simp [readWhole, (hs c rfl).1]
  · have hdigits : ∀ c ∈ d :: ds, isDigit c = true := by
      intro c hc
      exact Decimal.isDigit_of_mem_toDigits (h ▸ hc)
    have htail : ∀ c ∈ ds, isDigit c = true := fun c hc => hdigits c (List.mem_cons_of_mem _ hc)
    simp only [h, List.cons_append, readWhole, if_neg hd, hdigits d (List.mem_cons_self ..),
      if_true, takeWhile_isDigit_append htail hs, dropWhile_isDigit_append htail hs]

theorem readFraction_of_endsNumber {s : List Char} (hs : EndsNumber s) :
    readFraction .keep s = .ok ([], s) := by
  rw [readFraction]
  rintro rest rfl
  exact absurd rfl (hs '.' rfl).2.1

theorem readExponent_of_endsNumber {s : List Char} (hs : EndsNumber s) :
    readExponent .keep s = .ok (none, s) := by
  cases s with
  | nil => rfl
  | cons c s =>
    obtain ⟨-, -, he, hE⟩ := hs c rfl
    simp [readExponent, he, hE]

theorem readUnsigned_toDigits (negative : Bool) (n : Nat) {s : List Char} (hs : EndsNumber s) :
    readUnsigned .keep negative (Nat.toDigits 10 n ++ s) =
      .ok (⟨negative, Nat.toDigits 10 n, [], false, false, []⟩, s) := by
  simp only [readUnsigned, readWhole_toDigits n hs, readFraction_of_endsNumber hs,
    readExponent_of_endsNumber hs]

theorem appendDigits_eq {limit value : Nat} {ds : List Char}
    (hl : Nat.ofDigitChars 10 ds value ≤ limit) :
    appendDigits limit value ds = (Nat.ofDigitChars 10 ds value, 0) := by
  induction ds generalizing value with
  | nil => rfl
  | cons c ds ih =>
    rw [Nat.ofDigitChars_cons, Nat.mul_comm] at hl ⊢
    have hle := Decimal.le_ofDigitChars ds (value * 10 + (c.toNat - '0'.toNat))
    exact (if_neg (Nat.not_lt.2 (Nat.le_trans hle hl))).trans (ih hl)

theorem appendDigits_toDigits {limit n : Nat} (h : n ≤ limit) :
    appendDigits limit 0 (Nat.toDigits 10 n) = (n, 0) := by
  have hsum : Nat.ofDigitChars 10 (Nat.toDigits 10 n) 0 = n := Nat.ofDigitChars_ten_toDigits
  have ha := appendDigits_eq (hsum.symm ▸ h)
  rwa [hsum] at ha

theorem value_of_toDigits {n : Nat} (h : n < 2 ^ 64) :
    (Numeral.mk false (Nat.toDigits 10 n) [] false false []).value = .ok (.integer n) := by
  have hsum : appendDigits (UInt64.size - 1) 0 (Nat.toDigits 10 n) = (n, 0) :=
    appendDigits_toDigits (Nat.le_sub_one_of_lt h)
  simp only [Numeral.value, hsum]
  rfl

theorem value_of_minus_toDigits {n : Nat} (h0 : 0 < n) (h : n ≤ 2 ^ 63) :
    (Numeral.mk true (Nat.toDigits 10 n) [] false false []).value = .ok (.integer (-n)) := by
  have hlt : n < 2 ^ 64 := by omega
  have hhalf : n ≤ UInt64.size / 2 := h
  have hsum : appendDigits (UInt64.size - 1) 0 (Nat.toDigits 10 n) = (n, 0) :=
    appendDigits_toDigits (Nat.le_sub_one_of_lt hlt)
  simp only [Numeral.value, hsum]
  simp [h0, hhalf]

/-- A whole number is read back from its printed form, and the text behind it is left. -/
theorem readNumber_printed {n : Number} (hn : n.IsWhole) {s : List Char} (hs : EndsNumber s) :
    readNumber .keep (n.print ++ s) = .ok (n, s) := by
  obtain ⟨i, rfl, hl, hu⟩ := hn
  obtain ⟨m, rfl | ⟨hm, rfl⟩⟩ := Decimal.int_cases i
  · have hunsigned : readNumeral .keep (Nat.toDigits 10 m ++ s) =
        readUnsigned .keep false (Nat.toDigits 10 m ++ s) := by
      obtain ⟨d, ds, hd, hdigit⟩ := Decimal.toDigits_eq_cons m
      rw [hd, List.cons_append, readNumeral]
      rintro rest hrest
      cases hrest
      cases hdigit
    simp only [Number.print, Decimal.toList_toString_nonneg, readNumber, hunsigned,
      readUnsigned_toDigits false m hs, value_of_toDigits (Int.ofNat_lt.1 hu)]
  · simp only [Number.print, Decimal.toList_toString_neg hm, List.cons_append, readNumber,
      readNumeral, readUnsigned_toDigits true m hs, value_of_minus_toDigits hm (by omega)]

end Json
end ReflectionError
