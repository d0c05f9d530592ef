import ReflectionError.Except
import ReflectionError.Proofs.Text.Utf8
import ReflectionError.Text.Hex

/-!
# ReflectionError.Proofs.Text.Hex

Which texts are hexadecimal, and the bytes they spell.

* `Spells`: two digits, of either case, for each byte.
* `decodePairs_eq_ok_iff`: pairs of digits are read as the bytes they spell, and nothing else is.
* `Unmarked`: a text and what is left of it without the marker in front.
* `decode_eq_ok_iff`: the texts that are read, and as which bytes.
* `spells_iff`: the digits of some bytes, in lower case, are those that are written for them.
* `decode_of_filter`: any text whose characters other than blanks are the digits of some bytes is
  read as these.
* `decode_spelled`: all of it about any text, with blanks and a marker in it.
-/

namespace ReflectionError
namespace Hex

/-! ## Digits -/

/-- The digits that are written. -/
def digits : List Char := "0123456789abcdef".toList

/-- The digits that are read. -/
def digitsOfEitherCase : List Char := "0123456789abcdefABCDEF".toList

/-- The value of a digit of either case. -/
def value? (c : Char) : Option Nat := digits.idxOf? c.toLower

theorem digit_mem_digits : ∀ n : Fin 16, digit n ∈ digits := by
  decide

theorem any_isBlank_digits : digits.any Text.isBlank = false := by
  decide

theorem marks_notMem_digits : 'x' ∉ digits ∧ 'X' ∉ digits ∧ '-' ∉ digits := by
  decide

theorem all_toLower_digits : digits.all (fun c => c.toLower = c) = true := by
  decide

theorem all_lt_digitsOfEitherCase : digitsOfEitherCase.all (fun c => c.toNat < 128) = true := by
  decide

theorem digits_subset : digits ⊆ digitsOfEitherCase := by
  decide

theorem toNat_lt_of_mem {c : Char} (h : c ∈ digitsOfEitherCase) : c.toNat < 128 :=
  of_decide_eq_true (List.all_eq_true.1 all_lt_digitsOfEitherCase c h)

theorem value?_digit : ∀ n : Fin 16,
    value? (digit n) = some n.val ∧ (digit n).toLower = digit n := by
  decide

theorem toLower_of_value? {c : Char} {n : Nat} (h : value? c = some n) :
    n < 16 ∧ c.toLower = digit n := by
  obtain ⟨hn, hdigit, -⟩ := List.idxOf?_eq_some_iff.1 h
  have hsame : ∀ k : Fin 16, digits.get ⟨k.val, k.isLt⟩ = digit k := by decide
  exact ⟨hn, hdigit.symm.trans (hsame ⟨n, hn⟩)⟩

theorem value?_congr {c d : Char} (h : c.toLower = d.toLower) : value? c = value? d := by
  rw [value?, h, value?]

theorem toNat_lt_of_value? {c : Char} {n : Nat} (h : value? c = some n) : c.toNat < 128 := by
  have hmem : c.toLower ∈ digits := List.isSome_idxOf?.1 (Option.isSome_of_mem h)
  unfold Char.toLower at hmem
  split at hmem
  · next hupper =>
    have hle : c.toNat ≤ 'Z'.toNat := UInt32.le_iff_toNat_le.1 hupper.2
    have hz : 'Z'.toNat = 90 := rfl
    omega
  · exact toNat_lt_of_mem (digits_subset hmem)

theorem digitValue?_ofNat : ∀ n : Fin 128, digitValue? (UInt8.ofNat n) = value? (Char.ofNat n) := by
  decide +kernel

theorem value?_isSome_ofNat : ∀ n : Fin 128,
    (value? (Char.ofNat n)).isSome = true ↔ Char.ofNat n ∈ digitsOfEitherCase := by
  decide +kernel

theorem isSome_value?_iff {c : Char} : (value? c).isSome = true ↔ c ∈ digitsOfEitherCase := by
  by_cases hc : c.toNat < 128
  · rw [← Char.ofNat_toNat c]
    exact value?_isSome_ofNat ⟨c.toNat, hc⟩
  · constructor
    · intro h
      obtain ⟨n, hn⟩ := Option.isSome_iff_exists.1 h
      exact absurd (toNat_lt_of_value? hn) hc
    · intro h
      exact absurd (toNat_lt_of_mem h) hc

/-- The first byte of a character is a digit if and only if the character is one, and it has no
other bytes then. -/
theorem utf8EncodeChar_eq_cons (c : Char) :
    ∃ a more, String.utf8EncodeChar c = a :: more ∧ digitValue? a = value? c ∧
      ∀ n, value? c = some n → more = [] := by
  by_cases hc : c.toNat < 128
  · refine ⟨UInt8.ofNat c.toNat, [], ?_, ?_, fun _ _ => rfl⟩
    · exact if_pos (Nat.le_of_lt_succ hc)
    · rw [digitValue?_ofNat ⟨c.toNat, hc⟩, Char.ofNat_toNat]
  · have hnone : value? c = none := by
      cases h : value? c with
      | none => rfl
      | some n => exact absurd (toNat_lt_of_value? h) hc
    have hlead {n : Nat} (hlow : 192 ≤ n) (hhigh : n < 256) :
        digitValue? (UInt8.ofNat n) = none := by
      have hb : (UInt8.ofNat n).toNat = n := Utf8.toNat_ofNat hhigh
      simp only [digitValue?, Bool.and_eq_true, decide_eq_true_eq, UInt8.le_iff_toNat_le, hb,
        UInt8.reduceToNat]
      rw [if_neg (by omega), if_neg (by omega), if_neg (by omega)]
    rw [hnone]
    unfold String.utf8EncodeChar
    have hv : c.val.toNat = c.toNat := rfl
    simp only [hv]
    rw [if_neg (by omega)]
    split
    · exact ⟨_, _, rfl, hlead (by omega) (by omega), nofun⟩
    · split
      · exact ⟨_, _, rfl, hlead (by omega) (by omega), nofun⟩
      · exact ⟨_, _, rfl, hlead (by omega) (by omega), nofun⟩

theorem utf8EncodeChar_of_value? {c : Char} {n : Nat} (h : value? c = some n) :
    ∃ a, String.utf8EncodeChar c = [a] ∧ digitValue? a = some n := by
  obtain ⟨a, more, hc, hvalue, hmore⟩ := utf8EncodeChar_eq_cons c
  obtain rfl := hmore n h
  exact ⟨a, hc, hvalue.trans h⟩

/-! ## Pairs of digits -/

/-- Two digits for each byte, the higher one first. -/
inductive Spells : List Char → List UInt8 → Prop where
  | nil : Spells [] []
  | cons {a b : Char} {high low : Nat} {byte : UInt8} {s : List Char} {bytes : List UInt8}
      (first : value? a = some high) (second : value? b = some low)
      (value : byte.toNat = 16 * high + low) (rest : Spells s bytes) :
      Spells (a :: b :: s) (byte :: bytes)

theorem readDigit_eq_ok_iff {position : Nat} {b : UInt8} {n : Nat} :
    readDigit position b = .ok n ↔ digitValue? b = some n := by
  unfold readDigit
  cases digitValue? b with
  | none => simp
  | some m => simp

theorem decodePairs_cons_eq_ok_iff {position : Nat} {a b : UInt8} {rest bytes : List UInt8} :
    decodePairs position (a :: b :: rest) = .ok bytes ↔
      ∃ high low more, digitValue? a = some high ∧ digitValue? b = some low ∧
        decodePairs (position + 2) rest = .ok more ∧
        UInt8.ofNat (high * 16 + low) :: more = bytes := by
  rw [decodePairs, Except.bind_eq_ok_iff]
  constructor
  · rintro ⟨high, hhigh, h⟩
    obtain ⟨low, hlow, h⟩ := Except.bind_eq_ok_iff.1 h
    obtain ⟨more, hmore, h⟩ := Except.bind_eq_ok_iff.1 h
    cases h
    exact ⟨high, low, more, readDigit_eq_ok_iff.1 hhigh, readDigit_eq_ok_iff.1 hlow, hmore, rfl⟩
  · rintro ⟨high, low, more, hhigh, hlow, hmore, rfl⟩
    exact ⟨high, readDigit_eq_ok_iff.2 hhigh, Except.bind_eq_ok_iff.2
      ⟨low, readDigit_eq_ok_iff.2 hlow, Except.bind_eq_ok_iff.2 ⟨more, hmore, rfl⟩⟩⟩

theorem decodePairs_of_spells {s : List Char} {bytes : List UInt8} (h : Spells s bytes)
    (position : Nat) : decodePairs position (s.flatMap String.utf8EncodeChar) = .ok bytes := by
  induction h generalizing position with
  | nil => rfl
  | @cons a b high low byte s bytes first second value _ ih =>
    obtain ⟨x, hx, hhigh⟩ := utf8EncodeChar_of_value? first
    obtain ⟨y, hy, hlow⟩ := utf8EncodeChar_of_value? second
    have hbyte : UInt8.ofNat (high * 16 + low) = byte := by
      rw [show high * 16 + low = byte.toNat by omega, UInt8.ofNat_toNat]
    rw [List.flatMap_cons, List.flatMap_cons, hx, hy]
    exact decodePairs_cons_eq_ok_iff.2 ⟨high, low, bytes, hhigh, hlow, ih _, by rw [hbyte]⟩

/-- By recursion on the text, two characters at a time. A character of several bytes is no digit, so
the bytes of two digits are never torn apart. -/
theorem spells_of_decodePairs : ∀ {s : List Char} {bytes : List UInt8} {position : Nat},
    decodePairs position (s.flatMap String.utf8EncodeChar) = .ok bytes → Spells s bytes
  | [], _, _, h => by
    cases h
    exact .nil
  | [c], _, _, h => by
    obtain ⟨x, more, hx, hvalue, hmore⟩ := utf8EncodeChar_eq_cons c
    rw [List.flatMap_cons, hx, List.flatMap_nil, List.append_nil] at h
    cases more with
    | nil => cases h
    | cons y more =>
      obtain ⟨high, _, _, hhigh, -⟩ := decodePairs_cons_eq_ok_iff.1 h
      cases hmore high (hvalue.symm.trans hhigh)
  | a :: b :: s, bytes, position, h => by
    obtain ⟨x, more, hx, hvalue, hmore⟩ := utf8EncodeChar_eq_cons a
    obtain ⟨y, more', hy, hvalue', hmore'⟩ := utf8EncodeChar_eq_cons b
    rw [List.flatMap_cons, List.flatMap_cons, hx, hy] at h
    have hnil : more = [] := by
      cases more with
      | nil => rfl
      | cons z more =>
        obtain ⟨high, _, _, hhigh, -⟩ := decodePairs_cons_eq_ok_iff.1 h
        exact hmore high (hvalue.symm.trans hhigh)
    subst hnil
    obtain ⟨high, low, bytes', hhigh, hlow, hrest, rfl⟩ := decodePairs_cons_eq_ok_iff.1 h
    have first := hvalue.symm.trans hhigh
    have second := hvalue'.symm.trans hlow
    obtain rfl := hmore' low second
    have hhigh16 := (toLower_of_value? first).1
    have hlow16 := (toLower_of_value? second).1
    refine .cons first second ?_ (spells_of_decodePairs hrest)
    rw [Utf8.toNat_ofNat (by omega)]
    omega

theorem decodePairs_eq_ok_iff {position : Nat} {s : List Char} {bytes : List UInt8} :
    decodePairs position (s.flatMap String.utf8EncodeChar) = .ok bytes ↔ Spells s bytes :=
  ⟨spells_of_decodePairs, fun h => decodePairs_of_spells h position⟩

/-- The digits of some bytes are those that are written for them, up to their case. -/
theorem spells_iff {s : List Char} {bytes : List UInt8} :
    Spells s bytes ↔ s.map Char.toLower = (encode bytes).toList := by
  rw [encode, String.toList_ofList]
  constructor
  · intro h
    induction h with
    | nil => rfl
    | @cons a b high low byte s bytes first second value _ ih =>
      obtain ⟨hhigh, ha⟩ := toLower_of_value? first
      obtain ⟨hlow, hb⟩ := toLower_of_value? second
      have hdiv : byte.toNat / 16 = high := by omega
      have hmod : byte.toNat % 16 = low := by omega
      rw [List.map_cons, List.map_cons, ha, hb, ih, List.flatMap_cons, encodeByte, hdiv, hmod]
      rfl
  · intro h
    induction bytes generalizing s with
    | nil =>
      rw [List.map_eq_nil_iff.1 h]
      exact .nil
    | cons byte bytes ih =>
      have hbyte := byte.toNat_lt
      rw [List.flatMap_cons, encodeByte] at h
      obtain ⟨a, s, rfl, ha, h⟩ := List.map_eq_cons_iff.1 h
      obtain ⟨b, s, rfl, hb, h⟩ := List.map_eq_cons_iff.1 h
      obtain ⟨hhigh, hhigh'⟩ := value?_digit ⟨byte.toNat / 16, by omega⟩
      obtain ⟨hlow, hlow'⟩ := value?_digit ⟨byte.toNat % 16, by omega⟩
      have first : value? a = some (byte.toNat / 16) :=
        (value?_congr (ha.trans hhigh'.symm)).trans hhigh
      have second : value? b = some (byte.toNat % 16) :=
        (value?_congr (hb.trans hlow'.symm)).trans hlow
      exact .cons first second (by omega) (ih h)

theorem Spells.length_eq {s : List Char} {bytes : List UInt8} (h : Spells s bytes) :
    s.length = 2 * bytes.length := by
  induction h with
  | nil => rfl
  | cons _ _ _ _ ih =>
    simp only [List.length_cons, ih]
    omega

theorem Spells.mem_digits {s : List Char} {bytes : List UInt8} (h : Spells s bytes) :
    ∀ c ∈ s, c ∈ digitsOfEitherCase := by
  induction h with
  | nil => nofun
  | cons first second _ _ ih =>
    have ha := isSome_value?_iff.1 (Option.isSome_of_mem first)
    have hb := isSome_value?_iff.1 (Option.isSome_of_mem second)
    exact List.forall_mem_cons.2 ⟨ha, List.forall_mem_cons.2 ⟨hb, ih⟩⟩

/-- An even number of digits spell some bytes. -/
theorem exists_spells : ∀ {s : List Char}, s.length % 2 = 0 → (∀ c ∈ s, c ∈ digitsOfEitherCase) →
    ∃ bytes, Spells s bytes
  | [], _, _ => ⟨[], .nil⟩
  | [_], h, _ => nomatch h
  | a :: b :: s, heven, h => by
    obtain ⟨ha, h⟩ := List.forall_mem_cons.1 h
    obtain ⟨hb, h⟩ := List.forall_mem_cons.1 h
    obtain ⟨high, first⟩ := Option.isSome_iff_exists.1 (isSome_value?_iff.2 ha)
    obtain ⟨low, second⟩ := Option.isSome_iff_exists.1 (isSome_value?_iff.2 hb)
    have hhigh := (toLower_of_value? first).1
    have hlow := (toLower_of_value? second).1
    have heven' : s.length % 2 = 0 := by
      simp only [List.length_cons] at heven
      omega
    obtain ⟨bytes, rest⟩ := exists_spells heven' h
    exact ⟨UInt8.ofNat (16 * high + low) :: bytes,
      .cons first second (Utf8.toNat_ofNat (by omega)) rest⟩

theorem Spells.length_flatMap {s : List Char} {bytes : List UInt8} (h : Spells s bytes) :
    (s.flatMap String.utf8EncodeChar).length = 2 * bytes.length := by
  induction h with
  | nil => rfl
  | cons first second _ _ ih =>
    obtain ⟨x, hx, -⟩ := utf8EncodeChar_of_value? first
    obtain ⟨y, hy, -⟩ := utf8EncodeChar_of_value? second
    rw [List.flatMap_cons, List.flatMap_cons, hx, hy]
    simp only [List.length_append, List.length_cons, List.length_nil, ih]
    omega

/-! ## The marker -/

/-- A text and what it is without one `0x` or `0X` in front, if it has one. -/
inductive Unmarked : List Char → List Char → Prop where
  | marked {mark : Char} (h : mark = 'x' ∨ mark = 'X') (s : List Char) :
      Unmarked ('0' :: mark :: s) s
  | bare {s : List Char} (h : ∀ mark rest, s = '0' :: mark :: rest → mark ≠ 'x' ∧ mark ≠ 'X') :
      Unmarked s s

theorem unmarked_iff {s d : List Char} : Unmarked s d ↔ dropMarker s = d := by
  constructor
  · intro h
    cases h with
    | marked h =>
      rcases h with rfl | rfl
      · rfl
      · rfl
    | bare h =>
      rw [dropMarker]
      · rintro rest rfl
        exact (h _ _ rfl).1 rfl
      · rintro rest rfl
        exact (h _ _ rfl).2 rfl
  · rintro rfl
    unfold dropMarker
    split
    · exact .marked (.inl rfl) _
    · exact .marked (.inr rfl) _
    · next hx hX =>
      refine .bare fun mark rest hs => ⟨?_, ?_⟩
      · rintro rfl
        exact hx rest hs
      · rintro rfl
        exact hX rest hs

theorem unmarked_of_spells {s : List Char} {bytes : List UInt8} (h : Spells s bytes) :
    Unmarked s s := by
  refine .bare fun mark rest hs => ?_
  have hmem : mark ∈ digitsOfEitherCase := h.mem_digits mark (by rw [hs]; simp)
  constructor
  · rintro rfl
    revert hmem
    decide
  · rintro rfl
    revert hmem
    decide

/-! ## Texts -/

/-- The characters of a text that are no blanks. -/
def withoutBlanks (s : String) : List Char := s.toList.filter fun c => !Text.isBlank c

/-- A text is read as some bytes if and only if it spells them, blanks and the marker left out. -/
theorem decode_eq_ok_iff {s : String} {d : List Char} {bytes : List UInt8}
    (hd : Unmarked (withoutBlanks s) d) : decode s = .ok bytes ↔ Spells d bytes := by
  have hcompact : compact s = d := unmarked_iff.1 hd
  rw [decode, hcompact]
  split
  · exact decodePairs_eq_ok_iff
  · next hodd =>
    refine ⟨nofun, fun h => absurd ?_ hodd⟩
    rw [h.length_flatMap]
    omega

theorem mem_digits_of_mem_encode {bytes : List UInt8} {c : Char} (h : c ∈ (encode bytes).toList) :
    c ∈ digits := by
  rw [encode, String.toList_ofList, List.mem_flatMap] at h
  obtain ⟨b, -, hc⟩ := h
  have hb := b.toNat_lt
  simp only [encodeByte, List.mem_cons, List.not_mem_nil, or_false] at hc
  rcases hc with rfl | rfl
  · exact digit_mem_digits ⟨b.toNat / 16, by omega⟩
  · exact digit_mem_digits ⟨b.toNat % 16, by omega⟩

theorem spells_encode (bytes : List UInt8) : Spells (encode bytes).toList bytes := by
  have hlower : ∀ c ∈ (encode bytes).toList, c.toLower = c := by
    intro c hc
    exact of_decide_eq_true (List.all_eq_true.1 all_toLower_digits c (mem_digits_of_mem_encode hc))
  rw [spells_iff, List.map_congr_left hlower]
  exact List.map_id' _

theorem decode_of_filter {s : String} {bytes : List UInt8}
    (h : s.toList.filter (fun c => !Text.isBlank c) = (encode bytes).toList) :
    decode s = .ok bytes := by
  have hspells := spells_encode bytes
  have hunmarked : Unmarked (withoutBlanks s) (encode bytes).toList := by
    rw [withoutBlanks, h]
    exact unmarked_of_spells hspells
  exact (decode_eq_ok_iff hunmarked).2 hspells

theorem filter_encode (bytes : List UInt8) :
    (encode bytes).toList.filter (fun c => !Text.isBlank c) = (encode bytes).toList := by
  rw [List.filter_eq_self]
  intro c hc
  have hblank := List.any_eq_false.1 any_isBlank_digits c (mem_digits_of_mem_encode hc)
  rw [Bool.not_eq_true] at hblank
  rw [hblank]
  rfl

theorem decode_encode (bytes : List UInt8) : decode (encode bytes) = .ok bytes :=
  decode_of_filter (filter_encode bytes)

theorem decode_encode_newline (bytes : List UInt8) : decode (encode bytes ++ "\n") = .ok bytes := by
  apply decode_of_filter
  rw [String.toList_append, List.filter_append, filter_encode]
  exact List.append_nil _

theorem encode_inj {bytes bytes' : List UInt8}
    (h : (encode bytes).toList = (encode bytes').toList) : bytes = bytes' := by
  have hread := decode_encode bytes
  rw [String.toList_inj.1 h, decode_encode bytes'] at hread
  exact (Except.ok.inj hread).symm

/-- What is left of a text without its blanks and the marker is read if it is an even number of
digits, and only then, and as the bytes these spell. So any text is read as some bytes that is made
of their digits, in any case, with a marker in front or not and with blanks anywhere, and two texts
are read as the same bytes if and only if the digits are the same up to their case. -/
theorem decode_spelled (s : String) :
    (∀ bytes, decode s = .ok bytes ↔ ∃ d, Unmarked (withoutBlanks s) d ∧ d.length % 2 = 0 ∧
      (∀ c ∈ d, c ∈ digitsOfEitherCase) ∧ Spells d bytes) ∧
    (∀ d, Unmarked (withoutBlanks s) d → d.length % 2 = 0 → (∀ c ∈ d, c ∈ digitsOfEitherCase) →
      ∃ bytes, decode s = .ok bytes) ∧
    (∀ bytes mark d, mark ∈ ["", "0x", "0X"] → d.map Char.toLower = (encode bytes).toList →
      withoutBlanks s = mark.toList ++ d → decode s = .ok bytes) ∧
    (∀ bytes, decode (encode bytes) = .ok bytes) ∧
    ∀ s' d d' bytes bytes', Unmarked (withoutBlanks s) d → Unmarked (withoutBlanks s') d' →
      decode s = .ok bytes → decode s' = .ok bytes' →
      (bytes = bytes' ↔ d.map Char.toLower = d'.map Char.toLower) := by
  refine ⟨fun bytes => ⟨fun h => ?_, ?_⟩, ?_, ?_, decode_encode, ?_⟩
  · have hunmarked := unmarked_iff.2 (rfl : dropMarker (withoutBlanks s) = _)
    have hspells := (decode_eq_ok_iff hunmarked).1 h
    have heven := hspells.length_eq
    exact ⟨_, hunmarked, by omega, hspells.mem_digits, hspells⟩
  · rintro ⟨d, hunmarked, -, -, hspells⟩
    exact (decode_eq_ok_iff hunmarked).2 hspells
  · intro d hunmarked heven hdigits
    obtain ⟨bytes, hspells⟩ := exists_spells heven hdigits
    exact ⟨bytes, (decode_eq_ok_iff hunmarked).2 hspells⟩
  · intro bytes mark d hmark hd hs
    have hspells := spells_iff.2 hd
    have hunmarked : Unmarked (withoutBlanks s) d := by
      rw [hs]
      simp only [List.mem_cons, List.not_mem_nil, or_false] at hmark
      rcases hmark with rfl | rfl | rfl
      · exact unmarked_of_spells hspells
      · exact .marked (.inl rfl) d
      · exact .marked (.inr rfl) d
    exact (decode_eq_ok_iff hunmarked).2 hspells
  · intro s' d d' bytes bytes' hd hd' h h'
    rw [spells_iff.1 ((decode_eq_ok_iff hd).1 h), spells_iff.1 ((decode_eq_ok_iff hd').1 h')]
    exact ⟨fun hbytes => by rw [hbytes], encode_inj⟩

/-- A blank stands inside of the marker and another between the digits of a byte, and only the
second of the two texts has a digit in upper case. -/
theorem decode_spelled_torn_marker :
    let s := "0\u00a0x 0\n8af"
    let s' := "08aF"
    withoutBlanks s = "0x".toList ++ "08af".toList ∧
      "08af".toList.map Char.toLower = (encode [0x08, 0xaf]).toList ∧
      decode s = .ok [0x08, 0xaf] ∧
      Unmarked (withoutBlanks s) "08af".toList ∧ Unmarked (withoutBlanks s') "08aF".toList ∧
      ∀ bytes', decode s' = .ok bytes' → [0x08, 0xaf] = bytes' := by
  intro s s'
  have hs : withoutBlanks s = "0x".toList ++ "08af".toList := by decide
  have hlower : "08af".toList.map Char.toLower = (encode [0x08, 0xaf]).toList := by decide
  have hu : Unmarked (withoutBlanks s) "08af".toList := unmarked_iff.2 (by decide)
  have hu' : Unmarked (withoutBlanks s') "08aF".toList := unmarked_iff.2 (by decide)
  obtain ⟨-, -, hread, -, hsame⟩ := decode_spelled s
  have h := hread [0x08, 0xaf] "0x" _ (by decide) hlower hs
  exact ⟨hs, hlower, h, hu, hu', fun bytes' h' =>
    (hsame s' _ _ _ bytes' hu hu' h h').2 (by decide)⟩

end Hex
end ReflectionError
