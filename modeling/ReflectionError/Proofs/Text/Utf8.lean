import ReflectionError.Except
import ReflectionError.Text.Utf8

/-!
# ReflectionError.Proofs.Text.Utf8

Text is read back from its bytes, and the bytes of a text that was read are those it was read from.

* `step_utf8EncodeChar`: the bytes of one character are recognised, whatever follows.
* `decode_encode`: the bytes of a text are well-formed and hold that text.
* `length_encode`: how many they are.
* `utf8EncodeChar_of_step`: a character that is recognised has the bytes it was recognised from.
* `encode_of_decode`: so has a whole text.
* `repair_of_decode`: what is well-formed is not changed by repairing it.
-/

namespace ReflectionError
namespace Utf8

theorem toNat_ofNat {n : Nat} (h : n < 256) : (UInt8.ofNat n).toNat = n := by
  rw [UInt8.toNat_ofNat', Nat.mod_eq_of_lt h]

theorem isTail_ofNat (n : Nat) : isTail (UInt8.ofNat (n % 64 + 128)) = true := by
  simp only [isTail, Bool.and_eq_true, decide_eq_true_eq, UInt8.le_iff_toNat_le,
    UInt8.reduceToNat]
  rw [toNat_ofNat (by omega)]
  omega

theorem isSecond_of_bounds {a b : UInt8} (hlo : 0x80 ≤ b.toNat) (hhi : b.toNat ≤ 0xBF)
    (hE0 : a.toNat = 0xE0 → 0xA0 ≤ b.toNat) (hED : a.toNat = 0xED → b.toNat ≤ 0x9F)
    (hF0 : a.toNat = 0xF0 → 0x90 ≤ b.toNat) (hF4 : a.toNat = 0xF4 → b.toNat ≤ 0x8F) :
    isSecond a b = true := by
  simp only [isSecond, secondBounds, Bool.and_eq_true, decide_eq_true_eq, UInt8.le_iff_toNat_le,
    ← UInt8.toNat_inj, UInt8.reduceToNat]
  split
  · next h => exact ⟨hE0 h, hhi⟩
  · split
    · next h => exact ⟨hlo, hED h⟩
    · split
      · next h => exact ⟨hF0 h, hhi⟩
      · split
        · next h => exact ⟨hlo, hF4 h⟩
        · exact ⟨hlo, hhi⟩

/-! ## One character -/

section Lengths

variable {c : Char} {n : Nat} (hn : c.toNat = n) (rest : List UInt8)

include hn

theorem step_one (h : n ≤ 0x7f) : step (UInt8.ofNat n) rest = .char c 0 := by
  have ha := toNat_ofNat (show n < 256 by omega)
  simp only [step, UInt8.lt_iff_toNat_lt, ha, UInt8.reduceToNat]
  rw [if_pos (by omega), ← hn, Char.ofNat_toNat]

theorem step_two (h : 0x7f < n) (h' : n ≤ 0x7ff) :
    step (UInt8.ofNat (n / 64 % 0x20 + 0xc0)) (UInt8.ofNat (n % 0x40 + 0x80) :: rest) =
      .char c 1 := by
  have ha := toNat_ofNat (show n / 64 % 0x20 + 0xc0 < 256 by omega)
  have hb := toNat_ofNat (show n % 0x40 + 0x80 < 256 by omega)
  simp only [step, UInt8.lt_iff_toNat_lt, ha, UInt8.reduceToNat]
  rw [if_neg (by omega), if_neg (by omega), if_pos (by omega), step2, if_pos (isTail_ofNat n), ha,
    hb, show (n / 64 % 0x20 + 0xc0) % 32 * 64 + (n % 0x40 + 0x80) % 64 = n by omega, ← hn,
    Char.ofNat_toNat]

theorem step_three (h : 0x7ff < n) (h' : n ≤ 0xffff) (hv : n < 0xd800 ∨ 0xdfff < n) :
    step (UInt8.ofNat (n / 4096 % 0x10 + 0xe0))
      (UInt8.ofNat (n / 64 % 0x40 + 0x80) :: UInt8.ofNat (n % 0x40 + 0x80) :: rest) =
      .char c 2 := by
  have ha := toNat_ofNat (show n / 4096 % 0x10 + 0xe0 < 256 by omega)
  have hb := toNat_ofNat (show n / 64 % 0x40 + 0x80 < 256 by omega)
  have hc := toNat_ofNat (show n % 0x40 + 0x80 < 256 by omega)
  have hs : isSecond (UInt8.ofNat (n / 4096 % 0x10 + 0xe0))
      (UInt8.ofNat (n / 64 % 0x40 + 0x80)) = true := by
    apply isSecond_of_bounds <;> rw [hb] <;> omega
  simp only [step, UInt8.lt_iff_toNat_lt, ha, UInt8.reduceToNat]
  rw [if_neg (by omega), if_neg (by omega), if_neg (by omega), if_pos (by omega), step3]
  simp only [hs, isTail_ofNat n, Bool.not_true, Bool.false_eq_true, if_false, ha, hb, hc]
  rw [show ((n / 4096 % 0x10 + 0xe0) % 16 * 64 + (n / 64 % 0x40 + 0x80) % 64) * 64 +
    (n % 0x40 + 0x80) % 64 = n by omega, ← hn, Char.ofNat_toNat]

theorem step_four (h : 0xffff < n) (h' : n < 0x110000) :
    step (UInt8.ofNat (n / 262144 % 0x08 + 0xf0))
      (UInt8.ofNat (n / 4096 % 0x40 + 0x80) :: UInt8.ofNat (n / 64 % 0x40 + 0x80) ::
        UInt8.ofNat (n % 0x40 + 0x80) :: rest) =
      .char c 3 := by
  have ha := toNat_ofNat (show n / 262144 % 0x08 + 0xf0 < 256 by omega)
  have hb := toNat_ofNat (show n / 4096 % 0x40 + 0x80 < 256 by omega)
  have hc := toNat_ofNat (show n / 64 % 0x40 + 0x80 < 256 by omega)
  have hd := toNat_ofNat (show n % 0x40 + 0x80 < 256 by omega)
  have hs : isSecond (UInt8.ofNat (n / 262144 % 0x08 + 0xf0))
      (UInt8.ofNat (n / 4096 % 0x40 + 0x80)) = true := by
    apply isSecond_of_bounds <;> rw [hb] <;> omega
  simp only [step, UInt8.lt_iff_toNat_lt, ha, UInt8.reduceToNat]
  rw [if_neg (by omega), if_neg (by omega), if_neg (by omega), if_neg (by omega),
    if_pos (by omega), step4]
  simp only [hs, isTail_ofNat n, isTail_ofNat (n / 64), Bool.not_true, Bool.false_eq_true,
    if_false, ha, hb, hc, hd]
  rw [show (((n / 262144 % 0x08 + 0xf0) % 8 * 64 + (n / 4096 % 0x40 + 0x80) % 64) * 64 +
    (n / 64 % 0x40 + 0x80) % 64) * 64 + (n % 0x40 + 0x80) % 64 = n by omega, ← hn,
    Char.ofNat_toNat]

end Lengths

theorem step_utf8EncodeChar (c : Char) (rest : List UInt8) :
    ∃ a more, String.utf8EncodeChar c = a :: more ∧
      step a (more ++ rest) = .char c more.length := by
  have hv : c.toNat < 0xd800 ∨ (0xdfff < c.toNat ∧ c.toNat < 0x110000) := c.valid
  have hn : c.val.toNat = c.toNat := rfl
  unfold String.utf8EncodeChar
  simp only [hn]
  split
  · next h1 => exact ⟨_, _, rfl, step_one rfl rest h1⟩
  · next h1 =>
    split
    · next h2 => exact ⟨_, _, rfl, step_two rfl rest (by omega) h2⟩
    · next h2 =>
      split
      · next h3 => exact ⟨_, _, rfl, step_three rfl rest (by omega) h3 (by omega)⟩
      · next h3 => exact ⟨_, _, rfl, step_four rfl rest (by omega) (by omega)⟩

/-! ## Whole texts -/

theorem decodeFrom_encode (index : Nat) (s : List Char) :
    decodeFrom index (s.flatMap String.utf8EncodeChar) = .ok s := by
  induction s generalizing index with
  | nil => rw [List.flatMap_nil, decodeFrom]
  | cons c s ih =>
    obtain ⟨a, more, he, hs⟩ := step_utf8EncodeChar c (s.flatMap String.utf8EncodeChar)
    rw [List.flatMap_cons, he, List.cons_append, decodeFrom, hs]
    simp only [List.drop_left, ih, Except.map]

theorem decode_encode (text : String) : decode (encode text) = .ok text := by
  rw [decode, encode, decodeFrom_encode, Except.map, String.ofList_toList]

theorem length_encode (text : String) : (encode text).length = text.utf8ByteSize := by
  rw [← String.size_toByteArray, ← String.utf8Encode_toList, List.utf8Encode,
    List.size_toByteArray, encode]

/-! ## Texts that were decoded -/

theorem toNat_charOfNat {n : Nat} (h : n.isValidChar) : (Char.ofNat n).val.toNat = n := by
  rw [Char.ofNat, dif_pos h]
  rfl

theorem ofNat_eq_of_eq_toNat {b : UInt8} {n : Nat} (h : n = b.toNat) : UInt8.ofNat n = b := by
  rw [h, UInt8.ofNat_toNat]

theorem bounds_of_isTail {b : UInt8} (h : isTail b = true) : 0x80 ≤ b.toNat ∧ b.toNat ≤ 0xBF := by
  simpa [isTail, UInt8.le_iff_toNat_le] using h

theorem bounds_of_isSecond {a b : UInt8} (h : isSecond a b = true) :
    (0x80 ≤ b.toNat ∧ b.toNat ≤ 0xBF) ∧ (a.toNat = 0xE0 → 0xA0 ≤ b.toNat) ∧
      (a.toNat = 0xED → b.toNat ≤ 0x9F) ∧ (a.toNat = 0xF0 → 0x90 ≤ b.toNat) ∧
      (a.toNat = 0xF4 → b.toNat ≤ 0x8F) := by
  simp only [isSecond, secondBounds, Bool.and_eq_true, decide_eq_true_eq, UInt8.le_iff_toNat_le,
    ← UInt8.toNat_inj, UInt8.reduceToNat] at h
  split at h
  · simp only [UInt8.reduceToNat] at h; omega
  · split at h
    · simp only [UInt8.reduceToNat] at h; omega
    · split at h
      · simp only [UInt8.reduceToNat] at h; omega
      · split at h <;> simp only [UInt8.reduceToNat] at h <;> omega

section Bytes

variable {a : UInt8} {rest : List UInt8} {c : Char} {more : Nat}

theorem utf8EncodeChar_of_step2 (h : step2 a rest = .char c more) (ha : 0xC2 ≤ a.toNat)
    (ha' : a.toNat < 0xE0) : String.utf8EncodeChar c = a :: rest.take more := by
  unfold step2 at h
  split at h
  · cases h
  · next b rest =>
    split at h
    · next hb =>
      cases h
      have hb := bounds_of_isTail hb
      have hn := toNat_charOfNat (n := a.toNat % 32 * 64 + b.toNat % 64) (by omega)
      unfold String.utf8EncodeChar
      simp only [hn]
      rw [if_neg (by omega), if_pos (by omega), ofNat_eq_of_eq_toNat (b := a) (by omega),
        ofNat_eq_of_eq_toNat (b := b) (by omega)]
      rfl
    · cases h

theorem utf8EncodeChar_of_step3 (h : step3 a rest = .char c more) (ha : 0xE0 ≤ a.toNat)
    (ha' : a.toNat < 0xF0) : String.utf8EncodeChar c = a :: rest.take more := by
  unfold step3 at h
  split at h
  · cases h
  · next b rest =>
    split at h
    · cases h
    · next hb =>
      split at h
      · cases h
      · next d rest =>
        split at h
        · cases h
        · next hd =>
          cases h
          have hb := bounds_of_isSecond (by simpa using hb)
          have hd := bounds_of_isTail (by simpa using hd)
          have hn := toNat_charOfNat
            (n := (a.toNat % 16 * 64 + b.toNat % 64) * 64 + d.toNat % 64) (by omega)
          unfold String.utf8EncodeChar
          simp only [hn]
          rw [if_neg (by omega), if_neg (by omega), if_pos (by omega),
            ofNat_eq_of_eq_toNat (b := a) (by omega), ofNat_eq_of_eq_toNat (b := b) (by omega),
            ofNat_eq_of_eq_toNat (b := d) (by omega)]
          rfl

theorem utf8EncodeChar_of_step4 (h : step4 a rest = .char c more) (ha : 0xF0 ≤ a.toNat)
    (ha' : a.toNat < 0xF5) : String.utf8EncodeChar c = a :: rest.take more := by
  unfold step4 at h
  split at h
  · cases h
  · next b rest =>
    split at h
    · cases h
    · next hb =>
      split at h
      · cases h
      · next d rest =>
        split at h
        · cases h
        · next hd =>
          split at h
          · cases h
          · next e rest =>
            split at h
            · cases h
            · next he =>
              cases h
              have hb := bounds_of_isSecond (by simpa using hb)
              have hd := bounds_of_isTail (by simpa using hd)
              have he := bounds_of_isTail (by simpa using he)
              have hn := toNat_charOfNat (n := ((a.toNat % 8 * 64 + b.toNat % 64) * 64 +
                d.toNat % 64) * 64 + e.toNat % 64) (by omega)
              unfold String.utf8EncodeChar
              simp only [hn]
              rw [if_neg (by omega), if_neg (by omega), if_neg (by omega),
                ofNat_eq_of_eq_toNat (b := a) (by omega),
                ofNat_eq_of_eq_toNat (b := b) (by omega),
                ofNat_eq_of_eq_toNat (b := d) (by omega),
                ofNat_eq_of_eq_toNat (b := e) (by omega)]
              rfl

/-- A character that is recognised has the bytes that it was recognised from. -/
theorem utf8EncodeChar_of_step (h : step a rest = .char c more) :
    String.utf8EncodeChar c = a :: rest.take more := by
  simp only [step, UInt8.lt_iff_toNat_lt, UInt8.reduceToNat] at h
  split at h
  · next ha =>
    cases h
    have hn := toNat_charOfNat (n := a.toNat) (by omega)
    unfold String.utf8EncodeChar
    simp only [hn]
    rw [if_pos (by omega), UInt8.ofNat_toNat]
    rfl
  · split at h
    · cases h
    · split at h
      · exact utf8EncodeChar_of_step2 h (by omega) (by omega)
      · split at h
        · exact utf8EncodeChar_of_step3 h (by omega) (by omega)
        · split at h
          · exact utf8EncodeChar_of_step4 h (by omega) (by omega)
          · cases h

end Bytes

theorem flatMap_of_decodeFrom {index : Nat} {bytes : List UInt8} {s : List Char}
    (h : decodeFrom index bytes = .ok s) : s.flatMap String.utf8EncodeChar = bytes := by
  fun_induction decodeFrom index bytes generalizing s with
  | case1 => cases h; rfl
  | case2 index a rest c more hs ih =>
    obtain ⟨t, ht, rfl⟩ := Except.map_eq_ok_iff.1 h
    rw [List.flatMap_cons, utf8EncodeChar_of_step hs, ih ht, List.cons_append,
      List.take_append_drop]
  | case3 => cases h
  | case4 => cases h

theorem encode_of_decode {bytes : List UInt8} {text : String} (h : decode bytes = .ok text) :
    encode text = bytes := by
  obtain ⟨s, hs, rfl⟩ := Except.map_eq_ok_iff.1 h
  rw [encode, String.toList_ofList, flatMap_of_decodeFrom hs]

/-- What cannot be read is not the bytes of any text. -/
theorem decode_eq_error_iff {bytes : List UInt8} :
    (∃ fault, decode bytes = .error fault) ↔ ∀ text, bytes ≠ encode text := by
  constructor
  · rintro ⟨fault, hfault⟩ text rfl
    rw [decode_encode] at hfault
    cases hfault
  · intro h
    cases htext : decode bytes with
    | error fault => exact ⟨fault, rfl⟩
    | ok text => exact absurd (encode_of_decode htext).symm (h text)

/-! ## Repairing -/

theorem repairChars_of_decodeFrom {index : Nat} {bytes : List UInt8} {s : List Char}
    (h : decodeFrom index bytes = .ok s) : repairChars bytes = s := by
  fun_induction decodeFrom index bytes generalizing s with
  | case1 =>
    cases h
    rw [repairChars]
  | case2 index a rest c more hs ih =>
    obtain ⟨tail, ht, rfl⟩ := Except.map_eq_ok_iff.1 h
    rw [repairChars, hs]
    simp only [ih ht]
  | case3 => cases h
  | case4 => cases h

theorem repair_of_decode {bytes : List UInt8} {text : String} (h : decode bytes = .ok text) :
    repair bytes = text := by
  obtain ⟨s, hs, rfl⟩ := Except.map_eq_ok_iff.1 h
  rw [repair, repairChars_of_decodeFrom hs]

theorem repair_encode (text : String) : repair (encode text) = text :=
  repair_of_decode (decode_encode text)

end Utf8
end ReflectionError
