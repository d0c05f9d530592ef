import ReflectionError.Proofs.Decimal.Integer
import ReflectionError.Proofs.Text.Hex
import ReflectionError.Proofs.Text.Lines

/-!
# ReflectionError.Proofs.Text.Printed

Text without control characters: numbers, hexadecimal digits, and quoted text, whatever it quotes.

* `Printed.oneLine`: such text is on one line.
* `printed_toString`, `printed_hex`, `printed_string`: what is written so.
-/

namespace ReflectionError
namespace Text

/-- The characters U+0000 to U+001F and U+007F to U+009F. -/
def isControl (c : Char) : Bool := c.toNat < 0x20 || (0x7F ≤ c.toNat && c.toNat < 0xA0)

/-- There is no control character in the text. -/
def Printed (s : String) : Prop := ∀ c ∈ s.toList, isControl c = false

-- Character by character: `Char` is a finite type, and all of it must not be gone through.
instance (s : String) : Decidable (Printed s) :=
  decidable_of_iff (s.toList.any isControl = false) (by simp [Printed])

theorem Printed.append {s t : String} (hs : Printed s) (ht : Printed t) : Printed (s ++ t) := by
  intro c hc
  rw [String.toList_append, List.mem_append] at hc
  rcases hc with hc | hc
  · exact hs c hc
  · exact ht c hc

theorem Printed.oneLine {s : String} (h : Printed s) : OneLine s := by
  intro hc
  cases h '\n' hc

/-! ## Numbers -/

theorem isControl_of_isDigit {c : Char} (h : c.isDigit = true) : isControl c = false := by
  simp only [Char.isDigit, Bool.and_eq_true, decide_eq_true_eq, ge_iff_le, UInt32.le_iff_toNat_le]
    at h
  have hlow : 48 ≤ c.toNat := h.1
  have hhigh : c.toNat ≤ 57 := h.2
  simp [isControl]
  omega

theorem isBlank_of_isDigit {c : Char} (h : c.isDigit = true) : isBlank c = false := by
  simp only [Char.isDigit, Bool.and_eq_true, decide_eq_true_eq, ge_iff_le, UInt32.le_iff_toNat_le]
    at h
  have hlow : 48 ≤ c.toNat := h.1
  have hhigh : c.toNat ≤ 57 := h.2
  simp [isBlank]
  omega

theorem isDigit_of_mem_toString {n : Nat} {c : Char} (h : c ∈ (toString n).toList) :
    c.isDigit = true := by
  rw [Nat.toString_eq_repr, Nat.toList_repr] at h
  exact Decimal.isDigit_of_mem_toDigits h

theorem printed_toString (n : Nat) : Printed (toString n) :=
  fun _ hc => isControl_of_isDigit (isDigit_of_mem_toString hc)

theorem printed_toString_int (n : Int) : Printed (toString n) := by
  intro c hc
  obtain ⟨m, rfl | ⟨hm, rfl⟩⟩ := Decimal.int_cases n
  · rw [Decimal.toList_toString_nonneg] at hc
    exact isControl_of_isDigit (Decimal.isDigit_of_mem_toDigits hc)
  · rw [Decimal.toList_toString_neg hm] at hc
    rcases List.mem_cons.1 hc with rfl | hc
    · rfl
    · exact isControl_of_isDigit (Decimal.isDigit_of_mem_toDigits hc)

theorem isBlank_of_mem_toString_int {n : Int} {c : Char} (h : c ∈ (toString n).toList) :
    isBlank c = false := by
  obtain ⟨m, rfl | ⟨hm, rfl⟩⟩ := Decimal.int_cases n
  · rw [Decimal.toList_toString_nonneg] at h
    exact isBlank_of_isDigit (Decimal.isDigit_of_mem_toDigits h)
  · rw [Decimal.toList_toString_neg hm] at h
    rcases List.mem_cons.1 h with rfl | h
    · rfl
    · exact isBlank_of_isDigit (Decimal.isDigit_of_mem_toDigits h)

theorem hasShown_toString (n : Nat) : HasShown (toString n) := by
  obtain ⟨d, ds, hcons, hd⟩ := Decimal.toDigits_eq_cons n
  have hmem : d ∈ (toString n).toList := by
    rw [Nat.toString_eq_repr, Nat.toList_repr, hcons]
    exact List.mem_cons_self
  exact ⟨d, hmem, isBlank_of_isDigit hd⟩

/-! ## Hexadecimal digits -/

theorem printed_hex (bytes : List UInt8) : Printed (Hex.encode bytes) := by
  have hdigits : Hex.digits.any isControl = false := by decide
  intro c hc
  simpa using List.any_eq_false.1 hdigits c (Hex.mem_digits_of_mem_encode hc)

theorem hasShown_hex {bytes : List UInt8} (h : bytes ≠ []) : HasShown (Hex.encode bytes) := by
  obtain ⟨b, rest, rfl⟩ := List.exists_cons_of_ne_nil h
  have hmem : Hex.digit (b.toNat / 16) ∈ (Hex.encode (b :: rest)).toList := by
    rw [Hex.encode, String.toList_ofList, List.flatMap_cons]
    exact List.mem_cons_self
  have hblank := List.any_eq_false.1 Hex.any_isBlank_digits _ (Hex.mem_digits_of_mem_encode hmem)
  exact ⟨_, hmem, by simpa using hblank⟩

theorem isControl_digitChar : ∀ n : Fin 16, isControl (Nat.digitChar n) = false := by
  decide

/-- By induction on the digits, the last of which is split off. -/
theorem isControl_of_mem_hexadecimal {n : Nat} {c : Char} (h : c ∈ Quoted.hexadecimal n) :
    isControl c = false := by
  induction n using Nat.strongRecOn with
  | ind n ih =>
    rw [Quoted.hexadecimal, Nat.toDigits_eq_if (by decide)] at h
    split at h
    · next hn =>
      rw [List.mem_singleton.1 h]
      exact isControl_digitChar ⟨n, hn⟩
    · next hn =>
      rcases List.mem_append.1 h with h | h
      · exact ih (n / 16) (by omega) h
      · rw [List.mem_singleton.1 h]
        exact isControl_digitChar ⟨n % 16, by omega⟩

/-! ## Quoted text -/

theorem isControl_of_isShown {c : Char} (h : isShown c = true) : isControl c = false := by
  unfold isShown at h
  simp only at h
  split at h
  · cases h
  · split at h
    · simp [isControl]
      omega
    · split at h
      · cases h
      · simp [isControl]
        omega

theorem isControl_of_mem_escape {mark c d : Char} (hm : isControl mark = false)
    (h : d ∈ Quoted.escape mark c) : isControl d = false := by
  have hpair (x : Char) (hx : isControl x = false) (hd : d ∈ ['\\', x]) : isControl d = false := by
    rcases List.mem_cons.1 hd with rfl | hd
    · rfl
    · rwa [List.mem_singleton.1 hd]
  unfold Quoted.escape at h
  split at h
  · exact hpair _ rfl h
  split at h
  · exact hpair _ rfl h
  split at h
  · exact hpair _ rfl h
  split at h
  · exact hpair _ rfl h
  split at h
  · next hc =>
    refine hpair c ?_ h
    rcases (by simpa using hc : c = mark ∨ c = '\\') with rfl | rfl
    · exact hm
    · rfl
  split at h
  · next hs =>
    rw [List.mem_singleton.1 h]
    exact isControl_of_isShown hs
  · rcases List.mem_append.1 h with h | h
    · rcases List.mem_append.1 h with h | h
      · have hopen : ['\\', 'u', '\x7b'].any isControl = false := by decide
        simpa using List.any_eq_false.1 hopen d h
      · exact isControl_of_mem_hexadecimal h
    · rw [List.mem_singleton.1 h]
      rfl

theorem printed_string (s : String) : Printed (Quoted.string s) := by
  intro c hc
  rw [Quoted.string, String.toList_ofList] at hc
  rcases List.mem_append.1 hc with hc | hc
  · rcases List.mem_cons.1 hc with rfl | hc
    · rfl
    · obtain ⟨x, _, hx⟩ := List.mem_flatMap.1 hc
      exact isControl_of_mem_escape rfl hx
  · rw [List.mem_singleton.1 hc]
    rfl

theorem endsShown_string (s : String) : EndsShown (Quoted.string s) :=
  ⟨'"' :: s.toList.flatMap (Quoted.escape '"'), '"', by rw [Quoted.string, String.toList_ofList],
    rfl⟩

end Text
end ReflectionError
