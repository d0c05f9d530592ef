import ReflectionError.CommandLine.Arguments
import ReflectionError.Proofs.Status

/-!
# ReflectionError.Proofs.CommandLine.Code

Status codes in text, where only codes are wanted and where any number of 32 bits may be given.

* `readCode_of_parse?`: what names a code is also read as its number.
* `readCode_eq_ok_iff`: the texts that are read as a number.
* `codes_in_text`: both readers, for any text.
-/

namespace ReflectionError
namespace CommandLine

theorem readInt_eq_ok_toInt_iff {s : List Char} {n : Int32} :
    Decimal.readInt 32 s = .ok n.toInt ↔ Decimal.Numeral s n.toInt := by
  rw [Decimal.readInt_eq_ok_iff]
  exact ⟨fun h => h.1, fun h => ⟨h, n.le_toInt, n.toInt_lt⟩⟩

theorem readCode_of_readInt {s : String} {n : Int32}
    (h : Decimal.readInt 32 (Text.trim s.toList) = .ok n.toInt) : readCode s = .ok n := by
  simp only [readCode, h, Int32.ofInt_toInt]

theorem exists_toInt_of_readInt {s : List Char} {n : Int} (h : Decimal.readInt 32 s = .ok n) :
    ∃ m : Int32, m.toInt = n := by
  obtain ⟨-, hlow, hhigh⟩ := Decimal.readInt_eq_ok_iff.1 h
  exact ⟨Int32.ofInt n, Int32.toInt_ofInt_of_le hlow hhigh⟩

/-- What names a code is read as its number: the two numbers are the same if it is a numeral, and
otherwise it is no number. -/
theorem readCode_of_parse? {s : String} {c : Code} (h : Code.parse? s = some c) :
    readCode s = .ok c.toInt32 := by
  rcases Code.parse?_eq_some_iff.1 h with ⟨hs, -⟩ | hspelled
  · rw [← Code.toInt_toInt32] at hs
    exact readCode_of_readInt (readInt_eq_ok_toInt_iff.2 hs)
  · obtain ⟨fault, hread⟩ := Decimal.readInt_of_no_digit 32 hspelled.no_digit
    simp only [readCode, hread, h]

theorem readCode_eq_ok_iff {s : String} {n : Int32} :
    readCode s = .ok n ↔ Decimal.Numeral (Text.trim s.toList) n.toInt ∨
      ∃ c, Code.parse? s = some c ∧ n = c.toInt32 := by
  constructor
  · intro h
    simp only [readCode] at h
    split at h
    · next m hread =>
      obtain ⟨m, rfl⟩ := exists_toInt_of_readInt hread
      rw [Int32.ofInt_toInt] at h
      cases h
      exact .inl (readInt_eq_ok_toInt_iff.1 hread)
    · split at h
      · next c hc =>
        cases h
        exact .inr ⟨c, hc, rfl⟩
      · cases h
  · rintro (hs | ⟨c, hc, rfl⟩)
    · exact readCode_of_readInt (readInt_eq_ok_toInt_iff.2 hs)
    · exact readCode_of_parse? hc

/-- A text names a code if and only if it is the code's number or a spelling of its name, and it
names one code at most. It is read as a number of 32 bits if and only if it is one in digits or
names a code, and then as the number of that code. -/
theorem codes_in_text (s : String) :
    (∀ c, Code.parse? s = some c ↔ c.NumberedBy s ∨ c.SpelledBy s) ∧
    (∀ c d : Code, c.NumberedBy s ∨ c.SpelledBy s → d.NumberedBy s ∨ d.SpelledBy s → c = d) ∧
    (∀ n, readCode s = .ok n ↔ Decimal.Numeral (Text.trim s.toList) n.toInt ∨
      ∃ c, Code.parse? s = some c ∧ n = c.toInt32) ∧
    ∀ c, Code.parse? s = some c → readCode s = .ok c.toInt32 := by
  refine ⟨fun c => Code.parse?_eq_some_iff, fun c d hc hd => ?_, fun n => readCode_eq_ok_iff,
    fun c => readCode_of_parse?⟩
  rw [← Code.parse?_eq_some_iff] at hc hd
  exact Option.some.inj (hc.symm.trans hd)

/-- An em space, a plus and zeros in front of a number, and the same code by a name in mixed case
without its separator. -/
theorem codes_in_text_plus_zeros :
    let s := "\u2003+0005\n"
    let s' := "Not--found"
    Code.notFound.NumberedBy s ∧ Code.parse? s = some .notFound ∧ readCode s = .ok 5 ∧
      Code.notFound.SpelledBy s' ∧ Code.parse? s' = some .notFound ∧ readCode s' = .ok 5 := by
  intro s s'
  have htrim : Text.trim s.toList = ['+', '0', '0', '0', '5'] := by decide
  have hnumeral : Decimal.Numeral ['+', '0', '0', '0', '5'] 5 :=
    .plus (List.cons_ne_nil _ _) (List.all_eq_true.1 (by decide))
  have hnumbered : Code.notFound.NumberedBy s := by
    rw [Code.NumberedBy, htrim]
    exact ⟨hnumeral, by decide⟩
  have hspelled : Code.notFound.SpelledBy s' := by decide
  obtain ⟨hparse, -, -, hread⟩ := codes_in_text s
  obtain ⟨hparse', -, -, hread'⟩ := codes_in_text s'
  have h := (hparse .notFound).2 (.inl hnumbered)
  have h' := (hparse' .notFound).2 (.inr hspelled)
  exact ⟨hnumbered, h, hread _ h, hspelled, h', hread' _ h'⟩

end CommandLine
end ReflectionError
