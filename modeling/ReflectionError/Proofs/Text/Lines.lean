import Mathlib.Data.List.DropRight
import ReflectionError.Text.Printable

/-!
# ReflectionError.Proofs.Text.Lines

Text as a reader takes it in, line by line and word by word. What is put together from lines and
words is taken apart into the same.

* `lines_intercalate`, `intercalate_lines`: lines that stand one below the other.
* `words_append_blank`, `words_of_word`: words with a blank between them.
* `shownEnd_append`: the blanks at the end of a line, if not all of it is blank.
-/

namespace ReflectionError
namespace Text

/-- What stands between the newlines of a text. -/
def lines (s : String) : List String := (s.toList.splitOn '\n').map String.ofList

/-- What stands between the blanks of a line. Blanks that stand together divide once. -/
def words (s : String) : List String :=
  ((s.toList.splitOn ' ').filter fun w => w ≠ []).map String.ofList

/-! ## Lines -/

/-- There is no newline in the text. -/
def OneLine (s : String) : Prop := '\n' ∉ s.toList

instance (s : String) : Decidable (OneLine s) := inferInstanceAs (Decidable (_ ∉ _))

theorem OneLine.append {s t : String} (hs : OneLine s) (ht : OneLine t) : OneLine (s ++ t) := by
  rw [OneLine, String.toList_append, List.mem_append]
  rintro (h | h)
  · exact hs h
  · exact ht h

theorem lines_intercalate {ls : List String} (hne : ls ≠ []) (h : ∀ l ∈ ls, OneLine l) :
    lines ("\n".intercalate ls) = ls := by
  have hnewline : "\n".toList = ['\n'] := rfl
  have hone : ∀ l ∈ ls.map String.toList, '\n' ∉ l := by
    intro l hl
    obtain ⟨s, hs, rfl⟩ := List.mem_map.1 hl
    exact h s hs
  rw [lines, String.toList_intercalate, hnewline, List.splitOn_intercalate _ hone (by simpa),
    List.map_map]
  simp [Function.comp_def, String.ofList_toList]

theorem intercalate_lines (s : String) : "\n".intercalate (lines s) = s := by
  have hnewline : "\n".toList = ['\n'] := rfl
  have htoList : String.toList ∘ String.ofList = id := funext fun _ => String.toList_ofList
  rw [← String.toList_inj, String.toList_intercalate, lines, List.map_map, hnewline, htoList,
    List.map_id]
  exact List.intercalate_splitOn '\n'

theorem lines_append_newline (s t : String) : lines (s ++ "\n" ++ t) = lines s ++ lines t := by
  have hnewline : "\n".toList = ['\n'] := rfl
  simp only [lines, List.splitOn, String.toList_append, hnewline, List.append_assoc,
    List.singleton_append]
  rw [List.splitOnP_append_cons s.toList t.toList rfl, List.map_append]

theorem lines_empty : lines "" = [""] := rfl

/-! ## Words -/

theorem words_append_blank (s t : String) : words (s ++ " " ++ t) = words s ++ words t := by
  have hblank : " ".toList = [' '] := rfl
  simp only [words, List.splitOn, String.toList_append, hblank, List.append_assoc,
    List.singleton_append]
  rw [List.splitOnP_append_cons s.toList t.toList rfl, List.filter_append, List.map_append]

theorem words_of_word {s : String} (hne : s ≠ "") (h : ' ' ∉ s.toList) : words s = [s] := by
  have hlist : s.toList ≠ [] := by simpa using hne
  rw [words, List.splitOn_eq_singleton h]
  simp [hlist, String.ofList_toList]

theorem words_empty : words "" = [] := rfl

theorem words_append_blanks (s : String) (n : Nat) :
    words (s ++ String.ofList (List.replicate n ' ')) = words s := by
  induction n with
  | zero => simp
  | succ n ih =>
    have hmore : String.ofList (List.replicate (n + 1) ' ') =
        String.ofList (List.replicate n ' ') ++ " " ++ "" := by
      rw [List.replicate_succ', String.ofList_append, String.append_empty]
    rw [hmore, ← String.append_assoc, ← String.append_assoc, words_append_blank, ih, words_empty,
      List.append_nil]

/-! ## The end of a line -/

/-- The text without the blanks behind it. -/
def shownEnd (s : String) : String := String.ofList (trimEnd s.toList)

/-- Some character of the text is no blank. -/
def HasShown (s : String) : Prop := ∃ c ∈ s.toList, isBlank c = false

instance (s : String) : Decidable (HasShown s) :=
  decidable_of_iff (s.toList.all isBlank = false) (by simp [HasShown])

theorem HasShown.prepend {s : String} (h : HasShown s) (front : String) :
    HasShown (front ++ s) := by
  obtain ⟨c, hc, hb⟩ := h
  exact ⟨c, by rw [String.toList_append]; exact List.mem_append_right _ hc, hb⟩

theorem HasShown.append {s : String} (h : HasShown s) (back : String) : HasShown (s ++ back) := by
  obtain ⟨c, hc, hb⟩ := h
  exact ⟨c, by rw [String.toList_append]; exact List.mem_append_left _ hc, hb⟩

theorem trimEnd_append {back : List Char} (h : ∃ c ∈ back, isBlank c = false)
    (front : List Char) : trimEnd (front ++ back) = front ++ trimEnd back := by
  have hne : back.reverse.dropWhile isBlank ≠ [] := by
    obtain ⟨c, hc, hb⟩ := h
    intro hnil
    have := List.dropWhile_eq_nil_iff.1 hnil c (List.mem_reverse.2 hc)
    rw [hb] at this
    cases this
  rw [trimEnd, List.reverse_append, List.dropWhile_append, if_neg (by simpa using hne),
    List.reverse_append, List.reverse_reverse, trimEnd]

theorem shownEnd_append {s : String} (h : HasShown s) (front : String) :
    shownEnd (front ++ s) = front ++ shownEnd s := by
  rw [shownEnd, String.toList_append, trimEnd_append h, String.ofList_append, String.ofList_toList,
    shownEnd]

theorem shownEnd_newline (s : String) : shownEnd (s ++ "\n") = shownEnd s := by
  have hnewline : "\n".toList.reverse = ['\n'] := rfl
  rw [shownEnd, trimEnd, String.toList_append, List.reverse_append, hnewline, List.singleton_append,
    List.dropWhile_cons_of_pos rfl, shownEnd, trimEnd]

theorem shownEnd_shownEnd (s : String) : shownEnd (shownEnd s) = shownEnd s := by
  rw [shownEnd, shownEnd, String.toList_ofList]
  exact congrArg String.ofList (List.rdropWhile_idempotent isBlank s.toList)

/-- The text ends in a character that is no blank. -/
def EndsShown (s : String) : Prop := ∃ front c, s.toList = front ++ [c] ∧ isBlank c = false

theorem EndsShown.append {s : String} (h : EndsShown s) (front : String) :
    EndsShown (front ++ s) := by
  obtain ⟨before, c, hs, hc⟩ := h
  exact ⟨front.toList ++ before, c, by rw [String.toList_append, hs, List.append_assoc], hc⟩

theorem EndsShown.hasShown {s : String} (h : EndsShown s) : HasShown s := by
  obtain ⟨before, c, hs, hc⟩ := h
  exact ⟨c, by rw [hs]; exact List.mem_append_right _ List.mem_cons_self, hc⟩

theorem EndsShown.shownEnd {s : String} (h : EndsShown s) : shownEnd s = s := by
  obtain ⟨before, c, hs, hc⟩ := h
  have htrim : trimEnd s.toList = s.toList := by
    rw [hs, trimEnd, List.reverse_concat, List.dropWhile_cons_of_neg (by simp [hc]),
      List.reverse_cons, List.reverse_reverse]
  rw [Text.shownEnd, htrim, String.ofList_toList]

theorem OneLine.shownEnd {s : String} (h : OneLine s) : OneLine (shownEnd s) := by
  intro hc
  rw [Text.shownEnd, String.toList_ofList] at hc
  exact h ((List.rdropWhile_prefix isBlank s.toList).subset hc)

end Text
end ReflectionError
