import ReflectionError.Proofs.Json.Pretty
import ReflectionError.Proofs.Reply.Json
import ReflectionError.Proofs.Report.Reply

/-!
# ReflectionError.Proofs.Report.Separation

The report of a reply has two parts with an empty line between them. The text of a reply stands in
the first part only, and whatever it holds, it neither ends that part nor reaches the second.

* `SplitsAtGap`: a text is divided by the first two newlines in a row.
* `splitsAtGap_of_lines`: so it is at the first line that is empty.
* `trailer`: the second part, which is made without the text.
* `reply_separates`: the report is divided into the JSON form, from which code and text are read
  back, and the second part.
-/

namespace ReflectionError

namespace Text

/-! ## Texts and their lines -/

theorem lines_append_gap (s t : String) : lines (s ++ "\n\n" ++ t) = lines s ++ "" :: lines t := by
  have hgap : s ++ "\n\n" ++ t = s ++ "\n" ++ "" ++ "\n" ++ t := by
    have htwo : "\n\n" = "\n" ++ ("" ++ "\n") := rfl
    rw [htwo]
    simp only [String.append_assoc]
  rw [hgap, lines_append_newline, lines_append_newline, lines_empty, List.append_assoc,
    List.singleton_append]

theorem length_le_intercalate_append (sep : String) {front : List String} (hne : front ≠ [])
    (back : List String) :
    (sep.intercalate front).length ≤ (sep.intercalate (front ++ back)).length := by
  cases back with
  | nil => rw [List.append_nil]
  | cons line back =>
    rw [String.intercalate_append_of_ne_nil hne (List.cons_ne_nil line back), String.length_append,
      String.length_append]
    omega

/-! ## The first gap -/

/-- The first place in `s` where two newlines stand in a row is between `front` and `back`. -/
structure SplitsAtGap (s front back : String) : Prop where
  eq : s = front ++ "\n\n" ++ back
  first : ∀ {front' back'}, s = front' ++ "\n\n" ++ back' → front.length ≤ front'.length

theorem SplitsAtGap.unique {s front back front' back' : String} (h : SplitsAtGap s front back)
    (h' : SplitsAtGap s front' back') : front = front' ∧ back = back' := by
  have hlength : front.toList.length = front'.toList.length :=
    Nat.le_antisymm (h.first h'.eq) (h'.first h.eq)
  have hsame : front.toList ++ ("\n\n".toList ++ back.toList) =
      front'.toList ++ ("\n\n".toList ++ back'.toList) := by
    rw [← String.toList_append, ← String.toList_append, ← String.toList_append,
      ← String.toList_append, ← String.append_assoc, ← String.append_assoc, ← h.eq, h'.eq]
  obtain ⟨hfront, hrest⟩ := List.append_inj hsame hlength
  exact ⟨String.toList_inj.1 hfront, String.toList_inj.1 (List.append_cancel_left hrest)⟩

/-- The lines in front of the first empty one are all in front of the first gap. -/
theorem splitsAtGap_of_lines {front back : List String} (hne : front ≠ [])
    (hfront : ∀ line ∈ front, OneLine line) (hempty : "" ∉ front) (hback : back ≠ [])
    (hlines : ∀ line ∈ back, OneLine line) :
    SplitsAtGap ("\n".intercalate front ++ "\n\n" ++ "\n".intercalate back)
      ("\n".intercalate front) ("\n".intercalate back) := by
  refine ⟨rfl, fun {front' back'} h => ?_⟩
  have hsame : front ++ "" :: back = lines front' ++ "" :: lines back' := by
    rw [← lines_append_gap, ← h, lines_append_gap, lines_intercalate hne hfront,
      lines_intercalate hback hlines]
  obtain ⟨more, hmore⟩ : ∃ more, lines front' = front ++ more := by
    rcases List.append_eq_append_iff.1 hsame with ⟨more, hmore, -⟩ | ⟨rest, hrest, hgap⟩
    · exact ⟨more, hmore⟩
    · cases rest with
      | nil => exact ⟨[], by rw [hrest, List.append_nil, List.append_nil]⟩
      | cons line rest =>
        rw [List.cons_append] at hgap
        exact absurd (by rw [hrest, ← (List.cons.inj hgap).1]; simp) hempty
  have hle := length_le_intercalate_append "\n" hne more
  rwa [← hmore, intercalate_lines] at hle

end Text

namespace Report

open Text

/-! ## The two parts of a report -/

/-- What stands below the JSON form: the meaning of the code, and what is held undeclared. -/
def trailer (color : Bool) (code : Int32) (us : List UnknownField) : String :=
  statusLine color code ++ unknownSummary color us

theorem trailer_eq_intercalate (color : Bool) (code : Int32) (us : List UnknownField) :
    trailer color code us = "\n".intercalate (statusLine color code :: summaryLines color us) := by
  rw [trailer, intercalate_cons_eq, unknownSummary_eq]

theorem reply_eq_trailer (color : Bool) (r : Reply) :
    reply color r = r.toJson.pretty ++ "\n\n" ++ trailer color r.code r.unknown := by
  rw [reply, trailer, String.append_assoc]

theorem oneLine_of_mem_trailer {color : Bool} {code : Int32} {us : List UnknownField} :
    ∀ line ∈ statusLine color code :: summaryLines color us, OneLine line :=
  List.forall_mem_cons.2 ⟨oneLine_statusLine color code, oneLine_of_mem_summaryLines⟩

theorem lines_trailer (color : Bool) (code : Int32) (us : List UnknownField) :
    lines (trailer color code us) = statusLine color code :: summaryLines color us := by
  rw [trailer_eq_intercalate, lines_intercalate (List.cons_ne_nil _ _) oneLine_of_mem_trailer]

theorem empty_notMem_jsonLines (r : Reply) : "" ∉ jsonLines r := by
  have hcode : codeMember r ≠ "" := by
    rw [ne_eq, ← String.toList_inj, toList_codeMember]
    exact List.cons_ne_nil _ _
  have hcomma : codeMember r ++ "," ≠ "" := by simp
  have htext : textMember r ≠ "" := by
    rw [ne_eq, ← String.toList_inj, toList_textMember]
    exact List.cons_ne_nil _ _
  unfold jsonLines
  split <;> split <;> simp [hcode.symm, hcomma.symm, htext.symm]

theorem splitsAtGap_reply (color : Bool) (r : Reply) :
    SplitsAtGap (reply color r) r.toJson.pretty (trailer color r.code r.unknown) := by
  rw [reply_eq_trailer, pretty_toJson, trailer_eq_intercalate]
  exact splitsAtGap_of_lines (jsonLines_ne_nil r) oneLine_of_mem_jsonLines
    (empty_notMem_jsonLines r) (List.cons_ne_nil _ _) oneLine_of_mem_trailer

/-- The first two newlines in a row divide the report of a reply into its JSON form and what stands
below. Of the form, code and text are read back. What stands below has a line for the status and, if
there are undeclared fields, one for their number and one for each of them in order. It is the same
for every text that the reply could have. -/
theorem reply_separates (color : Bool) (r : Reply) :
    SplitsAtGap (reply color r) r.toJson.pretty (trailer color r.code r.unknown) ∧
    (∃ v, Json.Value.parse r.toJson.pretty = .ok v ∧ Reply.ofJson v = .ok (.new r.code r.text)) ∧
    lines (trailer color r.code r.unknown) = statusLine color r.code ::
      (if r.unknown = [] then [] else unknownCount color r.unknown :: r.unknown.map bullet) ∧
    ∀ text front back, SplitsAtGap (reply color { r with text }) front back →
      back = trailer color r.code r.unknown := by
  refine ⟨splitsAtGap_reply color r, ?_, lines_trailer color r.code r.unknown, ?_⟩
  · exact ⟨r.toJson, Json.parse_pretty (Reply.readable_toJson r), Reply.ofJson_toJson r⟩
  · intro text front back h
    exact (h.unique (splitsAtGap_reply color { r with text })).2

/-- A text that looks like the end of a JSON form with a status below it, in place of an empty
one. -/
theorem reply_separates_imitated :
    let r : Reply := ⟨5, "", [⟨3, .varint, 1, [0x18, 0x01]⟩]⟩
    let imitation := "\"\n\x7d\n\nstatus: OK (0)"
    let front := "\x7b\n  \"errorCode\": 5,\n  " ++
      "\"errorMessage\": \"\\\"\\n\x7d\\n\\nstatus: OK (0)\"\n\x7d"
    let back := "status: NOT_FOUND (5)\nunknown fields: 1\n  - #3 varint (2 bytes)"
    SplitsAtGap (reply false { r with text := imitation }) front back ∧
      back = trailer false r.code r.unknown := by
  intro r imitation front back
  have hfront : ({ r with text := imitation } : Reply).toJson.pretty = front := by decide +kernel
  have hback : trailer false 5 r.unknown = back := by decide +kernel
  have hsplit := (reply_separates false { r with text := imitation }).1
  rw [hfront, hback] at hsplit
  exact ⟨hsplit, (reply_separates false r).2.2.2 imitation front back hsplit⟩

end Report
end ReflectionError
