import ReflectionError.Proofs.Report.Listing

/-!
# ReflectionError.Proofs.Report.Reply

The lines in which a decoded reply is shown: those of its JSON form, an empty one, one for the
status and, if there are undeclared fields, one for their number and one for each of them.

* `reply_eq_intercalate`: the report is these lines, one below the other.
* `reply_new`: a reply of a code and a text, with all of its words spelled out.
* `lines_reply`: the lines are found again in it. In particular no text that a reply holds makes a
  line.
-/

namespace ReflectionError
namespace Report

open Text

/-! ## The JSON form -/

theorem newline_notMem_escapeChar (c : Char) : '\n' ∉ Json.escapeChar c := by
  unfold Json.escapeChar
  split
  · decide
  split
  · decide
  split
  · decide
  split
  · decide
  split
  · decide
  split
  · decide
  split
  · decide
  split
  · next hc =>
    have hdigit : ∀ n : Fin 16, Json.hexDigit n ≠ '\n' := by decide
    have hhigh := hdigit ⟨c.toNat / 16, by omega⟩
    have hlow := hdigit ⟨c.toNat % 16, by omega⟩
    simp [hhigh.symm, hlow.symm]
  · next hn _ _ _ => simpa using fun h => hn h.symm

theorem oneLine_jsonLiteral (s : String) : OneLine (jsonLiteral s) := by
  rw [← printString_eq_jsonLiteral, OneLine, String.toList_ofList, Json.printString]
  simp [newline_notMem_escapeChar]

def codeMember (r : Reply) : String := "  \"errorCode\": " ++ toString r.code.toInt

def textMember (r : Reply) : String := "  \"errorMessage\": " ++ jsonLiteral r.text

/-- The lines of the JSON form. -/
def jsonLines (r : Reply) : List String :=
  if r.code = 0 then
    if r.text = "" then ["\x7b\x7d"] else ["\x7b", textMember r, "\x7d"]
  else
    if r.text = "" then ["\x7b", codeMember r, "\x7d"]
    else ["\x7b", codeMember r ++ ",", textMember r, "\x7d"]

theorem jsonLines_ne_nil (r : Reply) : jsonLines r ≠ [] := by
  unfold jsonLines
  split <;> split <;> simp

theorem toList_codeMember (r : Reply) : (codeMember r).toList =
    ' ' :: ' ' :: Json.printString "errorCode" ++ ':' :: ' ' :: (toString r.code.toInt).toList := by
  have hname : "  \"errorCode\": ".toList =
      ' ' :: ' ' :: Json.printString "errorCode" ++ [':', ' '] := by decide +kernel
  unfold codeMember
  rw [String.toList_append, hname, List.append_assoc]
  rfl

theorem toList_textMember (r : Reply) : (textMember r).toList =
    ' ' :: ' ' :: Json.printString "errorMessage" ++ ':' :: ' ' :: Json.printString r.text := by
  have hname : "  \"errorMessage\": ".toList =
      ' ' :: ' ' :: Json.printString "errorMessage" ++ [':', ' '] := by decide +kernel
  unfold textMember
  rw [String.toList_append, hname, ← printString_eq_jsonLiteral, String.toList_ofList,
    List.append_assoc]
  rfl

theorem pretty_toJson (r : Reply) : r.toJson.pretty = "\n".intercalate (jsonLines r) := by
  rw [← String.toList_inj, Json.Value.pretty, String.toList_ofList, String.toList_intercalate,
    jsonLines, Reply.toJson]
  by_cases hc : r.code = 0
  · by_cases ht : r.text = ""
    · rw [if_pos hc, if_pos ht, if_pos hc, if_pos ht]
      rfl
    · rw [if_pos hc, if_neg ht, if_pos hc, if_neg ht]
      simp [Json.prettyValue, Json.prettyMembers, Json.newLine, toList_textMember]
  · by_cases ht : r.text = ""
    · rw [if_neg hc, if_pos ht, if_neg hc, if_pos ht]
      simp [Json.prettyValue, Json.prettyMembers, Json.newLine, toList_codeMember,
        Json.Number.print]
    · rw [if_neg hc, if_neg ht, if_neg hc, if_neg ht]
      simp [Json.prettyValue, Json.prettyMembers, Json.newLine, toList_codeMember,
        toList_textMember, Json.Number.print]

theorem oneLine_of_mem_jsonLines {r : Reply} : ∀ line ∈ jsonLines r, OneLine line := by
  have hopen : OneLine "\x7b" := by decide
  have hclose : OneLine "\x7d" := by decide
  have hempty : OneLine "\x7b\x7d" := by decide
  have hcode : OneLine (codeMember r) :=
    (by decide : OneLine "  \"errorCode\": ").append (printed_toString_int _).oneLine
  have hcomma : OneLine (codeMember r ++ ",") := hcode.append (by decide)
  have htext : OneLine (textMember r) :=
    (by decide : OneLine "  \"errorMessage\": ").append (oneLine_jsonLiteral _)
  unfold jsonLines
  split <;> split <;> simp [hopen, hclose, hempty, hcode, hcomma, htext]

/-! ## Undeclared fields -/

def unknownCount (color : Bool) (us : List UnknownField) : String :=
  paint color .cyan "unknown fields:" ++ " " ++ paint color .yellow (toString us.length)

def bullet (u : UnknownField) : String :=
  s!"  - #{u.number} " ++ u.wireType.name ++ s!" ({u.raw.length} bytes)"

theorem unknownLine_eq (u : UnknownField) : unknownLine u = "\n" ++ bullet u := by
  have hmark : s!"\n  - #{u.number} " = "\n" ++ s!"  - #{u.number} " := by
    rfl
  rw [unknownLine, hmark, bullet]
  simp only [String.append_assoc]

def summaryLines (color : Bool) (us : List UnknownField) : List String :=
  if us = [] then [] else unknownCount color us :: us.map bullet

theorem intercalate_cons_eq (line : String) (rest : List String) :
    "\n".intercalate (line :: rest) = line ++ String.join (rest.map ("\n" ++ ·)) := by
  induction rest generalizing line with
  | nil => simp
  | cons next rest ih =>
    rw [String.intercalate_cons_cons, ih, List.map_cons, String.join_cons]
    simp only [String.append_assoc]

theorem unknownSummary_eq (color : Bool) (us : List UnknownField) :
    unknownSummary color us = String.join ((summaryLines color us).map ("\n" ++ ·)) := by
  rw [unknownSummary, summaryLines]
  split
  · rfl
  · have hmap : us.map unknownLine = (us.map bullet).map ("\n" ++ ·) := by
      rw [List.map_map]
      exact List.map_congr_left fun u _ => unknownLine_eq u
    rw [List.map_cons, String.join_cons, hmap, unknownCount]
    simp only [String.append_assoc]

/-! ## Replies -/

theorem oneLine_statusLine (color : Bool) (code : Int32) : OneLine (statusLine color code) := by
  have hcode : OneLine s!" ({code.toInt})" :=
    (((by decide : Printed " (").append (printed_toString_int _)).append (by decide)).oneLine
  exact (((oneLine_paint color _ (by decide)).append (by decide)).append
    (oneLine_paint color _ (printed_describe code).oneLine)).append hcode

theorem oneLine_of_mem_summaryLines {color : Bool} {us : List UnknownField} :
    ∀ line ∈ summaryLines color us, OneLine line := by
  intro line hline
  unfold summaryLines at hline
  split at hline
  · cases hline
  · rcases List.mem_cons.1 hline with rfl | hline
    · exact ((oneLine_paint color _ (by decide)).append (by decide)).append
        (oneLine_paint color _ (printed_toString _).oneLine)
    · obtain ⟨u, _, rfl⟩ := List.mem_map.1 hline
      have hname := (named_name u.wireType).printed.oneLine
      have hnumber : OneLine s!"  - #{u.number} " :=
        (((by decide : Printed "  - #").append (printed_toString _)).append (by decide)).oneLine
      have hsize : OneLine s!" ({u.raw.length} bytes)" :=
        (((by decide : Printed " (").append (printed_toString _)).append (by decide)).oneLine
      exact (hnumber.append hname).append hsize

theorem statusLine_eq_styled (color : Bool) (code : Int32) :
    statusLine color code = styled color "36" "status:" ++ " " ++
      styled color "32" (codeLabel code) ++ (" (" ++ toString code.toInt ++ ")") := by
  rw [statusLine, describe_eq_codeLabel]
  rfl

theorem reply_new (color : Bool) (code : Int32) (text : String) :
    reply color (Reply.new code text) =
      "\n".intercalate (jsonLines (Reply.new code text)) ++ "\n\n" ++
        (styled color "36" "status:" ++ " " ++ styled color "32" (codeLabel code) ++
          (" (" ++ toString code.toInt ++ ")")) := by
  have hnone : unknownSummary color (Reply.new code text).unknown = "" := if_pos rfl
  have hcode : (Reply.new code text).code = code := rfl
  rw [reply, hnone, String.append_empty, pretty_toJson, hcode, statusLine_eq_styled]

def replyLines (color : Bool) (r : Reply) : List String :=
  jsonLines r ++ "" :: statusLine color r.code :: summaryLines color r.unknown

theorem reply_eq_intercalate (color : Bool) (r : Reply) :
    reply color r = "\n".intercalate (replyLines color r) := by
  rw [replyLines, String.intercalate_append_of_ne_nil (jsonLines_ne_nil r) (by simp),
    ← pretty_toJson, String.intercalate_cons_cons, intercalate_cons_eq, ← unknownSummary_eq, reply]
  have hgap : "\n\n" = "\n" ++ ("" ++ "\n") := rfl
  rw [hgap]
  simp only [String.append_assoc]

/-- The lines that are read in a report are those that it was put together from. -/
theorem lines_reply (color : Bool) (r : Reply) : lines (reply color r) = replyLines color r := by
  rw [reply_eq_intercalate, lines_intercalate (by simp [replyLines])]
  intro line hline
  rcases List.mem_append.1 hline with hline | hline
  · exact oneLine_of_mem_jsonLines line hline
  rcases List.mem_cons.1 hline with rfl | hline
  · decide
  rcases List.mem_cons.1 hline with rfl | hline
  · exact oneLine_statusLine color r.code
  · exact oneLine_of_mem_summaryLines line hline

end Report
end ReflectionError
