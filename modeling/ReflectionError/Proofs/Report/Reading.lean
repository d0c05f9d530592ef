import ReflectionError.Proofs.Report.Reply

/-!
# ReflectionError.Proofs.Report.Reading

What someone reads off a report, by its lines and words alone: the entries of a listing, and what
stands behind given words in the report of a reply. Both reports are those without colours.

* `entries_fields`: a listing has one entry for each field.
* `behind_reply`: the JSON form of a reply has no line that begins with a word of the lines below
  it.
* `behind_status`, `countShown_reply`, `behind_bullets`: what stands in these.
-/

namespace ReflectionError
namespace Report

open Text

/-! ## Readers -/

/-- What a line of a listing says of a field. -/
structure Entry where
  number : String
  wireType : String
  label : String
  value : String
  deriving DecidableEq

/-- What stands behind the first sign of equality and the blank after it. -/
def behindSign (line : String) : String :=
  String.ofList ((line.toList.dropWhile fun c => c ≠ '=').drop 2)

def entryOfLine (line : String) : Option Entry :=
  match words line with
  | _ :: number :: wireType :: label :: sign :: _ =>
    if sign = "=" then some ⟨number, wireType, label, shownEnd (behindSign line)⟩ else none
  | _ => none

def entries (listing : String) : List Entry := (lines listing).filterMap entryOfLine

/-- The entries with this label. -/
def labelled (label listing : String) : List Entry :=
  (entries listing).filter fun e => e.label = label

/-- The words behind `marks` in a line that begins with them. -/
def behind? (marks : List String) (line : String) : Option (List String) :=
  if (words line).take marks.length = marks then some ((words line).drop marks.length) else none

/-- The words behind `marks` in every line that begins with them. -/
def behind (marks : List String) (report : String) : List (List String) :=
  (lines report).filterMap (behind? marks)

/-- What stands behind `unknown fields:`, or a zero if no line begins so. -/
def countShown (report : String) : List String :=
  (behind ["unknown", "fields:"] report).head?.getD ["0"]

theorem behind?_of_words {marks : List String} {line : String} {rest : List String}
    (h : words line = marks ++ rest) : behind? marks line = some rest := by
  rw [behind?, h, List.take_left, if_pos rfl, List.drop_left]

theorem behind?_of_ne {mark first : String} {marks rest : List String} {line : String}
    (h : words line = first :: rest) (hne : first ≠ mark) :
    behind? (mark :: marks) line = none := by
  rw [behind?, h, List.length_cons, List.take_succ_cons, if_neg]
  intro he
  exact hne (List.cons.inj he).1

/-! ## Words -/

theorem notMem_toString {c : Char} (hc : c.isDigit = false) (n : Nat) :
    c ∉ (toString n).toList := by
  intro h
  rw [isDigit_of_mem_toString h] at hc
  cases hc

theorem words_number (front : String) (n : Nat) (hf : ' ' ∉ front.toList) :
    words (front ++ toString n) = [front ++ toString n] := by
  refine words_of_word ?_ ?_
  · intro h
    obtain ⟨c, hc, _⟩ := (hasShown_toString n).prepend front
    rw [h] at hc
    cases hc
  · rw [String.toList_append, List.mem_append, not_or]
    exact ⟨hf, notMem_toString rfl n⟩

theorem words_wireType (w : WireType) : words w.name = [w.name] := by
  cases w <;> decide

theorem words_label (key : Key) : words (label false key) = [label false key] := by
  unfold label
  split
  · decide
  · split <;> decide

theorem words_describe (code : Int32) : words (Code.describe code) = [Code.describe code] := by
  have hnames : ∀ c ∈ Code.all, words c.name = [c.name] := by decide +kernel
  rw [Code.describe]
  split
  · decide
  · split
    · next c hc => exact hnames c (List.mem_of_getElem? hc)
    · decide

/-! ## Entries -/

def entryOf (f : RawField) : Entry :=
  ⟨"#" ++ toString f.key.number, f.key.wireType.name, label false f.key, shownEnd (describeValue f)⟩

def beforeSign (f : RawField) : String :=
  "@" ++ padded f.offset ++ " " ++ ("#" ++ toString f.key.number) ++ " " ++ f.key.wireType.name ++
    " " ++ label false f.key ++ " "

theorem heading_eq (f : RawField) : heading false f = beforeSign f ++ "= " := by
  have hmark : s!" #{f.key.number} " = " " ++ ("#" ++ toString f.key.number) ++ " " := rfl
  have hsign : " = " = " " ++ "= " := rfl
  rw [heading, hmark, hsign, beforeSign]
  simp only [String.append_assoc]
  rfl

theorem sign_notMem_beforeSign (f : RawField) : '=' ∉ (beforeSign f).toList := by
  have hpadded : '=' ∉ (padded f.offset).toList := by
    rw [padded, String.toList_append, List.mem_append, not_or, String.toList_ofList]
    exact ⟨notMem_toString rfl _, fun h => absurd (List.eq_of_mem_replicate h) (by decide)⟩
  have hnumber := notMem_toString (c := '=') rfl f.key.number
  have hname : '=' ∉ f.key.wireType.name.toList := by cases f.key.wireType <;> decide
  have hlabel : '=' ∉ (label false f.key).toList := by
    unfold label
    split
    · decide
    · split <;> decide
  simp only [beforeSign, String.toList_append, List.mem_append, hpadded, hnumber, hname, hlabel,
    or_false]
  decide

theorem behindSign_heading (f : RawField) (value : String) :
    behindSign (heading false f ++ value) = value := by
  have hskip : ∀ c ∈ (beforeSign f).toList, decide (c ≠ '=') = true := by
    intro c hc
    simp only [decide_eq_true_eq]
    rintro rfl
    exact sign_notMem_beforeSign f hc
  have hsign : "= ".toList = ['=', ' '] := rfl
  rw [behindSign, heading_eq, String.append_assoc, String.toList_append, String.toList_append,
    List.dropWhile_append_of_pos hskip, hsign]
  exact String.ofList_toList

theorem words_heading (f : RawField) (value : String) :
    words (heading false f ++ value) =
      ("@" ++ toString f.offset) :: ("#" ++ toString f.key.number) :: f.key.wireType.name ::
        label false f.key :: "=" :: words value := by
  have hline : heading false f ++ value =
      "@" ++ toString f.offset ++
        String.ofList (List.replicate (4 - (toString f.offset).length) ' ') ++ " " ++
        ("#" ++ toString f.key.number) ++ " " ++ f.key.wireType.name ++ " " ++
        label false f.key ++ " " ++ "=" ++ " " ++ value := by
    have hsign : "= " = "=" ++ " " := rfl
    rw [heading_eq, beforeSign, padded, hsign]
    simp only [String.append_assoc]
  have hsign : words "=" = ["="] := by decide
  rw [hline]
  simp only [words_append_blank]
  rw [words_append_blanks, words_number "@" _ (by decide), words_number "#" _ (by decide),
    words_wireType, words_label, hsign]
  rfl

theorem entryOfLine_heading (f : RawField) (value : String) :
    entryOfLine (heading false f ++ value) =
      some ⟨"#" ++ toString f.key.number, f.key.wireType.name, label false f.key,
        shownEnd value⟩ := by
  rw [entryOfLine, words_heading, behindSign_heading]
  rfl

theorem entryOfLine_bareLine (f : RawField) : entryOfLine (bareLine false f) = some (entryOf f) :=
  entryOfLine_heading f (describeValue f)

/-- A listing has an entry for each field, in the same order, and no others. -/
theorem entries_fields {limit : Nat} {fs : List RawField}
    (h : ∀ f ∈ fs, Grammar.IsField limit f.key f.keyLength f.bytes) :
    entries (fields false fs) = fs.map entryOf := by
  rcases List.eq_nil_or_concat fs with rfl | ⟨front, last, rfl⟩
  · decide +kernel
  · rw [List.concat_eq_append] at h ⊢
    have hshown : HasShown (describeValue last) :=
      (describes_describeValue (h last (by simp))).hasShown
    have hlast : entryOfLine (shownEnd (bareLine false last)) = some (entryOf last) := by
      rw [bareLine, shownEnd_append hshown, entryOfLine_heading, shownEnd_shownEnd]
      rfl
    have hfront : (front.map (bareLine false)).filterMap entryOfLine = front.map entryOf := by
      have hline : entryOfLine ∘ bareLine false = some ∘ entryOf := by
        funext f
        rw [Function.comp_apply, entryOfLine_bareLine, Function.comp_apply]
      rw [List.filterMap_map, hline, List.filterMap_eq_map]
    rw [entries, lines_fields false h, List.filterMap_append, hfront, List.map_append]
    rw [List.filterMap_cons_some hlast, List.filterMap_nil, List.map_singleton]

/-! ## The lines of a reply -/

theorem words_between (n : Int) :
    words ("(" ++ toString n ++ ")") = ["(" ++ toString n ++ ")"] := by
  refine words_of_word ?_ ?_
  · intro h
    have hopen : '(' ∈ ("(" ++ toString n ++ ")").toList := by simp
    rw [h] at hopen
    cases hopen
  · have hnumber : ' ' ∉ (toString n).toList := by
      intro h
      cases isBlank_of_mem_toString_int h
    simp only [String.toList_append, List.mem_append, hnumber, or_false]
    decide

theorem words_statusLine (code : Int32) : words (statusLine false code) =
    ["status:", Code.describe code, "(" ++ toString code.toInt ++ ")"] := by
  have hline : statusLine false code =
      "status:" ++ " " ++ Code.describe code ++ " " ++ ("(" ++ toString code.toInt ++ ")") := by
    have hcode : s!" ({code.toInt})" = " " ++ ("(" ++ toString code.toInt ++ ")") := rfl
    rw [statusLine, hcode]
    simp only [String.append_assoc]
    rfl
  have hmark : words "status:" = ["status:"] := by decide
  rw [hline]
  simp only [words_append_blank]
  rw [hmark, words_describe, words_between]
  rfl

theorem words_unknownCount (us : List UnknownField) :
    words (unknownCount false us) = ["unknown", "fields:", toString us.length] := by
  have hline : unknownCount false us = "unknown fields:" ++ " " ++ toString us.length := rfl
  have hmark : words "unknown fields:" = ["unknown", "fields:"] := by decide
  have hnumber := words_number "" us.length (by decide)
  rw [String.empty_append] at hnumber
  rw [hline, words_append_blank, hmark, hnumber]
  rfl

theorem words_bullet (u : UnknownField) :
    words (bullet u) =
      ["-", "#" ++ toString u.number, u.wireType.name, "(" ++ toString u.raw.length, "bytes)"] := by
  have hline : bullet u =
      "  -" ++ " " ++ ("#" ++ toString u.number) ++ " " ++ u.wireType.name ++ " " ++
        ("(" ++ toString u.raw.length) ++ " " ++ "bytes)" := by
    have hnumber : s!"  - #{u.number} " = "  -" ++ " " ++ ("#" ++ toString u.number) ++ " " := rfl
    have hsize : s!" ({u.raw.length} bytes)" =
        " " ++ ("(" ++ toString u.raw.length) ++ (" " ++ "bytes)") := rfl
    rw [bullet, hnumber, hsize]
    simp only [String.append_assoc]
  have hmark : words "  -" = ["-"] := by decide
  have hend : words "bytes)" = ["bytes)"] := by decide
  rw [hline]
  simp only [words_append_blank]
  rw [hmark, words_number "#" _ (by decide), words_wireType, words_number "(" _ (by decide), hend]
  rfl

def jsonMarks : List String := ["\x7b", "\x7d", "\x7b\x7d", "\"errorCode\":", "\"errorMessage\":"]

theorem words_of_mem_jsonLines {r : Reply} {line : String} (h : line ∈ jsonLines r) :
    ∃ mark ∈ jsonMarks, ∃ rest, words line = mark :: rest := by
  have hcode (back : String) :
      words ("  \"errorCode\": " ++ back) = "\"errorCode\":" :: words back := by
    have hname : words "  \"errorCode\":" = ["\"errorCode\":"] := by decide +kernel
    have hsplit := words_append_blank "  \"errorCode\":" back
    rwa [hname] at hsplit
  have htext (back : String) :
      words ("  \"errorMessage\": " ++ back) = "\"errorMessage\":" :: words back := by
    have hname : words "  \"errorMessage\":" = ["\"errorMessage\":"] := by decide +kernel
    have hsplit := words_append_blank "  \"errorMessage\":" back
    rwa [hname] at hsplit
  have hfixed : ∀ brace ∈ ["\x7b", "\x7d", "\x7b\x7d"], words brace = [brace] := by decide
  have hlines : line ∈ ["\x7b", "\x7d", "\x7b\x7d"] ∨ line = codeMember r ∨
      line = codeMember r ++ "," ∨ line = textMember r := by
    unfold jsonLines at h
    split at h <;> split at h
    all_goals
      simp only [List.mem_cons, List.not_mem_nil, or_false] at h ⊢
      tauto
  rcases hlines with hline | rfl | rfl | rfl
  · exact ⟨line, List.mem_append_left ["\"errorCode\":", "\"errorMessage\":"] hline, [],
      hfixed line hline⟩
  · exact ⟨_, by simp [jsonMarks], _, hcode _⟩
  · unfold codeMember
    rw [String.append_assoc]
    exact ⟨_, by simp [jsonMarks], _, hcode _⟩
  · exact ⟨_, by simp [jsonMarks], _, htext _⟩

theorem behind?_of_mem_jsonLines {r : Reply} {line : String} (h : line ∈ jsonLines r)
    {mark : String} (hm : mark ∉ jsonMarks) (marks : List String) :
    behind? (mark :: marks) line = none := by
  obtain ⟨first, hf, rest, hw⟩ := words_of_mem_jsonLines h
  refine behind?_of_ne hw ?_
  rintro rfl
  exact hm hf

/-- Only the lines below the JSON form can begin with a word that no line of it begins with. -/
theorem behind_reply {mark : String} (hm : mark ∉ jsonMarks) (marks : List String) (r : Reply) :
    behind (mark :: marks) (reply false r) =
      (statusLine false r.code :: summaryLines false r.unknown).filterMap
        (behind? (mark :: marks)) := by
  have hjson : (jsonLines r).filterMap (behind? (mark :: marks)) = [] := by
    rw [List.filterMap_eq_nil_iff]
    exact fun line hline => behind?_of_mem_jsonLines hline hm marks
  have hgap : behind? (mark :: marks) "" = none := if_neg (by simp [words_empty])
  rw [behind, lines_reply, replyLines, List.filterMap_append, hjson, List.nil_append,
    List.filterMap_cons_none hgap]

theorem filterMap_summaryLines {α : Type} (read : String → Option α) (us : List UnknownField) :
    (summaryLines false us).filterMap read =
      if us = [] then []
      else (read (unknownCount false us)).toList ++ us.filterMap fun u => read (bullet u) := by
  unfold summaryLines
  split
  · rfl
  · rw [List.filterMap_cons, List.filterMap_map]
    cases read (unknownCount false us) <;> rfl

/-- The status is shown once, with the name of the code and its number. -/
theorem behind_status (r : Reply) :
    behind ["status:"] (reply false r) =
      [[Code.describe r.code, "(" ++ toString r.code.toInt ++ ")"]] := by
  have hstatus : behind? ["status:"] (statusLine false r.code) =
      some [Code.describe r.code, "(" ++ toString r.code.toInt ++ ")"] :=
    behind?_of_words (words_statusLine r.code)
  have hcount : behind? ["status:"] (unknownCount false r.unknown) = none :=
    behind?_of_ne (words_unknownCount r.unknown) (by decide)
  have hbullet (u : UnknownField) : behind? ["status:"] (bullet u) = none :=
    behind?_of_ne (words_bullet u) (by decide)
  rw [behind_reply (by decide), List.filterMap_cons_some hstatus, filterMap_summaryLines, hcount]
  simp [hbullet]

/-- The count is that of the undeclared fields. It is left out if there are none. -/
theorem countShown_reply (r : Reply) :
    countShown (reply false r) = [toString r.unknown.length] := by
  have hstatus : behind? ["unknown", "fields:"] (statusLine false r.code) = none :=
    behind?_of_ne (words_statusLine r.code) (by decide)
  have hcount : behind? ["unknown", "fields:"] (unknownCount false r.unknown) =
      some [toString r.unknown.length] := behind?_of_words (words_unknownCount r.unknown)
  rw [countShown, behind_reply (by decide), List.filterMap_cons_none hstatus,
    filterMap_summaryLines, hcount]
  split
  · next hn =>
    rw [hn]
    rfl
  · rfl

/-- Each undeclared field has a line, in their order. -/
theorem behind_bullets (r : Reply) :
    behind ["-"] (reply false r) = r.unknown.map fun u =>
      ["#" ++ toString u.number, u.wireType.name, "(" ++ toString u.raw.length, "bytes)"] := by
  have hstatus : behind? ["-"] (statusLine false r.code) = none :=
    behind?_of_ne (words_statusLine r.code) (by decide)
  have hcount : behind? ["-"] (unknownCount false r.unknown) = none :=
    behind?_of_ne (words_unknownCount r.unknown) (by decide)
  have hbullet (u : UnknownField) : behind? ["-"] (bullet u) =
      some ["#" ++ toString u.number, u.wireType.name, "(" ++ toString u.raw.length, "bytes)"] :=
    behind?_of_words (words_bullet u)
  rw [behind_reply (by decide), List.filterMap_cons_none hstatus, filterMap_summaryLines, hcount]
  simp only [hbullet]
  split
  · next hn =>
    rw [hn]
    rfl
  · rw [Option.toList_none, List.nil_append, List.filterMap_eq_map']

end Report
end ReflectionError
