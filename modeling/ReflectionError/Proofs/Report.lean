import ReflectionError.Proofs.Reply.RoundTrip
import ReflectionError.Proofs.Report.Wording
import ReflectionError.Proofs.Text.Printed

/-!
# ReflectionError.Proofs.Report

What is listed of the fields that a reply without undeclared fields is written as.

* `fields_of_lines`: a listing is its lines, the last one without the blanks behind it.
* `describeValue_code`, `describeValue_text`: the values of declared fields.
* `declaredLines`, `listing`: the lines for the values that are set, letter by letter.
* `fields_asFields`: the listing has these and no others.
-/

namespace ReflectionError

namespace Report

open UnknownField Reply Text

/-! ## Lines -/

theorem intercalate_concat (lines : List String) (last : String) :
    "\n".intercalate (lines ++ [last]) = String.join (lines.map (· ++ "\n")) ++ last := by
  induction lines with
  | nil => simp
  | cons line lines ih =>
    rw [List.cons_append, ← List.singleton_append,
      String.intercalate_append_of_ne_nil (by simp) (by simp), ih, List.map_cons, String.join_cons,
      String.intercalate_singleton]
    simp only [String.append_assoc]

/-- A listing is its lines, one below the other. Blanks behind the last one are left out. -/
theorem fields_of_lines {color : Bool} {fs : List RawField} {lines : List String} {last : String}
    (h : fs.map (fieldLine color) = (lines ++ [last]).map (· ++ "\n")) (hlast : HasShown last) :
    fields color fs = "\n".intercalate (lines ++ [shownEnd last]) := by
  have hne : fs ≠ [] := by
    rintro rfl
    simp at h
  have hjoin : String.join (fs.map (fieldLine color)) =
      String.join (lines.map (· ++ "\n")) ++ last ++ "\n" := by
    rw [h, List.map_append, String.join_append, String.append_assoc]
    simp [String.join]
  have hfields : fields color fs = shownEnd (String.join (fs.map (fieldLine color))) := if_neg hne
  rw [hfields, hjoin, shownEnd_newline, shownEnd_append hlast, intercalate_concat]

/-! ## Payloads -/

theorem readVarint_payload {f : RawField} {n : Nat} (hd : Varint.Denotes f.payload n) :
    (Cursor.start f.payload).readVarint = .ok (n, ⟨f.payload.length, []⟩) := by
  have hp := Cursor.passes_start f.payload []
  rw [List.append_nil] at hp
  exact Cursor.readVarint_eq_ok_iff.2 ⟨_, hd, hp⟩

theorem readLengthDelimited_payload {f : RawField} {header content : List UInt8}
    (hp : f.payload = header ++ content) (hd : Varint.Denotes header content.length) :
    (Cursor.start f.payload).readLengthDelimited = .ok (content, ⟨f.payload.length, []⟩) := by
  have hpass := Cursor.passes_start f.payload []
  rw [List.append_nil] at hpass
  exact Cursor.readLengthDelimited_eq_ok_iff.2 ⟨header, hd, hp ▸ hpass⟩

/-! ## Declared fields -/

theorem describeValue_code {f : RawField} {n : Nat} (hk : f.key = Reply.codeKey)
    (hd : Varint.Denotes f.payload n) : describeValue f = describeCode n := by
  rw [describeValue, hk]
  simp only [Reply.codeKey, readVarint_payload hd, found, if_true]

theorem describeValue_text {f : RawField} {header content : List UInt8}
    (hk : f.key = Reply.textKey) (hp : f.payload = header ++ content)
    (hd : Varint.Denotes header content.length) :
    describeValue f = Quoted.string (Utf8.repair content) := by
  rw [describeValue, hk]
  simp only [Reply.textKey, readLengthDelimited_payload hp hd, found, if_true]

/-! ## A reply without undeclared fields -/

/-- The line of a code that is set, which is the first. -/
def codeLine (color : Bool) (code : Int32) : String :=
  "@0    #1 " ++ styled color "36" "varint" ++ " " ++ styled color "32" "error_code" ++ " = " ++
    (toString code.toInt ++ " (" ++ codeLabel code ++ ")")

/-- The line of a text that is set and stands behind so many bytes. -/
def textLine (color : Bool) (offset : Nat) (text : String) : String :=
  "@" ++ String.ofList ((toString offset).toList.rightpad 4 ' ') ++ " #2 " ++
    styled color "36" "length-delimited" ++ " " ++ styled color "32" "error_message" ++ " = " ++
    Quoted.string text

def codeLength (code : Int32) : Nat :=
  if code = 0 then 0 else 1 + Varint.length (Reply.codeValue code)

/-- A line for each of code and text that is set. -/
def declaredLines (color : Bool) (code : Int32) (text : String) : List String :=
  (if code = 0 then [] else [codeLine color code]) ++
    (if text = "" then [] else [textLine color (codeLength code) text])

/-- The lines one below the other, or that there are none. -/
def listing (color : Bool) (lines : List String) : String :=
  if lines = [] then styled color "33" "Empty payload (all fields at their defaults)."
  else "\n".intercalate lines

theorem describeCode_codeValue (code : Int32) :
    describeCode (codeValue code) = toString code.toInt ++ " (" ++ codeLabel code ++ ")" := by
  rw [describeCode, codeOfValue_codeValue, ← describe_eq_codeLabel]
  rfl

theorem fieldLine_code (color : Bool) {code : Int32} {f : RawField}
    (hf : ofRaw f = codeAsField code) (ho : f.offset = 0) :
    fieldLine color f = codeLine color code ++ "\n" := by
  have hk : f.key = codeKey := key_of_ofRaw hf
  have hp : f.payload = Varint.encode (codeValue code) :=
    RawField.payload_of_append (congrArg raw hf) (congrArg keyLength hf)
  have hvalue : describeValue f = toString code.toInt ++ " (" ++ codeLabel code ++ ")" := by
    rw [describeValue_code hk (hp ▸ Varint.denotes_encode (codeValue_lt code)),
      describeCode_codeValue]
  have hnumber : s!" #{codeKey.number} " = " #1 " := by decide
  have hlabel : label color codeKey = styled color "32" "error_code" := if_pos rfl
  have hoffset : "@" ++ padded 0 ++ " #1 " = "@0    #1 " := by decide
  rw [fieldLine, hvalue, hk, ho, hnumber, hlabel, hoffset]
  rfl

theorem fieldLine_text (color : Bool) {text : String} {f : RawField}
    (hf : ofRaw f = textAsField text) (ht : text.utf8ByteSize < 2 ^ 64) :
    fieldLine color f = textLine color f.offset text ++ "\n" := by
  have hk : f.key = textKey := key_of_ofRaw hf
  have hp : f.payload = Varint.encode text.utf8ByteSize ++ Utf8.encode text :=
    RawField.payload_of_append (congrArg raw hf) (congrArg keyLength hf)
  have hvalue : describeValue f = Quoted.string text := by
    rw [describeValue_text hk hp (denotes_textLength ht), Utf8.repair_encode]
  have hnumber : s!" #{textKey.number} " = " #2 " := by decide
  have hlabel : label color textKey = styled color "32" "error_message" := rfl
  rw [fieldLine, hvalue, hk, hnumber, hlabel, padded_eq_rightpad]
  rfl

theorem endsShown_codeLine (color : Bool) (code : Int32) : EndsShown (codeLine color code) :=
  (EndsShown.append ⟨[], ')', rfl, by decide⟩ _).append _

theorem endsShown_textLine (color : Bool) (offset : Nat) (text : String) :
    EndsShown (textLine color offset text) :=
  (endsShown_string text).append _

theorem length_codeAsField (code : Int32) :
    (codeAsField code).raw.length = 1 + Varint.length (codeValue code) := by
  have hkey : codeKey.encode.length = 1 := length_encode_codeKey.trans (by decide)
  rw [codeAsField, List.length_append, hkey, Varint.length_encode (codeValue_lt code)]

theorem map_fieldLine_asFields (color : Bool) (code : Int32) {text : String}
    (ht : text.utf8ByteSize < 2 ^ 64) :
    (locate 0 (Reply.new code text).asFields).map (fieldLine color) =
      (declaredLines color code text).map (· ++ "\n") := by
  have hcode : (locate 0 (if code = 0 then [] else [codeAsField code])).map (fieldLine color) =
      (if code = 0 then [] else [codeLine color code]).map (· ++ "\n") := by
    split
    · rfl
    · exact congrArg ([·]) (fieldLine_code color rfl rfl)
  have htext (offset : Nat) :
      (locate offset (if text = "" then [] else [textAsField text])).map (fieldLine color) =
        (if text = "" then [] else [textLine color offset text]).map (· ++ "\n") := by
    split
    · rfl
    · exact congrArg ([·]) (fieldLine_text color rfl ht)
  have hoffset : (encodeAll (if code = 0 then [] else [codeAsField code])).length =
      codeLength code := by
    rw [codeLength]
    split
    · rfl
    · rw [← length_codeAsField, encodeAll, List.flatMap_singleton]
  rw [asFields, Reply.new, List.append_nil, locate_append, List.map_append, hcode, htext, hoffset,
    Nat.zero_add, declaredLines, List.map_append]

/-- The listing of what a reply is written as has the values that are set and nothing else. -/
theorem fields_asFields (color : Bool) (code : Int32) {text : String}
    (ht : text.utf8ByteSize < 2 ^ 64) :
    fields color (locate 0 (Reply.new code text).asFields) =
      listing color (declaredLines color code text) := by
  have hlines := map_fieldLine_asFields color code ht
  have hshown : ∀ line ∈ declaredLines color code text, EndsShown line := by
    intro line hline
    rcases List.mem_append.1 hline with hline | hline
    · rw [List.mem_ite_nil_left, List.mem_singleton] at hline
      exact hline.2 ▸ endsShown_codeLine color code
    · rw [List.mem_ite_nil_left, List.mem_singleton] at hline
      exact hline.2 ▸ endsShown_textLine color _ text
  rw [listing]
  generalize declaredLines color code text = lines at hlines hshown
  rcases List.eq_nil_or_concat lines with rfl | ⟨front, last, rfl⟩
  · rw [List.map_nil, List.map_eq_nil_iff] at hlines
    rw [hlines, fields, if_pos rfl, if_pos rfl]
    rfl
  · rw [List.concat_eq_append] at hlines hshown ⊢
    have hlast : EndsShown last := hshown last (by simp)
    rw [if_neg (by simp), fields_of_lines hlines hlast.hasShown, hlast.shownEnd]

end Report
end ReflectionError
