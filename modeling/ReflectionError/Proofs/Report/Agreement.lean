import ReflectionError.Proofs.Report.Reading

/-!
# ReflectionError.Proofs.Report.Agreement

A payload is shown in two ways, as the reply that it is decoded to and as the list of its fields.
The two are made by different code and say the same.

* `describeValue_of_isCode`, `describeValue_of_isText`: a declared field is shown as decoding takes
  it.
* `labelled_unknown`, `labelled_code`, `labelled_text`: which fields have which label.
* `Agrees`: what the two reports have in common.
* `reports_agree`: they do, for every payload that is decoded; one that has fields but no reply has
  a text that is refused.
-/

namespace ReflectionError

open Grammar Text

theorem Utf8.repair_eq_textOf (content : List UInt8) :
    Utf8.repair content = Reply.textOf content := by
  rw [Reply.textOf]
  cases h : Utf8.decode content with
  | ok text => exact Utf8.repair_of_decode h
  | error fault => rfl

namespace Report

/-! ## Declared fields -/

theorem describeValue_of_isCode {limit : Nat} {f : RawField}
    (h : IsField limit f.key f.keyLength f.bytes) (hc : f.isCode = true) :
    describeValue f = describeCode f.value := by
  have hk : f.key = Reply.codeKey := by simpa [RawField.isCode] using hc
  obtain ⟨depth, header, value, _, _, hv, hb, hl⟩ := h
  have hp : f.payload = value := RawField.payload_of_append hb hl
  rw [hk, Reply.codeKey] at hv
  cases hv with
  | plain hv =>
    cases hv with
    | varint hd =>
      rw [← hp] at hd
      rw [describeValue_code hk hd, RawField.value_of_denotes hd]

theorem describeValue_of_isText {limit : Nat} {f : RawField}
    (h : IsField limit f.key f.keyLength f.bytes) (ht : f.isText = true) :
    describeValue f = Quoted.string (Reply.textOf f.content) := by
  have hk : f.key = Reply.textKey := by simpa [RawField.isText] using ht
  obtain ⟨depth, header, value, _, _, hv, hb, hl⟩ := h
  have hp : f.payload = value := RawField.payload_of_append hb hl
  rw [hk, Reply.textKey] at hv
  cases hv with
  | plain hv =>
    cases hv with
    | lengthDelimited hd =>
      rw [describeValue_text hk hp hd, RawField.content_of_denotes hp hd, Utf8.repair_eq_textOf]

/-! ## Labels -/

/-- The label of a field says what decoding makes of it. -/
theorem label_classes (f : RawField) :
    decide (label false f.key = "error_code") = f.isCode ∧
      decide (label false f.key = "error_message") = f.isText ∧
      decide (label false f.key = "unknown") = f.isOther := by
  rcases f.key_cases with hk | hk | ho
  · obtain ⟨hc, ht, ho⟩ := RawField.classes_of_codeKey hk
    have hlabel : label false f.key = "error_code" := if_pos hk
    simp [hc, ht, ho, hlabel]
  · obtain ⟨hc, ht, ho⟩ := RawField.classes_of_textKey hk
    have hlabel : label false f.key = "error_message" := by
      rw [hk]
      rfl
    simp [hc, ht, ho, hlabel]
  · obtain ⟨hc, ht⟩ := RawField.classes_of_isOther ho
    obtain ⟨hcode, htext⟩ := RawField.isOther_iff_ne.1 ho
    have hlabel : label false f.key = "unknown" := (if_neg hcode).trans (if_neg htext)
    simp [hc, ht, ho, hlabel]

variable {limit : Nat} {fs : List RawField}

theorem labelled_fields (h : ∀ f ∈ fs, IsField limit f.key f.keyLength f.bytes) (name : String) :
    labelled name (fields false fs) =
      (fs.filter fun f => label false f.key = name).map entryOf := by
  rw [labelled, entries_fields h, List.filter_map]
  rfl

theorem labelled_code (h : ∀ f ∈ fs, IsField limit f.key f.keyLength f.bytes) :
    labelled "error_code" (fields false fs) = (fs.filter RawField.isCode).map entryOf := by
  have hclass : (fun f : RawField => decide (label false f.key = "error_code")) = RawField.isCode :=
    funext fun f => (label_classes f).1
  rw [labelled_fields h, hclass]

theorem labelled_text (h : ∀ f ∈ fs, IsField limit f.key f.keyLength f.bytes) :
    labelled "error_message" (fields false fs) = (fs.filter RawField.isText).map entryOf := by
  have hclass : (fun f : RawField => decide (label false f.key = "error_message")) =
      RawField.isText := funext fun f => (label_classes f).2.1
  rw [labelled_fields h, hclass]

theorem labelled_unknown (h : ∀ f ∈ fs, IsField limit f.key f.keyLength f.bytes) :
    labelled "unknown" (fields false fs) = (fs.filter RawField.isOther).map entryOf := by
  have hclass : (fun f : RawField => decide (label false f.key = "unknown")) = RawField.isOther :=
    funext fun f => (label_classes f).2.2
  rw [labelled_fields h, hclass]

/-! ## Both reports -/

/-- What the report of a reply and the listing of the fields that it was decoded from have in
common. The reply's text is `text`. -/
structure Agrees (report listing text : String) : Prop where
  /-- The count of undeclared fields, a zero where none is shown. -/
  count : countShown report = [toString (labelled "unknown" listing).length]
  /-- The number and wire type of each of them. -/
  summary : (behind ["-"] report).map (·.take 2) =
    (labelled "unknown" listing).map fun e => [e.number, e.wireType]
  /-- The status is that of the last code, and that of a zero if there is none. -/
  status : ∃ name code, behind ["status:"] report = [[name, "(" ++ code ++ ")"]] ∧
    match (labelled "error_code" listing).getLast? with
    | none => name = "OK" ∧ code = "0"
    | some e => e.value = code ++ " (" ++ name ++ ")"
  /-- The last text that is listed is the reply's, which is empty if there is none. -/
  message :
    match (labelled "error_message" listing).getLast? with
    | none => text = ""
    | some e => e.value = Quoted.string text

theorem agrees_status (h : ∀ f ∈ fs, IsField limit f.key f.keyLength f.bytes) :
    match (labelled "error_code" (fields false fs)).getLast? with
    | none => Code.describe (Reply.overlay {} fs).code = "OK" ∧
        toString (Reply.overlay {} fs).code.toInt = "0"
    | some e => e.value = toString (Reply.overlay {} fs).code.toInt ++ " (" ++
        Code.describe (Reply.overlay {} fs).code ++ ")" := by
  have hcode : (Reply.overlay {} fs).code =
      ((fs.filter RawField.isCode).getLast?.map fun f => Reply.codeOfValue f.value).getD 0 := rfl
  rw [labelled_code h, List.getLast?_map, hcode]
  cases hl : (fs.filter RawField.isCode).getLast? with
  | none =>
    rw [Option.map_none, Option.map_none, Option.getD_none]
    exact ⟨rfl, by decide⟩
  | some f =>
    obtain ⟨hf, hc⟩ := List.mem_filter.1 (List.mem_of_getLast? hl)
    have hshown : EndsShown (describeCode f.value) := EndsShown.append ⟨[], ')', rfl, rfl⟩ _
    have hvalue : (entryOf f).value = describeCode f.value := by
      rw [entryOf, describeValue_of_isCode (h f hf) hc, hshown.shownEnd]
    exact hvalue

theorem agrees_message (h : ∀ f ∈ fs, IsField limit f.key f.keyLength f.bytes) :
    match (labelled "error_message" (fields false fs)).getLast? with
    | none => (Reply.overlay {} fs).text = ""
    | some e => e.value = Quoted.string (Reply.overlay {} fs).text := by
  have htext : (Reply.overlay {} fs).text =
      ((fs.filter RawField.isText).getLast?.map fun f => Reply.textOf f.content).getD "" := rfl
  rw [labelled_text h, List.getLast?_map, htext]
  cases hl : (fs.filter RawField.isText).getLast? with
  | none => rfl
  | some f =>
    obtain ⟨hf, ht⟩ := List.mem_filter.1 (List.mem_of_getLast? hl)
    have hvalue : (entryOf f).value = Quoted.string (Reply.textOf f.content) := by
      rw [entryOf, describeValue_of_isText (h f hf) ht, (endsShown_string _).shownEnd]
    exact hvalue

theorem agrees_overlay (h : ∀ f ∈ fs, IsField limit f.key f.keyLength f.bytes) :
    Agrees (reply false (Reply.overlay {} fs)) (fields false fs) (Reply.overlay {} fs).text where
  count := by
    rw [countShown_reply, labelled_unknown h]
    simp [Reply.overlay]
  summary := by
    rw [behind_bullets, labelled_unknown h]
    simp [Reply.overlay, UnknownField.ofRaw, entryOf]
  status := ⟨_, _, behind_status _, agrees_status h⟩
  message := agrees_message h

/-- A payload that is decoded has fields to be listed, and its two reports agree. If the fields of a
payload can be listed but it is not decoded, then text that is no UTF-8 is refused and there is such a
text. -/
theorem reports_agree (payload : List UInt8) (o : Options) :
    (∀ r, Reply.decode payload o = .ok r →
      ∃ fs, readFields payload o = .ok fs ∧ Agrees (reply false r) (fields false fs) r.text) ∧
    (∀ fs e, readFields payload o = .ok fs → Reply.decode payload o = .error e →
      o.strictText = true ∧ ∃ fault, e = .invalidEncoding "error_message" fault) := by
  constructor
  · intro r h
    obtain ⟨fs, hr, _, rfl⟩ := Reply.mergeWith_eq_ok_iff.1 h
    exact ⟨fs, hr, agrees_overlay fun f hf => UnknownField.wellFormed_of_readFields hr hf⟩
  · intro fs e hr he
    rw [Reply.decode_of_readFields hr] at he
    cases hf : Reply.refusal? o fs with
    | none =>
      rw [hf] at he
      cases he
    | some fault =>
      rw [hf] at he
      cases he
      refine ⟨?_, fault, rfl⟩
      by_contra hs
      rw [Reply.refusal?, if_neg hs] at hf
      cases hf

/-- Two codes, the second behind a key of two bytes, both declared numbers with another wire type, a
text that has to be repaired, and a field without content at the end. The text by itself is refused. -/
theorem reports_agree_repaired :
    (∃ fs, readFields [0x08, 0x05, 0x10, 0x01, 0x0d, 0x01, 0x02, 0x03, 0x04, 0x88, 0x00, 0x07,
        0x12, 0x02, 0x68, 0xff, 0x1a, 0x00] { strictText := false } = .ok fs ∧
      Agrees
        (reply false ⟨7, "h\uFFFD", [⟨2, .varint, 1, [0x10, 0x01]⟩,
          ⟨1, .fixed32, 1, [0x0d, 0x01, 0x02, 0x03, 0x04]⟩, ⟨3, .lengthDelimited, 1, [0x1a, 0x00]⟩]⟩)
        (fields false fs) "h\uFFFD") ∧
    (({} : Options).strictText = true ∧
      ∃ fault, DecodeError.invalidEncoding "error_message" ⟨1, some 1⟩ =
        .invalidEncoding "error_message" fault) :=
  ⟨(reports_agree _ _).1 _ (by decide +kernel),
    (reports_agree [0x12, 0x02, 0x68, 0xff] {}).2
      [⟨⟨2, .lengthDelimited⟩, 0, [0x12, 0x02, 0x68, 0xff], 1⟩] _
      (by decide +kernel) (by decide +kernel)⟩

end Report
end ReflectionError
