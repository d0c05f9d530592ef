import ReflectionError.Proofs.Report

/-!
# ReflectionError.Proofs.Report.Listing

The listing of the fields of a payload. A field that was read holds a value of its wire type, so its
line tells of no error, and no line has a newline in it.

* `Describes`: the text for a value of each wire type.
* `describes_describeValue`: it is shown for a field that was read.
* `Describes.printed`: it has no control character.
* `lines_fields`: the lines of a listing are those of the fields. Only blanks at the end of the last
  one are left out.
-/

namespace ReflectionError
namespace Report

open Grammar Text

/-! ## Values -/

/-- `s` is the text for the value of a field, which is one of the field's wire type. -/
inductive Describes (f : RawField) : String → Prop where
  | code {n : Nat} : f.key = ⟨1, .varint⟩ → Varint.Denotes f.payload n →
      Describes f (toString (Int32.ofNat n).toInt ++ " (" ++ codeLabel (Int32.ofNat n) ++ ")")
  | number {n : Nat} : f.key.wireType = .varint → f.key ≠ ⟨1, .varint⟩ →
      Varint.Denotes f.payload n → Describes f (toString n)
  | text {header content : List UInt8} : f.key = ⟨2, .lengthDelimited⟩ →
      f.payload = header ++ content → Varint.Denotes header content.length →
      Describes f (Quoted.string (Utf8.repair content))
  | bytes {header content : List UInt8} : f.key.wireType = .lengthDelimited →
      f.key ≠ ⟨2, .lengthDelimited⟩ → f.payload = header ++ content →
      Varint.Denotes header content.length →
      Describes f ("[" ++ toString content.length ++ " bytes] " ++ hexText content)
  | fixed : f.key.wireType = .fixed32 ∨ f.key.wireType = .fixed64 → 0 < f.payload.length →
      Describes f (hexText f.payload)
  | group : f.key.wireType = .startGroup →
      Describes f ("group [" ++ toString f.payload.length ++ " bytes]")

theorem number_ne_of_wireType {key : Key} {number : Nat} {w : WireType} (hw : key.wireType = w)
    (h : key ≠ ⟨number, w⟩) : key.number ≠ number := by
  rintro rfl
  subst hw
  exact h rfl

theorem describes_of_varint {f : RawField} {n : Nat} (hw : f.key.wireType = .varint)
    (hd : Varint.Denotes f.payload n) : Describes f (describeValue f) := by
  by_cases hk : f.key = Reply.codeKey
  · rw [describeValue_code hk hd, describeCode_eq]
    exact .code hk hd
  · have hnumber : f.key.number ≠ Reply.codeField := number_ne_of_wireType hw hk
    have hvalue : describeValue f = toString n := by
      rw [describeValue, hw]
      simp only [readVarint_payload hd, found, if_neg hnumber]
    rw [hvalue]
    exact .number hw hk hd

theorem describes_of_lengthDelimited {f : RawField} {header content : List UInt8}
    (hw : f.key.wireType = .lengthDelimited) (hp : f.payload = header ++ content)
    (hd : Varint.Denotes header content.length) : Describes f (describeValue f) := by
  by_cases hk : f.key = Reply.textKey
  · rw [describeValue_text hk hp hd]
    exact .text hk hp hd
  · have hnumber : f.key.number ≠ Reply.textField := number_ne_of_wireType hw hk
    have hvalue : describeValue f = describeBytes content := by
      rw [describeValue, hw]
      simp only [readLengthDelimited_payload hp hd, found, if_neg hnumber]
    rw [hvalue, describeBytes_eq]
    exact .bytes hw hk hp hd

theorem describes_of_fixed {f : RawField}
    (hw : f.key.wireType = .fixed32 ∨ f.key.wireType = .fixed64) (hp : 0 < f.payload.length) :
    Describes f (describeValue f) := by
  have hvalue : describeValue f = hexText f.payload := by
    rw [← encode_eq_hexText, describeValue]
    rcases hw with hw | hw <;> rw [hw]
  rw [hvalue]
  exact .fixed hw hp

/-- The value of a field that was read is shown, never an error. -/
theorem describes_describeValue {limit : Nat} {f : RawField}
    (h : IsField limit f.key f.keyLength f.bytes) : Describes f (describeValue f) := by
  obtain ⟨depth, header, value, _, _, hv, hb, hl⟩ := h
  have hp : f.payload = value := RawField.payload_of_append hb hl
  obtain ⟨⟨number, wireType⟩, offset, bytes, keyLength⟩ := f
  cases hv with
  | plain hv =>
    cases hv with
    | varint hd => exact describes_of_varint rfl (hp ▸ hd)
    | fixed64 hlen => exact describes_of_fixed (.inr rfl) (by rw [hp]; omega)
    | lengthDelimited hd => exact describes_of_lengthDelimited rfl hp hd
    | fixed32 hlen => exact describes_of_fixed (.inl rfl) (by rw [hp]; omega)
  | group _ _ => exact .group rfl

theorem printed_describe (code : Int32) : Printed (Code.describe code) := by
  have hnames : ∀ c ∈ Code.all, Printed c.name := by decide
  rw [Code.describe]
  split
  · decide
  · split
    · next c hc => exact hnames c (List.mem_of_getElem? hc)
    · decide

theorem printed_codeLabel (code : Int32) : Printed (codeLabel code) := by
  rw [← describe_eq_codeLabel]
  exact printed_describe code

theorem printed_hexText (bytes : List UInt8) : Printed (hexText bytes) := by
  rw [← encode_eq_hexText]
  exact printed_hex bytes

theorem hasShown_hexText {bytes : List UInt8} (h : bytes ≠ []) : HasShown (hexText bytes) := by
  rw [← encode_eq_hexText]
  exact hasShown_hex h

theorem Describes.printed {f : RawField} {s : String} (h : Describes f s) : Printed s := by
  cases h with
  | code _ _ =>
    exact (((printed_toString_int _).append (by decide)).append (printed_codeLabel _)).append
      (by decide)
  | number _ _ _ => exact printed_toString _
  | text _ _ _ => exact printed_string _
  | bytes _ _ _ _ =>
    exact (((by decide : Printed "[").append (printed_toString _)).append (by decide)).append
      (printed_hexText _)
  | fixed _ _ => exact printed_hexText _
  | group _ =>
    exact ((by decide : Printed "group [").append (printed_toString _)).append (by decide)

theorem Describes.hasShown {f : RawField} {s : String} (h : Describes f s) : HasShown s := by
  cases h with
  | code _ _ => exact (by decide : HasShown ")").prepend _
  | number _ _ _ => exact hasShown_toString _
  | text _ _ _ => exact (endsShown_string _).hasShown
  | bytes _ _ _ _ => exact (((by decide : HasShown "[").append _).append _).append _
  | fixed _ hp => exact hasShown_hexText (List.ne_nil_of_length_pos hp)
  | group _ => exact (by decide : HasShown " bytes]").prepend _

/-! ## Lines -/

def heading (color : Bool) (f : RawField) : String :=
  "@" ++ padded f.offset ++ s!" #{f.key.number} " ++ paint color .cyan f.key.wireType.name ++
    " " ++ label color f.key ++ " = "

/-- The line of a field, without the newline at its end. -/
def bareLine (color : Bool) (f : RawField) : String := heading color f ++ describeValue f

theorem oneLine_paint (color : Bool) (c : Colour) {s : String} (h : OneLine s) :
    OneLine (paint color c s) := by
  unfold paint
  split
  · have hopen : OneLine ("\x1b[" ++ c.parameters ++ "m") := by cases c <;> decide
    exact (hopen.append h).append (by decide)
  · exact h

theorem printed_padded (n : Nat) : Printed (padded n) := by
  refine (printed_toString n).append ?_
  intro c hc
  rw [String.toList_ofList] at hc
  rw [List.eq_of_mem_replicate hc]
  rfl

theorem Named.printed {w : WireType} {name : String} (h : Named w name) : Printed name := by
  cases h <;> decide

theorem Labelled.oneLine {color : Bool} {key : Key} {label : String}
    (h : Labelled color key label) : OneLine label := by
  cases h <;> cases color <;> decide

theorem oneLine_heading (color : Bool) (f : RawField) : OneLine (heading color f) := by
  have hoffset := ((by decide : Printed "@").append (printed_padded f.offset)).oneLine
  have hnumber := (((by decide : Printed " #").append (printed_toString f.key.number)).append
    (by decide : Printed " ")).oneLine
  have hname := (named_name f.key.wireType).printed.oneLine
  have hlabel := (labelled_label color f.key).oneLine
  exact ((((hoffset.append hnumber).append (oneLine_paint color .cyan hname)).append
    (by decide)).append hlabel).append (by decide)

/-- The lines of the listing of a payload are those of its fields, one for each. -/
theorem lines_fields (color : Bool) {limit : Nat} {front : List RawField} {last : RawField}
    (h : ∀ f ∈ front ++ [last], IsField limit f.key f.keyLength f.bytes) :
    lines (fields color (front ++ [last])) =
      front.map (bareLine color) ++ [shownEnd (bareLine color last)] := by
  have hdescribes : ∀ f ∈ front ++ [last], Describes f (describeValue f) :=
    fun f hf => describes_describeValue (h f hf)
  have hone : ∀ f ∈ front ++ [last], OneLine (bareLine color f) :=
    fun f hf => (oneLine_heading color f).append (hdescribes f hf).printed.oneLine
  have hlines : (front ++ [last]).map (fieldLine color) =
      (front.map (bareLine color) ++ [bareLine color last]).map (· ++ "\n") := by
    rw [List.map_append, List.map_append, List.map_map]
    rfl
  have hlast : HasShown (bareLine color last) := (hdescribes last (by simp)).hasShown.prepend _
  rw [fields_of_lines hlines hlast, lines_intercalate (by simp)]
  intro line hline
  rcases List.mem_append.1 hline with hline | hline
  · obtain ⟨f, hf, rfl⟩ := List.mem_map.1 hline
    exact hone f (List.mem_append_left _ hf)
  · rw [List.mem_singleton.1 hline]
    exact (hone last (by simp)).shownEnd

end Report
end ReflectionError
