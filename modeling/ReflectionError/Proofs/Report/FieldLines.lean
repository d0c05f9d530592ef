import Mathlib.Data.List.Forall2
import ReflectionError.Proofs.Reply.Unknown
import ReflectionError.Proofs.Report.Listing

/-!
# ReflectionError.Proofs.Report.FieldLines

The listing of a payload has one line for each of its fields. The payload of a field has been read
before, so that reading it once more for its line cannot fail, and nothing that a field holds makes
a line or a control character.

* `Begins`, `Shows`: the head of a line and the line, with all of its words, and the field that it
  is for.
* `readsPayload`: the second read takes a payload as a whole.
* `shows_lines`: the lines show the fields one by one.
* `mem_lines`: a character of a text is in one of its lines, or divides them.
* `one_line_each`: all of this of a payload that is not empty.
-/

namespace ReflectionError

namespace Text

theorem mem_intercalate_newline {c : Char} {ls : List String}
    (h : c ∈ ("\n".intercalate ls).toList) : c = '\n' ∨ ∃ line ∈ ls, c ∈ line.toList := by
  induction ls with
  | nil => simp at h
  | cons line rest ih =>
    cases rest with
    | nil =>
      rw [String.intercalate_singleton] at h
      exact .inr ⟨line, List.mem_cons_self, h⟩
    | cons next rest =>
      have hnewline : "\n".toList = ['\n'] := rfl
      rw [String.intercalate_cons_cons, String.toList_append, String.toList_append,
        List.mem_append, List.mem_append, hnewline, List.mem_singleton] at h
      rcases h with (h | h) | h
      · exact .inr ⟨line, List.mem_cons_self, h⟩
      · exact .inl h
      · rcases ih h with hc | ⟨l, hl, hc⟩
        · exact .inl hc
        · exact .inr ⟨l, List.mem_cons_of_mem _ hl, hc⟩

theorem mem_lines {c : Char} {s : String} (h : c ∈ s.toList) :
    c = '\n' ∨ ∃ line ∈ lines s, c ∈ line.toList := by
  rw [← intercalate_lines s] at h
  exact mem_intercalate_newline h

theorem HasShown.endsShown {s : String} (hs : HasShown s)
    (h : ∀ c ∈ s.toList, isBlank c = false) : EndsShown s := by
  rcases List.eq_nil_or_concat s.toList with hnil | ⟨front, c, hc⟩
  · obtain ⟨c, hc, -⟩ := hs
    rw [hnil] at hc
    cases hc
  · rw [List.concat_eq_append] at hc
    exact ⟨front, c, hc, h c (by simp [hc])⟩

theorem endsShown_toString (n : Nat) : EndsShown (toString n) :=
  (hasShown_toString n).endsShown fun _ hc => isBlank_of_isDigit (isDigit_of_mem_toString hc)

theorem endsShown_hexText {bytes : List UInt8} (h : bytes ≠ []) :
    EndsShown (Report.hexText bytes) := by
  rw [← Report.encode_eq_hexText]
  refine (hasShown_hex h).endsShown fun c hc => ?_
  have hblank := List.any_eq_false.1 Hex.any_isBlank_digits c (Hex.mem_digits_of_mem_encode hc)
  simpa using hblank

end Text

namespace Report

open Grammar Text

/-! ## Payloads -/

/-- The read that a line asks of the payload of its field succeeds and leaves nothing. -/
def ReadsPayload (f : RawField) : Prop :=
  (f.key.wireType = .varint →
    ∃ n, (Cursor.start f.payload).readVarint = .ok (n, ⟨f.payload.length, []⟩)) ∧
  (f.key.wireType = .lengthDelimited →
    ∃ content, (Cursor.start f.payload).readLengthDelimited =
      .ok (content, ⟨f.payload.length, []⟩))

theorem readsPayload {limit : Nat} {f : RawField} (h : IsField limit f.key f.keyLength f.bytes) :
    ReadsPayload f := by
  obtain ⟨depth, header, value, _, _, hv, hb, hl⟩ := h
  have hp : f.payload = value := RawField.payload_of_append hb hl
  obtain ⟨⟨number, wireType⟩, offset, bytes, keyLength⟩ := f
  cases hv with
  | plain hv =>
    cases hv with
    | varint hd => exact ⟨fun _ => ⟨_, readVarint_payload (hp ▸ hd)⟩, nofun⟩
    | fixed64 _ => exact ⟨nofun, nofun⟩
    | lengthDelimited hd => exact ⟨nofun, fun _ => ⟨_, readLengthDelimited_payload hp hd⟩⟩
    | fixed32 _ => exact ⟨nofun, nofun⟩
  | group _ _ => exact ⟨nofun, nofun⟩

/-! ## Lines -/

/-- What a line begins with: a mark and the offset, with blanks up to four characters behind it, the
number of the field, the name of its wire type, and its label. -/
inductive Begins (color : Bool) (f : RawField) : String → Prop where
  | intro {name label : String} : Named f.key.wireType name → Labelled color f.key label →
      Begins color f
        ("@" ++ String.ofList ((toString f.offset).toList.rightpad 4 ' ') ++
          " #" ++ toString f.key.number ++ " " ++ styled color "36" name ++ " " ++ label ++ " = ")

/-- `line` is the line of a field: what it begins with and the text for the value. The blank behind
a length of zero may be missing. -/
inductive Shows (color : Bool) (f : RawField) : String → Prop where
  | value {front s : String} : Begins color f front → Describes f s → Shows color f (front ++ s)
  | nothing {front : String} : Begins color f front → Describes f "[0 bytes] " →
      Shows color f (front ++ "[0 bytes]")

theorem begins_heading (color : Bool) (f : RawField) : Begins color f (heading color f) := by
  have hnumber : s!" #{f.key.number} " = " #" ++ toString f.key.number ++ " " := rfl
  have hname : paint color .cyan f.key.wireType.name = styled color "36" f.key.wireType.name := rfl
  have hbegins : Begins color f _ := .intro (named_name f.key.wireType) (labelled_label color f.key)
  rw [heading, padded_eq_rightpad, hnumber, hname]
  simpa only [String.append_assoc] using hbegins

/-- The text for a value ends in a blank only if it is that for no bytes. -/
theorem Describes.endsShown {f : RawField} {s : String} (h : Describes f s) :
    EndsShown s ∨ s = "[0 bytes] " := by
  cases h with
  | code _ _ => exact .inl (EndsShown.append ⟨[], ')', rfl, rfl⟩ _)
  | number _ _ _ => exact .inl (endsShown_toString _)
  | text _ _ _ => exact .inl (endsShown_string _)
  | @bytes header content _ _ _ _ =>
    cases content with
    | nil => exact .inr (by decide)
    | cons b content =>
      exact .inl ((endsShown_hexText (List.cons_ne_nil b content)).append _)
  | fixed _ hp => exact .inl (endsShown_hexText (List.ne_nil_of_length_pos hp))
  | group _ => exact .inl (EndsShown.append ⟨" bytes".toList, ']', rfl, rfl⟩ _)

theorem shows_bareLine (color : Bool) {f : RawField} (h : Describes f (describeValue f)) :
    Shows color f (bareLine color f) :=
  .value (begins_heading color f) h

theorem shows_shownEnd (color : Bool) {f : RawField} (h : Describes f (describeValue f)) :
    Shows color f (shownEnd (bareLine color f)) := by
  rw [bareLine, shownEnd_append h.hasShown]
  rcases h.endsShown with hends | hnone
  · rw [hends.shownEnd]
    exact .value (begins_heading color f) h
  · have hlength : shownEnd "[0 bytes] " = "[0 bytes]" := by decide +kernel
    rw [hnone, hlength]
    exact .nothing (begins_heading color f) (hnone ▸ h)

variable {limit : Nat} {fs : List RawField}

theorem shows_lines (color : Bool) (hne : fs ≠ [])
    (h : ∀ f ∈ fs, IsField limit f.key f.keyLength f.bytes) :
    List.Forall₂ (Shows color) fs (lines (fields color fs)) := by
  obtain ⟨front, last, rfl⟩ := (List.eq_nil_or_concat fs).resolve_left hne
  rw [List.concat_eq_append] at h ⊢
  have hdescribes : ∀ f ∈ front ++ [last], Describes f (describeValue f) :=
    fun f hf => describes_describeValue (h f hf)
  rw [lines_fields color h]
  refine List.rel_append ?_ (.cons (shows_shownEnd color (hdescribes last (by simp))) .nil)
  rw [List.forall₂_map_right_iff, List.forall₂_same]
  exact fun f hf => shows_bareLine color (hdescribes f (List.mem_append_left _ hf))

/-! ## Control characters -/

theorem Labelled.printed {key : Key} {label : String} (h : Labelled false key label) :
    Printed label := by
  cases h <;> decide

theorem Begins.printed {f : RawField} {front : String} (h : Begins false f front) :
    Printed front := by
  cases h with
  | intro named labelled =>
    rw [← padded_eq_rightpad]
    have hoffset := (by decide : Printed "@").append (printed_padded f.offset)
    have hnumber := (hoffset.append (by decide : Printed " #")).append
      (printed_toString f.key.number)
    have hname := (hnumber.append (by decide : Printed " ")).append named.printed
    exact ((hname.append (by decide)).append labelled.printed).append (by decide)

theorem Shows.printed {f : RawField} {line : String} (h : Shows false f line) : Printed line := by
  cases h with
  | value hfront h => exact hfront.printed.append h.printed
  | nothing hfront _ => exact hfront.printed.append (by decide)

/-- The only control characters of a listing without colours are the newlines between its lines. -/
theorem eq_newline_of_isControl (hne : fs ≠ [])
    (h : ∀ f ∈ fs, IsField limit f.key f.keyLength f.bytes) {c : Char}
    (hc : c ∈ (fields false fs).toList) (hcontrol : isControl c = true) : c = '\n' := by
  rcases mem_lines hc with hc | ⟨line, hline, hc⟩
  · exact hc
  · have hshows := shows_lines false hne h
    obtain ⟨i, rfl⟩ := List.mem_iff_get.1 hline
    have hline := hshows.get (by rw [hshows.length_eq]; exact i.isLt) i.isLt
    rw [hline.printed c hc] at hcontrol
    cases hcontrol

/-! ## Payloads that are listed -/

theorem ne_nil_of_readFields {payload : List UInt8} {o : Options} (hne : payload ≠ [])
    (h : readFields payload o = .ok fs) : fs ≠ [] := by
  rintro rfl
  exact hne (decomposes_of_readFields h).1.symm

/-- The listing of a payload that is not empty has as many lines as the payload has fields. Each
line begins with the offset, the number, the wire type and the label of its field, and shows the
value that the field holds. The second read that this takes never fails. Without colours, the only
control characters are the newlines that divide the lines. -/
theorem one_line_each {payload : List UInt8} {o : Options} (hne : payload ≠ [])
    (h : readFields payload o = .ok fs) (color : Bool) :
    (lines (fields color fs)).length = fs.length ∧
    List.Forall₂ (Shows color) fs (lines (fields color fs)) ∧
    (∀ f ∈ fs, ReadsPayload f) ∧
    ∀ c ∈ (fields false fs).toList, isControl c = true → c = '\n' := by
  have hfield : ∀ f ∈ fs, IsField (min o.nestingLimit maxNesting) f.key f.keyLength f.bytes :=
    fun f hf => UnknownField.wellFormed_of_readFields h hf
  have hsome := ne_nil_of_readFields hne h
  have hshows := shows_lines color hsome hfield
  exact ⟨hshows.length_eq.symm, hshows, fun f hf => readsPayload (hfield f hf),
    fun c hc => eq_newline_of_isControl hsome hfield hc⟩

/-- A code, a text with a newline in it that has to be repaired, a group, both declared numbers with
another wire type, bytes, and a field whose length is a zero of two bytes. -/
theorem one_line_each_newline_in_text :
    let payload : List UInt8 :=
      [0x08, 0x05, 0x12, 0x02, 0x0a, 0xff, 0x23, 0x24, 0x0d, 0x0a, 0xb0, 0x00, 0xff, 0x1a, 0x02,
        0x0a, 0xff, 0x10, 0xac, 0x02, 0x1a, 0x80, 0x00]
    let fs : List RawField :=
      [⟨⟨1, .varint⟩, 0, [0x08, 0x05], 1⟩, ⟨⟨2, .lengthDelimited⟩, 2, [0x12, 0x02, 0x0a, 0xff], 1⟩,
        ⟨⟨4, .startGroup⟩, 6, [0x23, 0x24], 1⟩,
        ⟨⟨1, .fixed32⟩, 8, [0x0d, 0x0a, 0xb0, 0x00, 0xff], 1⟩,
        ⟨⟨3, .lengthDelimited⟩, 13, [0x1a, 0x02, 0x0a, 0xff], 1⟩,
        ⟨⟨2, .varint⟩, 17, [0x10, 0xac, 0x02], 1⟩,
        ⟨⟨3, .lengthDelimited⟩, 20, [0x1a, 0x80, 0x00], 1⟩]
    payload ≠ [] ∧ readFields payload {} = .ok fs ∧
      lines (fields false fs) =
        ["@0    #1 varint error_code = 5 (NOT_FOUND)",
          "@2    #2 length-delimited error_message = \"\\n\uFFFD\"",
          "@6    #4 start-group unknown = group [1 bytes]",
          "@8    #1 fixed32 unknown = 0ab000ff",
          "@13   #3 length-delimited unknown = [2 bytes] 0aff",
          "@17   #2 varint unknown = 300",
          "@20   #3 length-delimited unknown = [0 bytes]"] ∧
      List.Forall₂ (Shows false) fs (lines (fields false fs)) ∧ (∀ f ∈ fs, ReadsPayload f) ∧
      ∀ c ∈ (fields false fs).toList, isControl c = true → c = '\n' := by
  intro payload fs
  have hne : payload ≠ [] := List.cons_ne_nil _ _
  have hread : readFields payload {} = .ok fs := by decide +kernel
  exact ⟨hne, hread, by decide +kernel, (one_line_each hne hread false).2⟩

end Report
end ReflectionError
