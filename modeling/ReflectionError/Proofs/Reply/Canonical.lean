import ReflectionError.Proofs.Reply.RoundTrip

/-!
# ReflectionError.Proofs.Reply.Canonical

Payloads that come back byte for byte. A reply can be spelled in many ways: with long keys and
varints, with zeros that are written, with declared fields more than once or among others. Encoding
what was decoded keeps one of them. `Canonical` says of the fields of a payload that it is this one.

* `canonical_iff`: fields are canonical if and only if they are those that some reply is written as.
* `text_lt_of_overlay`: a text that was not repaired is no longer than a length can say.
* `encode_eq_iff_canonical`: a payload comes back if and only if its fields are canonical.
* `encode_normalises_decoded`: what comes back, when it is what was there, and that it then stays.
-/

namespace ReflectionError
namespace Reply

open Grammar UnknownField

/-- A code that is set, behind a key of one byte, in as few bytes as it can have. -/
def IsShortCode (f : RawField) : Prop :=
  f.key = codeKey ∧ f.keyLength = 1 ∧ codeOfValue f.value ≠ 0 ∧
    Varint.Minimal f.payload (codeValue (codeOfValue f.value))

/-- A text that is set, behind a key of one byte, with its length in as few bytes as it can have. -/
def IsShortText (f : RawField) : Prop :=
  f.key = textKey ∧ f.keyLength = 1 ∧ f.content ≠ [] ∧
    ∃ length, Varint.Minimal length f.content.length ∧ f.payload = length ++ f.content

/-- At most one code, then at most one text, both short, then only undeclared fields. -/
def Canonical (fields : List RawField) : Prop :=
  ∃ codes texts others, fields = codes ++ texts ++ others ∧
    (codes.length ≤ 1 ∧ ∀ f ∈ codes, IsShortCode f) ∧
    (texts.length ≤ 1 ∧ ∀ f ∈ texts, IsShortText f) ∧ ∀ f ∈ others, f.isOther = true

theorem encode_codeKey : codeKey.encode = [0x08] := Varint.encode_of_lt (by decide)

theorem encode_textKey : textKey.encode = [0x12] := Varint.encode_of_lt (by decide)

/-! ## Short fields -/

section Fields

variable {limit : Nat} {f : RawField}

theorem bytes_of_keyLength_eq_one (hf : IsField limit f.key f.keyLength f.bytes)
    (hl : f.keyLength = 1) : f.bytes = f.key.encode ++ f.payload := by
  obtain ⟨depth, header, value, _, hk, _, hb, hh⟩ := hf
  rw [RawField.payload_of_append hb hh, hb]
  rw [hk.2.2.eq_encode_of_length_eq_one (hh.symm.trans hl), Key.encode]

theorem denotes_content (hf : IsField limit f.key f.keyLength f.bytes) (hk : f.key = textKey) :
    ∃ length, Varint.Denotes length f.content.length ∧ f.payload = length ++ f.content := by
  obtain ⟨depth, header, value, _, _, hv, hb, hh⟩ := hf
  have hp := RawField.payload_of_append hb hh
  rw [hk] at hv
  cases hv with
  | plain hv =>
    cases hv with
    | lengthDelimited hd =>
      rw [RawField.content_of_denotes hp hd]
      exact ⟨_, hd, hp⟩

theorem encode_textOf (h : faultOf? f = none) : Utf8.encode (textOf f.content) = f.content := by
  rw [faultOf?] at h
  rw [textOf]
  cases hd : Utf8.decode f.content with
  | ok text => exact Utf8.encode_of_decode hd
  | error fault =>
    rw [hd] at h
    cases h

theorem size_textOf (h : faultOf? f = none) :
    (textOf f.content).utf8ByteSize = f.content.length := by
  rw [← Utf8.length_encode, encode_textOf h]

theorem ofRaw_of_isShortCode (hf : IsField limit f.key f.keyLength f.bytes) (h : IsShortCode f) :
    ofRaw f = codeAsField (codeOfValue f.value) := by
  obtain ⟨hk, hl, _, hm⟩ := h
  have hb := bytes_of_keyLength_eq_one hf hl
  rw [hk, hm.eq_encode] at hb
  rw [ofRaw, codeAsField, hk, hl, hb, encode_codeKey]
  rfl

theorem isShortCode_of_ofRaw {code : Int32} (hc : code ≠ 0) (h : ofRaw f = codeAsField code) :
    IsShortCode f := by
  have hv : codeOfValue f.value = code := by
    rw [value_of_codeAsField h, codeOfValue_codeValue]
  have hp : f.payload = Varint.encode (codeValue code) :=
    RawField.payload_of_append (congrArg raw h) (congrArg keyLength h)
  have hl : f.keyLength = 1 := (congrArg keyLength h).trans (congrArg List.length encode_codeKey)
  refine ⟨key_of_ofRaw h, hl, ?_, ?_⟩
  · rw [hv]
    exact hc
  · rw [hv, hp]
    exact Varint.minimal_encode _

theorem ofRaw_of_isShortText (hf : IsField limit f.key f.keyLength f.bytes)
    (hx : faultOf? f = none) (h : IsShortText f) : ofRaw f = textAsField (textOf f.content) := by
  obtain ⟨hk, hl, _, length, hm, hp⟩ := h
  have hb := bytes_of_keyLength_eq_one hf hl
  rw [hk, hp, hm.eq_encode] at hb
  rw [ofRaw, textAsField, hk, hl, hb, encode_textKey, size_textOf hx, encode_textOf hx]
  rfl

theorem isShortText_of_ofRaw {text : String} (ht : text ≠ "") (hl : text.utf8ByteSize < 2 ^ 64)
    (h : ofRaw f = textAsField text) : IsShortText f := by
  have hc := content_of_textAsField h hl
  have hp : f.payload = Varint.encode text.utf8ByteSize ++ Utf8.encode text :=
    RawField.payload_of_append (congrArg raw h) (congrArg keyLength h)
  have hk : f.keyLength = 1 := (congrArg keyLength h).trans (congrArg List.length encode_textKey)
  refine ⟨key_of_ofRaw h, hk, ?_, Varint.encode text.utf8ByteSize, ?_, by rw [hp, hc]⟩
  · intro hn
    have hz := Utf8.length_encode text
    rw [← hc, hn, List.length_nil] at hz
    exact ht (String.utf8ByteSize_eq_zero_iff.1 hz.symm)
  · rw [hc, Utf8.length_encode]
    exact Varint.minimal_encode _

end Fields

/-! ## Canonical fields -/

section Canonical

variable {limit : Nat} {fields : List RawField}

theorem code_of_short_codes (hf : ∀ f ∈ fields, IsField limit f.key f.keyLength f.bytes)
    (hl : fields.length ≤ 1) (hs : ∀ f ∈ fields, IsShortCode f) :
    ∃ code, fields.map ofRaw = if code = 0 then [] else [codeAsField code] := by
  cases fields with
  | nil => exact ⟨0, rfl⟩
  | cons f more =>
    obtain rfl : more = [] := List.length_eq_zero_iff.1 (by simpa using hl)
    have hc := hs f (List.mem_cons_self ..)
    refine ⟨codeOfValue f.value, ?_⟩
    rw [if_neg hc.2.2.1, ← ofRaw_of_isShortCode (hf f (List.mem_cons_self ..)) hc]
    rfl

theorem text_of_short_texts (hf : ∀ f ∈ fields, IsField limit f.key f.keyLength f.bytes)
    (hx : ∀ f ∈ fields, f.isText = true → faultOf? f = none) (hl : fields.length ≤ 1)
    (hs : ∀ f ∈ fields, IsShortText f) :
    ∃ text, text.utf8ByteSize < 2 ^ 64 ∧
      fields.map ofRaw = if text = "" then [] else [textAsField text] := by
  cases fields with
  | nil => exact ⟨"", by decide, rfl⟩
  | cons f more =>
    obtain rfl : more = [] := List.length_eq_zero_iff.1 (by simpa using hl)
    have hm := List.mem_cons_self (a := f) (l := [])
    have ht := hs f hm
    have hn := hx f hm (RawField.classes_of_textKey ht.1).2.1
    obtain ⟨length, hd, _⟩ := denotes_content (hf f hm) ht.1
    refine ⟨textOf f.content, by rw [size_textOf hn]; exact hd.lt, ?_⟩
    rw [if_neg, ← ofRaw_of_isShortText (hf f hm) hn ht]
    · rfl
    · intro he
      have hz := size_textOf hn
      rw [he] at hz
      exact ht.2.2.1 (List.length_eq_zero_iff.1 hz.symm)

theorem short_codes {code : Int32}
    (h : fields.map ofRaw = if code = 0 then [] else [codeAsField code]) :
    fields.length ≤ 1 ∧ ∀ f ∈ fields, IsShortCode f := by
  split at h
  · obtain rfl := List.map_eq_nil_iff.1 h
    exact ⟨Nat.zero_le _, fun f hf => nomatch hf⟩
  · next hc =>
    obtain ⟨f, rfl, hf⟩ := List.map_eq_singleton_iff.1 h
    refine ⟨Nat.le_refl _, fun g hg => ?_⟩
    rw [List.mem_singleton.1 hg]
    exact isShortCode_of_ofRaw hc hf

theorem short_texts {text : String} (hl : text.utf8ByteSize < 2 ^ 64)
    (h : fields.map ofRaw = if text = "" then [] else [textAsField text]) :
    fields.length ≤ 1 ∧ ∀ f ∈ fields, IsShortText f := by
  split at h
  · obtain rfl := List.map_eq_nil_iff.1 h
    exact ⟨Nat.zero_le _, fun f hf => nomatch hf⟩
  · next ht =>
    obtain ⟨f, rfl, hf⟩ := List.map_eq_singleton_iff.1 h
    refine ⟨Nat.le_refl _, fun g hg => ?_⟩
    rw [List.mem_singleton.1 hg]
    exact isShortText_of_ofRaw ht hl hf

/-- Fields whose texts are UTF-8 are canonical if and only if a reply is written as them. -/
theorem canonical_iff (hf : ∀ f ∈ fields, IsField limit f.key f.keyLength f.bytes)
    (hx : ∀ f ∈ fields, f.isText = true → faultOf? f = none) :
    Canonical fields ↔
      ∃ m : Reply, m.text.utf8ByteSize < 2 ^ 64 ∧ (∀ u ∈ m.unknown, ¬ u.IsDeclared) ∧
        fields.map ofRaw = m.asFields := by
  constructor
  · rintro ⟨codes, texts, others, rfl, ⟨hc, hcs⟩, ⟨ht, hts⟩, ho⟩
    have mem_codes : ∀ f ∈ codes, f ∈ codes ++ texts ++ others := by
      intro f h
      exact List.mem_append_left _ (List.mem_append_left _ h)
    have mem_texts : ∀ f ∈ texts, f ∈ codes ++ texts ++ others := by
      intro f h
      exact List.mem_append_left _ (List.mem_append_right _ h)
    obtain ⟨code, hcode⟩ := code_of_short_codes (fun f h => hf f (mem_codes f h)) hc hcs
    obtain ⟨text, hl, htext⟩ := text_of_short_texts (fun f h => hf f (mem_texts f h))
      (fun f h => hx f (mem_texts f h)) ht hts
    refine ⟨⟨code, text, others.map ofRaw⟩, hl, ?_, ?_⟩
    · intro u hu
      obtain ⟨f, hm, rfl⟩ := List.mem_map.1 hu
      exact isOther_iff.1 (ho f hm)
    · rw [List.map_append, List.map_append, hcode, htext, asFields]
  · rintro ⟨m, hl, hu, h⟩
    rw [asFields] at h
    obtain ⟨declared, others, rfl, h, ho⟩ := List.map_eq_append_iff.1 h
    obtain ⟨codes, texts, rfl, hc, ht⟩ := List.map_eq_append_iff.1 h
    refine ⟨codes, texts, others, rfl, short_codes hc, short_texts hl ht, fun f hf => ?_⟩
    exact isOther_iff.2 (hu _ (ho ▸ List.mem_map_of_mem hf))

end Canonical

/-! ## What was decoded -/

theorem encode_eq (m : Reply) :
    m.encode =
      (if m.code = 0 then [] else 0x08 :: Varint.encode (codeValue m.code)) ++
      (if m.text = "" then []
        else 0x12 :: (Varint.encode m.text.utf8ByteSize ++ Utf8.encode m.text)) ++
      encodeAll m.unknown := by
  rw [encode_eq_encodeAll, asFields, encodeAll, List.flatMap_append, List.flatMap_append]
  congr 2
  · split
    · rfl
    · simp [codeAsField, encode_codeKey]
  · split
    · rfl
    · simp [textAsField, encode_textKey]

theorem faultOf?_of_refusal? {o : Options} {fields : List RawField} (hs : o.strictText = true)
    (h : refusal? o fields = none) : ∀ f ∈ fields, f.isText = true → faultOf? f = none := by
  intro f hf ht
  rw [refusal?, if_pos hs, textFault?, List.findSome?_eq_none_iff] at h
  exact h f (List.mem_filter.2 ⟨hf, ht⟩)

theorem text_lt_of_overlay {limit : Nat} {fields : List RawField}
    (hf : ∀ f ∈ fields, IsField limit f.key f.keyLength f.bytes)
    (hx : ∀ f ∈ fields, f.isText = true → faultOf? f = none) :
    (overlay {} fields).text.utf8ByteSize < 2 ^ 64 := by
  simp only [overlay]
  cases h : (fields.filter RawField.isText).getLast? with
  | none => exact (by decide : "".utf8ByteSize < 2 ^ 64)
  | some f =>
    obtain ⟨hm, ht⟩ := List.mem_filter.1 (List.mem_of_getLast? h)
    obtain ⟨length, hd, _⟩ := denotes_content (hf f hm) (by simpa [RawField.isText] using ht)
    rw [Option.map_some, Option.getD_some, size_textOf (hx f hm ht)]
    exact hd.lt

theorem overlay_eq_of_asFields {fields : List RawField} {m : Reply} (hp : Placed 0 fields)
    (ht : m.text.utf8ByteSize < 2 ^ 64) (hd : ∀ u ∈ m.unknown, ¬ u.IsDeclared)
    (h : fields.map ofRaw = m.asFields) : overlay {} fields = m := by
  rw [← locate_map_ofRaw hp, h, overlay_asFields ht hd, default_mergeFrom]

/-- A payload is canonical if and only if it is what its reply is written as. -/
theorem encode_eq_iff_canonical {buf : List UInt8} {o : Options} {fields : List RawField}
    (hr : readFields buf o = .ok fields) (hx : ∀ f ∈ fields, f.isText = true → faultOf? f = none)
    (hw : ∀ u ∈ (overlay {} fields).unknown,
      u.WellFormed (min o.nestingLimit maxNesting) ∧ ¬ u.IsDeclared) :
    (overlay {} fields).encode = buf ↔ Canonical fields := by
  obtain ⟨ha, hs⟩ := readFields_eq_ok_iff.1 hr
  obtain ⟨hb, hp, hf⟩ := Cursor.splitFields_eq_iff.1 hs
  rw [canonical_iff hf hx]
  constructor
  · intro he
    have ht := text_lt_of_overlay hf hx
    rw [← he, length_encode ht] at ha
    have hl := readFields_encode ht (fun u hu => (hw u hu).1) ha
    rw [he, hr] at hl
    have hm := map_ofRaw_locate 0 (overlay {} fields).asFields
    rw [← Except.ok.inj hl] at hm
    exact ⟨overlay {} fields, ht, fun u hu => (hw u hu).2, hm⟩
  · rintro ⟨m, ht, hd, he⟩
    rw [overlay_eq_of_asFields hp ht hd he, encode_eq_encodeAll, ← he, encodeAll, List.flatMap_map]
    exact hb

/-- What is decoded from a payload without repairing text is encoded as its code, its text and the
undeclared fields as they stood in the payload. So the payload comes back if it was canonical, and
what does come back is decoded to the same reply. -/
theorem encode_normalises_decoded (buf : List UInt8) (o : Options) (m : Reply)
    (hs : o.strictText = true) (h : decode buf o = .ok m) :
    ∃ fields, readFields buf o = .ok fields ∧
      (∃ codeBytes lengthBytes, Varint.Minimal codeBytes (codeValue m.code) ∧
        Varint.Minimal lengthBytes m.text.utf8ByteSize ∧
        m.encode =
          (if m.code = 0 then [] else 0x08 :: codeBytes) ++
          (if m.text = "" then [] else 0x12 :: (lengthBytes ++ Utf8.encode m.text)) ++
          (fields.filter RawField.isOther).flatMap RawField.bytes) ∧
      (m.encode = buf ↔ Canonical fields) ∧
      ∀ strictText,
        decode m.encode { strictText, nestingLimit := o.nestingLimit, sizeLimit := none } =
          .ok m := by
  have hw := mem_unknown_of_decode h
  obtain ⟨fields, hr, hn, rfl⟩ := mergeWith_eq_ok_iff.1 h
  have hf := (Cursor.splitFields_eq_iff.1 (readFields_eq_ok_iff.1 hr).2).2.2
  have hx := faultOf?_of_refusal? hs hn
  refine ⟨fields, hr, ⟨_, _, Varint.minimal_encode _, Varint.minimal_encode _, ?_⟩,
    encode_eq_iff_canonical hr hx hw, fun strictText => ?_⟩
  · have ho : encodeAll (overlay {} fields).unknown =
        (fields.filter RawField.isOther).flatMap RawField.bytes :=
      List.flatMap_map ..
    rw [encode_eq, ho]
  · let o' : Options := { strictText, nestingLimit := o.nestingLimit, sizeLimit := none }
    have ht := text_lt_of_overlay hf hx
    have hl : o'.Admits (overlay {} fields).encodedLength := Options.admits_of_no_limit rfl _
    have hm := mergeWith_encode (r := {}) (o := o') ht (fun u hu => (hw u hu).1)
      (fun u hu => (hw u hu).2) hl
    rwa [default_mergeFrom] at hm

/-- A long key and an undeclared field in front, a code in too many bytes, and a text twice. -/
theorem encode_normalises_long_forms :
    let buf := [0x98, 0x00, 0x07, 0x08, 0x85, 0x00, 0x12, 0x01, 0x61, 0x92, 0x00, 0x01, 0x62]
    let m : Reply := { code := 5, text := "b", unknown := [⟨3, .varint, 2, [0x98, 0x00, 0x07]⟩] }
    decode buf {} = .ok m ∧ (∃ fields, readFields buf {} = .ok fields ∧ ¬ Canonical fields) ∧
      decode m.encode {} = .ok m := by
  intro buf m
  have h : decode buf {} = .ok m := by decide +kernel
  obtain ⟨fields, hr, _, hc, hd⟩ := encode_normalises_decoded buf {} m rfl h
  have hne : m.encode ≠ buf := by decide +kernel
  exact ⟨h, ⟨fields, hr, fun hf => hne (hc.2 hf)⟩, hd true⟩

end Reply
end ReflectionError
