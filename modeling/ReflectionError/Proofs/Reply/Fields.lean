import ReflectionError.Proofs.Wire.Split
import ReflectionError.Reply.Decode

/-!
# ReflectionError.Proofs.Reply.Fields

A payload is decoded as if it were cut into fields first and the fields were then put on top of the
reply in order. `overlay` says at once what many fields make of a reply: the last code and the last
text count, all other fields are kept.

* `key_cases`: a field is the code, the text, or neither.
* `decodeField_eq`: decoding one field is reading it and putting it on top.
* `decodeFields_eq`: so is decoding all fields up to the first failure.
* `absorbAll_eq`: putting fields on top fails if and only if text that is no UTF-8 is refused.
* `mergeWith_eq_map`: whether a payload is accepted, and which fields it gives, is settled before
  the reply that it is put on is looked at.
* `decode_eq_of_splitFields`: what a payload is decoded to, from its complete fields and from what
  ended the reading.
-/

namespace ReflectionError

def Reply.codeKey : Key := ⟨codeField, .varint⟩

def Reply.textKey : Key := ⟨textField, .lengthDelimited⟩

namespace RawField

/-- The number in the payload of a varint field. -/
def value (f : RawField) : Nat :=
  match Varint.scan Varint.maxLength f.payload with
  | .found n _ => n % 2 ^ 64
  | _ => 0

/-- What stands behind the length in the payload of a length-delimited field. -/
def content (f : RawField) : List UInt8 :=
  match Varint.scan Varint.maxLength f.payload with
  | .found _ length => f.payload.drop length
  | _ => []

def isCode (f : RawField) : Bool := f.key = Reply.codeKey

def isText (f : RawField) : Bool := f.key = Reply.textKey

def isOther (f : RawField) : Bool := !f.isCode && !f.isText

theorem payload_of_append {f : RawField} {header rest : List UInt8} (hb : f.bytes = header ++ rest)
    (hl : f.keyLength = header.length) : f.payload = rest := by
  rw [payload, hb, hl, List.drop_left]

theorem value_of_denotes {f : RawField} {n : Nat} (h : Varint.Denotes f.payload n) :
    f.value = n := by
  obtain ⟨m, hs, hl, rfl⟩ := h
  have hf := Varint.scan_append hs [] hl
  rw [List.append_nil] at hf
  rw [value, hf]

theorem content_of_denotes {f : RawField} {header content : List UInt8}
    (hp : f.payload = header ++ content) (h : Varint.Denotes header content.length) :
    f.content = content := by
  obtain ⟨m, hs, hl, _⟩ := h
  rw [RawField.content, hp, Varint.scan_append hs content hl]
  exact List.drop_left

theorem classes_of_codeKey {f : RawField} (h : f.key = Reply.codeKey) :
    f.isCode = true ∧ f.isText = false ∧ f.isOther = false := by
  have hc : f.isCode = true := by simp [isCode, h]
  have ht : f.isText = false := by simp [isText, h, Reply.codeKey, Reply.textKey]
  exact ⟨hc, ht, by simp [isOther, hc]⟩

theorem classes_of_textKey {f : RawField} (h : f.key = Reply.textKey) :
    f.isCode = false ∧ f.isText = true ∧ f.isOther = false := by
  have hc : f.isCode = false := by simp [isCode, h, Reply.codeKey, Reply.textKey]
  have ht : f.isText = true := by simp [isText, h]
  exact ⟨hc, ht, by simp [isOther, ht]⟩

theorem isOther_iff_ne {f : RawField} :
    f.isOther = true ↔ f.key ≠ Reply.codeKey ∧ f.key ≠ Reply.textKey := by
  simp [isOther, isCode, isText]

theorem classes_of_isOther {f : RawField} (h : f.isOther = true) :
    f.isCode = false ∧ f.isText = false := by
  simpa [isOther] using h

theorem key_cases (f : RawField) :
    f.key = Reply.codeKey ∨ f.key = Reply.textKey ∨ f.isOther = true := by
  rw [isOther_iff_ne]
  by_cases hc : f.key = Reply.codeKey
  · exact .inl hc
  · by_cases ht : f.key = Reply.textKey
    · exact .inr (.inl ht)
    · exact .inr (.inr ⟨hc, ht⟩)

end RawField

namespace Reply

/-- The text of content. It is repaired where it is no UTF-8. -/
def textOf (content : List UInt8) : String :=
  match Utf8.decode content with
  | .ok text => text
  | .error _ => Utf8.repair content

/-- What is wrong with the content of a text field. -/
def faultOf? (f : RawField) : Option Utf8.Fault :=
  match Utf8.decode f.content with
  | .ok _ => none
  | .error fault => some fault

/-- What is wrong with the first text field that is no UTF-8. -/
def textFault? (fields : List RawField) : Option Utf8.Fault :=
  (fields.filter RawField.isText).findSome? faultOf?

/-- The last code and the last text of the fields, or those of `r`, and all other fields. -/
def overlay (r : Reply) (fields : List RawField) : Reply where
  code := ((fields.filter RawField.isCode).getLast?.map fun f => codeOfValue f.value).getD r.code
  text := ((fields.filter RawField.isText).getLast?.map fun f => textOf f.content).getD r.text
  unknown := r.unknown ++ (fields.filter RawField.isOther).map UnknownField.ofRaw

def absorb (o : Options) (r : Reply) (f : RawField) : Except DecodeError Reply :=
  if f.isCode then .ok { r with code := codeOfValue f.value }
  else if f.isText then (decodeText o f.content).map fun text => { r with text }
  else .ok (r.appendUnknown [.ofRaw f])

def absorbAll (o : Options) (r : Reply) : List RawField → Except DecodeError Reply
  | [] => .ok r
  | f :: fields =>
    match absorb o r f with
    | .error e => .error e
    | .ok s => absorbAll o s fields

/-! ## Field by field -/

theorem absorb_code (o : Options) (r : Reply) {f : RawField} (h : f.key = codeKey) :
    absorb o r f = .ok { r with code := codeOfValue f.value } := by
  obtain ⟨hc, _, _⟩ := RawField.classes_of_codeKey h
  simp [absorb, hc]

theorem absorb_text (o : Options) (r : Reply) {f : RawField} (h : f.key = textKey) :
    absorb o r f = (decodeText o f.content).map fun text => { r with text } := by
  obtain ⟨hc, ht, _⟩ := RawField.classes_of_textKey h
  simp [absorb, hc, ht]

theorem absorb_other (o : Options) (r : Reply) {f : RawField} (h : f.isOther = true) :
    absorb o r f = .ok (r.appendUnknown [.ofRaw f]) := by
  obtain ⟨hc, ht⟩ := RawField.classes_of_isOther h
  simp [absorb, hc, ht]

theorem skipValue_codeKey (c : Cursor) (limit : Nat) :
    c.skipValue codeKey limit = c.readVarint.map Prod.snd := rfl

theorem skipValue_textKey (c : Cursor) (limit : Nat) :
    c.skipValue textKey limit = c.readLengthDelimited.map Prod.snd := rfl

theorem decodeField_eq (o : Options) (r : Reply) (c : Cursor) :
    decodeField o r c =
      match c.readField o.nestingLimit with
      | .error failure => .error failure.error
      | .ok (f, next) => (absorb o r f).map fun s => (s, next) := by
  rw [decodeField, Cursor.readField]
  cases hk : c.readKey with
  | error failure => rfl
  | ok p =>
    obtain ⟨key, behind⟩ := p
    obtain ⟨header, hh, hp⟩ := Cursor.readKey_eq_ok_iff.1 hk
    have hlen : behind.offset - c.offset = header.length := by rw [hp.2, Nat.add_sub_cancel_left]
    simp only
    split
    · next hc =>
      obtain rfl : key = codeKey := hc
      rw [skipValue_codeKey]
      cases hv : behind.readVarint with
      | error failure => rfl
      | ok q =>
        obtain ⟨n, next⟩ := q
        obtain ⟨bytes, hd, hq⟩ := Cursor.readVarint_eq_ok_iff.1 hv
        have hpay := RawField.payload_of_append
          (f := ⟨codeKey, c.offset, c.upTo next, behind.offset - c.offset⟩) (hp.trans hq).upTo_eq
          hlen
        simp only [Except.map]
        rw [absorb_code o r rfl, RawField.value_of_denotes (hpay ▸ hd)]
    · next hc =>
      split
      · next ht =>
        obtain rfl : key = textKey := ht
        rw [skipValue_textKey]
        cases hv : behind.readLengthDelimited with
        | error failure => rfl
        | ok q =>
          obtain ⟨content, next⟩ := q
          obtain ⟨lengthBytes, hd, hq⟩ := Cursor.readLengthDelimited_eq_ok_iff.1 hv
          have hpay := RawField.payload_of_append
            (f := ⟨textKey, c.offset, c.upTo next, behind.offset - c.offset⟩)
            (hp.trans hq).upTo_eq hlen
          simp only [Except.map]
          rw [absorb_text o r rfl, RawField.content_of_denotes hpay hd]
          cases decodeText o content <;> rfl
      · next ht =>
        cases hs : behind.skipValue key o.nestingLimit with
        | error failure => rfl
        | ok next =>
          simp only
          rw [absorb_other o r (RawField.isOther_iff_ne.2 ⟨hc, ht⟩)]
          rfl

theorem decodeFields_of_error {o : Options} {r : Reply} {c : Cursor} {e : DecodeError}
    (hc : c.rest ≠ []) (h : decodeField o r c = .error e) : decodeFields o r c = .error e := by
  rw [decodeFields, if_neg hc]
  split
  · next hf => rw [h] at hf; cases hf; rfl
  · next hf => rw [h] at hf; cases hf

theorem decodeFields_of_ok {o : Options} {r s : Reply} {c d : Cursor} (hc : c.rest ≠ [])
    (h : decodeField o r c = .ok (s, d)) : decodeFields o r c = decodeFields o s d := by
  rw [decodeFields, if_neg hc]
  split
  · next hf => rw [h] at hf; cases hf
  · next hf => rw [h] at hf; cases hf; rfl

theorem decodeFields_eq (o : Options) (r : Reply) (c : Cursor) :
    decodeFields o r c =
      match absorbAll o r (c.splitFields o.nestingLimit).1, (c.splitFields o.nestingLimit).2 with
      | .error e, _ => .error e
      | .ok _, some e => .error e
      | .ok s, none => .ok s := by
  fun_induction Cursor.splitFields o.nestingLimit c generalizing r with
  | case1 c hc => rw [decodeFields, if_pos hc]; rfl
  | case2 c hc failure hr =>
    have hf := decodeField_eq o r c
    rw [hr] at hf
    exact decodeFields_of_error hc hf
  | case3 c hc f next hr fields stop hs ih =>
    have hf := decodeField_eq o r c
    rw [hr] at hf
    rw [absorbAll]
    cases ha : absorb o r f with
    | error e =>
      simp only [ha] at hf
      exact decodeFields_of_error hc hf
    | ok s =>
      simp only [ha] at hf
      rw [decodeFields_of_ok hc hf, ih s, hs]

/-! ## All fields at once -/

/-- The last of the elements that are selected, or the one in front if there is none behind it. -/
theorem getD_getLast?_filter_cons {α β : Type} (p : α → Bool) (g : α → β) (a : α) (l : List α)
    (b : β) :
    (((a :: l).filter p).getLast?.map g).getD b =
      ((l.filter p).getLast?.map g).getD ((([a].filter p).getLast?.map g).getD b) := by
  cases hp : p a with
  | false => simp [hp]
  | true =>
    simp only [List.filter_cons, hp, if_true, List.filter_nil, List.getLast?_singleton]
    rw [List.getLast?_cons]
    cases (l.filter p).getLast? <;> rfl

theorem overlay_cons (r : Reply) (f : RawField) (fields : List RawField) :
    r.overlay (f :: fields) = (r.overlay [f]).overlay fields := by
  simp only [overlay, Reply.mk.injEq]
  refine ⟨getD_getLast?_filter_cons .., getD_getLast?_filter_cons .., ?_⟩
  rw [List.append_assoc, ← List.map_append, ← List.filter_append, List.singleton_append]

theorem overlay_code (r : Reply) {f : RawField} (h : f.key = codeKey) :
    r.overlay [f] = { r with code := codeOfValue f.value } := by
  obtain ⟨hc, ht, ho⟩ := RawField.classes_of_codeKey h
  simp [overlay, hc, ht, ho]

theorem overlay_text (r : Reply) {f : RawField} (h : f.key = textKey) :
    r.overlay [f] = { r with text := textOf f.content } := by
  obtain ⟨hc, ht, ho⟩ := RawField.classes_of_textKey h
  simp [overlay, hc, ht, ho]

theorem overlay_others (r : Reply) {fields : List RawField} (h : ∀ f ∈ fields, f.isOther = true) :
    r.overlay fields = r.appendUnknown (fields.map .ofRaw) := by
  have hc : fields.filter RawField.isCode = [] := by
    rw [List.filter_eq_nil_iff]
    intro f hf
    simp [(RawField.classes_of_isOther (h f hf)).1]
  have ht : fields.filter RawField.isText = [] := by
    rw [List.filter_eq_nil_iff]
    intro f hf
    simp [(RawField.classes_of_isOther (h f hf)).2]
  simp [overlay, hc, ht, List.filter_eq_self.2 h, appendUnknown]

theorem decodeText_eq (o : Options) (f : RawField) :
    decodeText o f.content =
      match faultOf? f with
      | none => .ok (textOf f.content)
      | some fault =>
        if o.strictText then .error (.invalidEncoding "error_message" fault)
        else .ok (textOf f.content) := by
  rw [decodeText, textOf, faultOf?]
  cases Utf8.decode f.content <;> rfl

/-- The fault that ends decoding, if text that is no UTF-8 is refused. -/
def refusal? (o : Options) (fields : List RawField) : Option Utf8.Fault :=
  if o.strictText then textFault? fields else none

theorem refusal?_cons (o : Options) (f : RawField) (fields : List RawField) :
    refusal? o (f :: fields) = (refusal? o [f]).or (refusal? o fields) := by
  unfold refusal? textFault?
  cases o.strictText with
  | false => rfl
  | true =>
    cases ht : f.isText with
    | false => simp [ht]
    | true => cases hf : faultOf? f <;> simp [ht, hf]

theorem refusal?_append (o : Options) (fields more : List RawField) :
    refusal? o (fields ++ more) = (refusal? o fields).or (refusal? o more) := by
  unfold refusal? textFault?
  cases o.strictText with
  | false => rfl
  | true => simp [List.findSome?_append]

theorem refusal?_of_not_text (o : Options) {f : RawField} (h : f.isText = false) :
    refusal? o [f] = none := by
  simp [refusal?, textFault?, h]

theorem refusal?_of_text (o : Options) {f : RawField} (h : f.isText = true) :
    refusal? o [f] = if o.strictText then faultOf? f else none := by
  simp [refusal?, textFault?, h]

theorem absorb_eq (o : Options) (r : Reply) (f : RawField) :
    absorb o r f =
      match refusal? o [f] with
      | some fault => .error (.invalidEncoding "error_message" fault)
      | none => .ok (r.overlay [f]) := by
  rcases f.key_cases with hc | ht | ho
  · rw [absorb_code o r hc, refusal?_of_not_text o (RawField.classes_of_codeKey hc).2.1,
      overlay_code r hc]
  · rw [absorb_text o r ht, decodeText_eq, refusal?_of_text o (RawField.classes_of_textKey ht).2.1,
      overlay_text r ht]
    cases faultOf? f with
    | none => simp [Except.map]
    | some fault => cases o.strictText <;> rfl
  · rw [absorb_other o r ho, refusal?_of_not_text o (RawField.classes_of_isOther ho).2,
      overlay_others r (by simpa using ho)]
    rfl

theorem absorbAll_eq (o : Options) (r : Reply) (fields : List RawField) :
    absorbAll o r fields =
      match refusal? o fields with
      | some fault => .error (.invalidEncoding "error_message" fault)
      | none => .ok (r.overlay fields) := by
  induction fields generalizing r with
  | nil =>
    have hn : refusal? o [] = none := by
      unfold refusal? textFault?
      cases o.strictText <;> rfl
    rw [hn, absorbAll]
    simp [overlay]
  | cons f fields ih =>
    rw [absorbAll, absorb_eq, refusal?_cons o f fields, overlay_cons r f fields]
    cases hf : refusal? o [f] with
    | some fault => rfl
    | none => exact ih (r.overlay [f])

/-! ## Payloads -/

/-- The fields of a payload that can be put on top of a reply, or why there are none. -/
def acceptFields (payload : List UInt8) (o : Options) : Except DecodeError (List RawField) :=
  match o.checkSize payload.length with
  | .error e => .error e
  | .ok () =>
    match (Cursor.start payload).splitFields o.nestingLimit with
    | (fields, stop) =>
      match refusal? o fields, stop with
      | some fault, _ => .error (.invalidEncoding "error_message" fault)
      | none, some e => .error e
      | none, none => .ok fields

theorem mergeWith_eq_map (r : Reply) (payload : List UInt8) (o : Options) :
    r.mergeWith payload o = (acceptFields payload o).map r.overlay := by
  rw [mergeWith, acceptFields]
  cases o.checkSize payload.length with
  | error e => rfl
  | ok _ =>
    simp only [decodeFields_eq, absorbAll_eq]
    obtain ⟨fields, stop⟩ := (Cursor.start payload).splitFields o.nestingLimit
    cases refusal? o fields with
    | some fault => rfl
    | none => cases stop <;> rfl

theorem acceptFields_eq_ok_iff {payload : List UInt8} {o : Options} {fields : List RawField} :
    acceptFields payload o = .ok fields ↔
      readFields payload o = .ok fields ∧ refusal? o fields = none := by
  rw [acceptFields, readFields]
  cases o.checkSize payload.length with
  | error e => simp
  | ok _ =>
    obtain ⟨found, stop⟩ := (Cursor.start payload).splitFields o.nestingLimit
    simp only
    cases stop with
    | some e => cases refusal? o found <;> simp
    | none =>
      simp only [Except.ok.injEq]
      cases hf : refusal? o found with
      | some fault =>
        constructor
        · intro h
          cases h
        · rintro ⟨rfl, hn⟩
          rw [hf] at hn
          cases hn
      | none =>
        simp only [Except.ok.injEq]
        constructor
        · rintro rfl
          exact ⟨rfl, hf⟩
        · rintro ⟨rfl, _⟩
          rfl

theorem mergeWith_eq_of_splitFields {o : Options} {buf : List UInt8} (h : o.Admits buf.length)
    (r : Reply) :
    mergeWith r buf o =
      match refusal? o ((Cursor.start buf).splitFields o.nestingLimit).1,
        ((Cursor.start buf).splitFields o.nestingLimit).2 with
      | some fault, _ => .error (.invalidEncoding "error_message" fault)
      | none, some e => .error e
      | none, none => .ok (r.overlay ((Cursor.start buf).splitFields o.nestingLimit).1) := by
  rw [mergeWith_eq_map, acceptFields, Options.checkSize_eq_ok_iff.2 h]
  obtain ⟨fields, stop⟩ := (Cursor.start buf).splitFields o.nestingLimit
  simp only
  cases refusal? o fields with
  | some fault => rfl
  | none => cases stop <;> rfl

theorem mergeWith_eq_ok_iff {o : Options} {buf : List UInt8} {r s : Reply} :
    mergeWith r buf o = .ok s ↔
      ∃ fields, readFields buf o = .ok fields ∧ refusal? o fields = none ∧
        s = r.overlay fields := by
  rw [mergeWith_eq_map, Except.map_eq_ok_iff]
  constructor
  · rintro ⟨fields, ha, rfl⟩
    obtain ⟨hr, hn⟩ := acceptFields_eq_ok_iff.1 ha
    exact ⟨fields, hr, hn, rfl⟩
  · rintro ⟨fields, hr, hn, rfl⟩
    exact ⟨fields, acceptFields_eq_ok_iff.2 ⟨hr, hn⟩, rfl⟩

/-- What a payload within the size limit is decoded to, told by its complete fields and by the
failure that ended them. Text that is refused comes before a failure behind it. -/
theorem decode_eq_of_splitFields (buf : List UInt8) (o : Options) (h : o.Admits buf.length) :
    decode buf o =
      match refusal? o ((Cursor.start buf).splitFields o.nestingLimit).1,
        ((Cursor.start buf).splitFields o.nestingLimit).2 with
      | some fault, _ => .error (.invalidEncoding "error_message" fault)
      | none, some e => .error e
      | none, none => .ok (overlay {} ((Cursor.start buf).splitFields o.nestingLimit).1) :=
  mergeWith_eq_of_splitFields h {}

/-- What a payload is decoded to, told by the fields that are read from it. -/
theorem decode_of_readFields {payload : List UInt8} {o : Options} {fs : List RawField}
    (h : readFields payload o = .ok fs) :
    decode payload o =
      match refusal? o fs with
      | some fault => .error (.invalidEncoding "error_message" fault)
      | none => .ok (overlay {} fs) := by
  obtain ⟨ha, hs⟩ := readFields_eq_ok_iff.1 h
  rw [decode_eq_of_splitFields payload o ha, hs]
  cases refusal? o fs <;> rfl

/-- A text that is no UTF-8, and behind it a field that is cut off. -/
theorem decode_fault_before_cut :
    ({ sizeLimit := some 5 } : Options).Admits [0x12, 0x02, 0xc3, 0x28, 0x08].length ∧
      decode [0x12, 0x02, 0xc3, 0x28, 0x08] { sizeLimit := some 5 } =
        .error (.invalidEncoding "error_message" ⟨0, some 1⟩) := by
  have h : ({ sizeLimit := some 5 } : Options).Admits [0x12, 0x02, 0xc3, 0x28, 0x08].length :=
    Options.checkSize_eq_ok_iff.1 rfl
  exact ⟨h, (decode_eq_of_splitFields _ _ h).trans (by decide +kernel)⟩

end Reply
end ReflectionError
