import ReflectionError.Proofs.Reply.Unknown
import ReflectionError.Proofs.Text.Utf8

/-!
# ReflectionError.Proofs.Reply.RoundTrip

Replies are read back from their bytes. A reply is written as fields one after another, `asFields`,
and put on top of another one these fields do what `mergeFrom` does.

* `encode_eq_encodeAll`, `wellFormed_of_mem_asFields`: what is written are well-formed fields.
* `length_encode`: the computed length is the length.
* `overlay_asFields`: the fields of a reply on top of another.
* `mergeWith_encode`: decoding what was written onto a reply puts the one on top of the other.
* `FromWire.mergeWith_encode`, `FromWire.decode_encode`: so it is for every reply that came out of
  payloads.
* `decode_encode_eq_ok_iff`: a reply comes back if and only if none of its undeclared fields has a
  declared key.
-/

namespace ReflectionError
namespace Reply

open Grammar UnknownField

def codeAsField (code : Int32) : UnknownField :=
  ⟨codeField, .varint, codeKey.encode.length, codeKey.encode ++ Varint.encode (codeValue code)⟩

def textAsField (text : String) : UnknownField :=
  ⟨textField, .lengthDelimited, textKey.encode.length,
    textKey.encode ++ (Varint.encode text.utf8ByteSize ++ Utf8.encode text)⟩

/-- The fields that a reply is written as. -/
def asFields (m : Reply) : List UnknownField :=
  (if m.code = 0 then [] else [codeAsField m.code]) ++
    (if m.text = "" then [] else [textAsField m.text]) ++ m.unknown

/-- The number of declared fields among them. -/
def declaredCount (m : Reply) : Nat :=
  (if m.code = 0 then 0 else 1) + (if m.text = "" then 0 else 1)

theorem length_asFields (m : Reply) :
    m.asFields.length = m.declaredCount + m.unknown.length := by
  rw [asFields, declaredCount, List.length_append, List.length_append]
  congr 2 <;> split <;> rfl

theorem drop_asFields (m : Reply) : m.asFields.drop m.declaredCount = m.unknown := by
  have h := m.length_asFields
  rw [asFields, List.length_append, Nat.add_right_cancel_iff] at h
  rw [asFields, ← h, List.drop_left]

theorem encode_eq_encodeAll (m : Reply) : m.encode = encodeAll m.asFields := by
  have hu : (m.unknown.map raw).flatten = m.unknown.flatMap raw := (List.flatMap_def ..).symm
  rw [encode, chunks, asFields, encodeAll, List.flatten_append, List.flatten_append,
    List.flatMap_append, List.flatMap_append, hu]
  congr 2
  · split <;> simp [codeAsField, codeKey]
  · split <;> simp [textAsField, textKey]

theorem codeValue_eq (code : Int32) : codeValue code = (code.toInt % 2 ^ 64).toNat := rfl

theorem codeValue_lt (code : Int32) : codeValue code < 2 ^ 64 := by
  rw [codeValue_eq]
  omega

theorem codeOfValue_codeValue (code : Int32) : codeOfValue (codeValue code) = code := by
  have hnn : 0 ≤ code.toInt % 2 ^ 64 := Int.emod_nonneg _ (by decide)
  rw [codeOfValue, codeValue_eq, ← Int32.ofInt_eq_ofNat, Int.toNat_of_nonneg hnn,
    Int32.ofInt_eq_iff_bmod_eq_toInt, ← Int.emod_bmod (code.toInt % 2 ^ 64),
    Int.emod_emod_of_dvd code.toInt (by decide), Int.emod_bmod]
  exact code.toInt_bmod

theorem spelledBy_codeKey : codeKey.SpelledBy codeKey.encode :=
  ⟨by decide, by decide, Varint.denotes_encode (by decide)⟩

theorem spelledBy_textKey : textKey.SpelledBy textKey.encode :=
  ⟨by decide, by decide, Varint.denotes_encode (by decide)⟩

theorem denotes_textLength {text : String} (h : text.utf8ByteSize < 2 ^ 64) :
    Varint.Denotes (Varint.encode text.utf8ByteSize) (Utf8.encode text).length := by
  rw [Utf8.length_encode]
  exact Varint.denotes_encode h

theorem wellFormed_codeAsField (limit : Nat) (code : Int32) :
    (codeAsField code).WellFormed limit :=
  ⟨0, _, _, Nat.zero_le _, spelledBy_codeKey,
    .plain (.varint (Varint.denotes_encode (codeValue_lt code))), rfl, rfl⟩

theorem wellFormed_textAsField (limit : Nat) {text : String} (h : text.utf8ByteSize < 2 ^ 64) :
    (textAsField text).WellFormed limit :=
  ⟨0, _, _, Nat.zero_le _, spelledBy_textKey,
    .plain (.lengthDelimited (denotes_textLength h)), rfl, rfl⟩

theorem mem_asFields {m : Reply} {u : UnknownField} (h : u ∈ m.asFields) :
    u = codeAsField m.code ∨ u = textAsField m.text ∨ u ∈ m.unknown := by
  rcases List.mem_append.1 h with h | h
  · rcases List.mem_append.1 h with h | h
    · split at h
      · cases h
      · exact .inl (List.mem_singleton.1 h)
    · split at h
      · cases h
      · exact .inr (.inl (List.mem_singleton.1 h))
  · exact .inr (.inr h)

theorem wellFormed_of_mem_asFields {limit : Nat} {m : Reply} (ht : m.text.utf8ByteSize < 2 ^ 64)
    (hu : ∀ u ∈ m.unknown, u.WellFormed limit) : ∀ u ∈ m.asFields, u.WellFormed limit := by
  intro u h
  rcases mem_asFields h with rfl | rfl | h
  · exact wellFormed_codeAsField limit m.code
  · exact wellFormed_textAsField limit ht
  · exact hu u h

/-! ## Lengths -/

theorem text_size_le (m : Reply) : m.text.utf8ByteSize ≤ m.encodedLength := by
  by_cases ht : m.text = ""
  · rw [ht, String.utf8ByteSize_empty]
    omega
  · rw [encodedLength, if_neg ht]
    omega

theorem length_encode_codeKey : codeKey.encode.length = Key.length codeField := by
  rw [Key.encode, Varint.length_encode (by decide)]
  rfl

theorem length_encode_textKey : textKey.encode.length = Key.length textField := by
  rw [Key.encode, Varint.length_encode (by decide)]
  decide

theorem length_encodeAll (us : List UnknownField) : (encodeAll us).length = totalLength us := by
  induction us with
  | nil => rfl
  | cons u us ih =>
    rw [encodeAll, List.flatMap_cons, List.length_append, ← encodeAll, ih, totalLength]

theorem length_encode {m : Reply} (ht : m.text.utf8ByteSize < 2 ^ 64) :
    m.encode.length = m.encodedLength := by
  have hc : (encodeAll (if m.code = 0 then [] else [codeAsField m.code])).length =
      if m.code = 0 then 0 else Key.length codeField + Varint.length (codeValue m.code) := by
    split
    · rfl
    · rw [encodeAll, List.flatMap_singleton, codeAsField, List.length_append,
        length_encode_codeKey, Varint.length_encode (codeValue_lt m.code)]
  have hx : (encodeAll (if m.text = "" then [] else [textAsField m.text])).length =
      if m.text = "" then 0
      else Key.length textField + Varint.length m.text.utf8ByteSize + m.text.utf8ByteSize := by
    split
    · rfl
    · rw [encodeAll, List.flatMap_singleton, textAsField, List.length_append, List.length_append,
        length_encode_textKey, Varint.length_encode ht, Utf8.length_encode, Nat.add_assoc]
  rw [encode_eq_encodeAll, asFields, encodeAll, List.flatMap_append, List.flatMap_append,
    List.length_append, List.length_append, ← encodeAll, ← encodeAll, ← encodeAll, hc, hx,
    length_encodeAll, encodedLength]

/-! ## Fields on top of a reply -/

theorem overlay_append (r : Reply) (fields more : List RawField) :
    r.overlay (fields ++ more) = (r.overlay fields).overlay more := by
  induction fields generalizing r with
  | nil => simp [overlay]
  | cons f fields ih => rw [List.cons_append, overlay_cons, ih, ← overlay_cons]

theorem key_of_ofRaw {f : RawField} {u : UnknownField} (h : ofRaw f = u) : f.key = u.key := by
  rw [← h]
  rfl

theorem value_of_codeAsField {f : RawField} {code : Int32} (h : ofRaw f = codeAsField code) :
    f.value = codeValue code := by
  have hp : f.payload = Varint.encode (codeValue code) :=
    RawField.payload_of_append (congrArg raw h) (congrArg keyLength h)
  exact RawField.value_of_denotes (hp ▸ Varint.denotes_encode (codeValue_lt code))

theorem content_of_textAsField {f : RawField} {text : String} (h : ofRaw f = textAsField text)
    (ht : text.utf8ByteSize < 2 ^ 64) : f.content = Utf8.encode text := by
  have hp : f.payload = Varint.encode text.utf8ByteSize ++ Utf8.encode text :=
    RawField.payload_of_append (congrArg raw h) (congrArg keyLength h)
  exact RawField.content_of_denotes hp (denotes_textLength ht)

theorem refusal?_asFields (o : Options) {m : Reply} (ht : m.text.utf8ByteSize < 2 ^ 64)
    (hu : ∀ u ∈ m.unknown, ¬ u.IsDeclared) (offset : Nat) :
    refusal? o (locate offset m.asFields) = none := by
  have hf : textFault? (locate offset m.asFields) = none := by
    rw [textFault?, List.findSome?_eq_none_iff]
    intro f hf
    obtain ⟨hf, hx⟩ := List.mem_filter.1 hf
    simp only [RawField.isText, decide_eq_true_eq] at hx
    rcases mem_asFields (ofRaw_mem_of_mem_locate hf) with hc | hc | hc
    · have := (key_of_ofRaw hc).symm.trans hx
      cases this
    · rw [faultOf?, content_of_textAsField hc ht, Utf8.decode_encode]
    · exact absurd (.inr hx) (hu _ hc)
  rw [refusal?, hf]
  exact ite_self none

theorem overlay_asFields {r other : Reply} (ht : other.text.utf8ByteSize < 2 ^ 64)
    (hu : ∀ u ∈ other.unknown, ¬ u.IsDeclared) (offset : Nat) :
    r.overlay (locate offset other.asFields) = r.mergeFrom other := by
  have hcode : ∀ (s : Reply) (offset : Nat),
      s.overlay (locate offset (if other.code = 0 then [] else [codeAsField other.code])) =
        { s with code := if other.code = 0 then s.code else other.code } := by
    intro s offset
    split
    · simp [locate, overlay]
    · rw [locate, locate, overlay_code s rfl, value_of_codeAsField rfl, codeOfValue_codeValue]
  have htext : ∀ (s : Reply) (offset : Nat),
      s.overlay (locate offset (if other.text = "" then [] else [textAsField other.text])) =
        { s with text := if other.text = "" then s.text else other.text } := by
    intro s offset
    split
    · simp [locate, overlay]
    · rw [locate, locate, overlay_text s rfl, content_of_textAsField rfl ht, textOf,
        Utf8.decode_encode]
  rw [asFields, locate_append, locate_append, overlay_append, overlay_append, hcode, htext,
    overlay_others, map_ofRaw_locate]
  · rfl
  · intro f hf
    exact isOther_iff.2 (hu _ (ofRaw_mem_of_mem_locate hf))

/-! ## Decoding what was encoded -/

theorem readFields_encode {m : Reply} {o : Options} (ht : m.text.utf8ByteSize < 2 ^ 64)
    (hu : ∀ u ∈ m.unknown, u.WellFormed (min o.nestingLimit maxNesting))
    (ha : o.Admits m.encodedLength) :
    readFields m.encode o = .ok (locate 0 m.asFields) := by
  rw [← length_encode ht] at ha
  rw [encode_eq_encodeAll] at ha ⊢
  exact readFields_encodeAll (wellFormed_of_mem_asFields ht hu) ha

theorem mergeWith_encode {r m : Reply} {o : Options} (ht : m.text.utf8ByteSize < 2 ^ 64)
    (hu : ∀ u ∈ m.unknown, u.WellFormed (min o.nestingLimit maxNesting))
    (hd : ∀ u ∈ m.unknown, ¬ u.IsDeclared) (ha : o.Admits m.encodedLength) :
    r.mergeWith m.encode o = .ok (r.mergeFrom m) :=
  mergeWith_eq_ok_iff.2 ⟨_, readFields_encode ht hu ha, refusal?_asFields o ht hd 0,
    (overlay_asFields ht hd 0).symm⟩

theorem default_mergeFrom (m : Reply) : ({} : Reply).mergeFrom m = m := by
  obtain ⟨code, text, unknown⟩ := m
  simp only [mergeFrom, List.nil_append, Reply.mk.injEq, and_true]
  constructor
  · split
    · next h => exact h.symm
    · rfl
  · split
    · next h => exact h.symm
    · rfl

/-- The reply has fewer than `2 ^ 64` bytes, and its undeclared fields came out of payloads, as
undeclared ones. -/
structure FromWire (limit : Nat) (m : Reply) : Prop where
  obtained : ∀ u ∈ m.unknown, Obtained limit u
  undeclared : ∀ u ∈ m.unknown, ¬ u.IsDeclared
  length_lt : m.encodedLength < 2 ^ 64

namespace FromWire

variable {limit : Nat} {m : Reply}

theorem text_lt (h : m.FromWire limit) : m.text.utf8ByteSize < 2 ^ 64 :=
  Nat.lt_of_le_of_lt m.text_size_le h.length_lt

theorem mergeWith_encode {o : Options} (h : m.FromWire limit) (hl : limit ≤ o.nestingLimit)
    (ha : o.Admits m.encodedLength) (r : Reply) :
    r.mergeWith m.encode o = .ok (r.mergeFrom m) := by
  have hw : ∀ u ∈ m.unknown, u.WellFormed (min o.nestingLimit maxNesting) := by
    intro u hm
    exact (h.obtained u hm).wellFormed.mono (by omega)
  exact Reply.mergeWith_encode h.text_lt hw h.undeclared ha

theorem decode_encode {o : Options} (h : m.FromWire limit) (hl : limit ≤ o.nestingLimit)
    (ha : o.Admits m.encodedLength) : decode m.encode o = .ok m := by
  rw [decode, h.mergeWith_encode hl ha, default_mergeFrom]

end FromWire

theorem FromWire.new (limit : Nat) (code : Int32) {text : String} (h : text.utf8ByteSize < 2 ^ 63) :
    (Reply.new code text).FromWire limit := by
  have hcode := Varint.length_le (codeValue_lt code)
  have htext : Varint.length text.utf8ByteSize ≤ Varint.maxLength := Varint.length_le (by omega)
  have hkeys : Key.length codeField = 1 ∧ Key.length textField = 1 := by decide
  refine ⟨nofun, nofun, ?_⟩
  rw [Varint.maxLength] at hcode htext
  simp only [encodedLength, Reply.new, hkeys, UnknownField.totalLength]
  split
  · split <;> omega
  · split <;> omega

/-- A reply whose undeclared fields came out of payloads is read back from its bytes if and only if
none of these fields has the key of a declared one. -/
theorem decode_encode_eq_ok_iff (m : Reply) (limit : Nat) (o : Options)
    (hu : ∀ u ∈ m.unknown, Obtained limit u) (hm : m.encodedLength < 2 ^ 64)
    (hl : limit ≤ o.nestingLimit) (ha : o.Admits m.encodedLength) :
    decode m.encode o = .ok m ↔ ∀ u ∈ m.unknown, ¬ u.IsDeclared := by
  constructor
  · intro h u hu
    exact not_isDeclared_of_decode h hu
  · intro hd
    have ht := Nat.lt_of_le_of_lt m.text_size_le hm
    have hw : ∀ u ∈ m.unknown, u.WellFormed (min o.nestingLimit maxNesting) := by
      intro u hm
      exact (hu u hm).wellFormed.mono (by omega)
    rw [decode, mergeWith_encode ht hw hd ha, default_mergeFrom]

/-- A group in a group, behind a key that is longer than it has to be. -/
def nestedGroup : UnknownField :=
  ⟨3, .startGroup, 2, [0x9b, 0x00, 0x0b, 0x0c, 0x08, 0x01, 0x1c]⟩

theorem obtained_nestedGroup : Obtained 2 nestedGroup := by
  have hr : readFields nestedGroup.raw { nestingLimit := 2 } =
      .ok [⟨nestedGroup.key, 0, nestedGroup.raw, 2⟩] := by decide +kernel
  exact .read (Nat.le_refl 2) hr (List.mem_cons_self ..)

theorem FromWire.of_nestedGroup {m : Reply} (hu : ∀ u ∈ m.unknown, u = nestedGroup)
    (hl : m.encodedLength < 2 ^ 64) : m.FromWire 2 :=
  ⟨fun u h => hu u h ▸ obtained_nestedGroup, fun u h => hu u h ▸ by decide, hl⟩

theorem decode_encode_nestedGroup :
    let m : Reply := { code := -1, text := "é", unknown := [nestedGroup] }
    let o : Options := { strictText := false, nestingLimit := 2, sizeLimit := some 22 }
    (∀ u ∈ m.unknown, Obtained 2 u) ∧ m.encodedLength < 2 ^ 64 ∧ 2 ≤ o.nestingLimit ∧
      o.Admits m.encodedLength ∧ decode m.encode o = .ok m := by
  intro m o
  have hu : ∀ u ∈ m.unknown, Obtained 2 u := by
    intro u hu
    obtain rfl := List.mem_singleton.1 hu
    have hr : readFields nestedGroup.raw { nestingLimit := 2 } =
        .ok [⟨nestedGroup.key, 0, nestedGroup.raw, 2⟩] := by decide +kernel
    exact .read (Nat.le_refl 2) hr (List.mem_cons_self ..)
  have hm : m.encodedLength = 22 := by decide +kernel
  have hl : m.encodedLength < 2 ^ 64 := by decide +kernel
  have ha : o.Admits m.encodedLength := by
    intro limit h
    cases h
    rw [hm]
  refine ⟨hu, hl, Nat.le_refl 2, ha, ?_⟩
  exact (decode_encode_eq_ok_iff m 2 o hu hl (Nat.le_refl 2) ha).2 (by decide)

end Reply
end ReflectionError
