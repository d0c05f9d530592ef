import ReflectionError.Proofs.Reply.Canonical

/-!
# ReflectionError.Proofs.Reply.Growth

What was decoded takes hardly more bytes when it is encoded again. Every field is written in no more
bytes than it was read from, except for a negative code: it may be read from five bytes behind its
key, and is written in ten.

* `codeLength_le`, `textLength_le`: the two declared fields.
* `encodedLength_overlay_field`: what one field adds to a reply.
* `encodedLength_overlay`: what all fields of a payload add.
* `encodedLength_decode_le`: so a reply has no more bytes than its payload, or five more if its code
  is negative.
-/

namespace ReflectionError
namespace Reply

open Grammar UnknownField

/-- The number of bytes that a code is written in, with its key. -/
def codeLength (code : Int32) : Nat :=
  if code = 0 then 0 else Key.length codeField + Varint.length (codeValue code)

/-- The number of bytes that a text is written in, with its key and its length. -/
def textLength (text : String) : Nat :=
  if text = "" then 0
  else Key.length textField + Varint.length text.utf8ByteSize + text.utf8ByteSize

theorem encodedLength_eq (m : Reply) :
    m.encodedLength = codeLength m.code + textLength m.text + totalLength m.unknown := rfl

/-- The number of bytes by which a code may be written longer than it was read. -/
def growth (code : Int32) : Nat := if code < 0 then 5 else 0

/-! ## Codes -/

theorem toInt_codeOfValue (value : Nat) :
    (codeOfValue value).toInt = (value : Int).bmod (2 ^ 32) :=
  Int32.toInt_ofNat

theorem codeValue_codeOfValue_le {value : Nat} (h : 0 ≤ codeOfValue value) :
    codeValue (codeOfValue value) ≤ value := by
  have hnn : 0 ≤ (codeOfValue value).toInt := by simpa using Int32.le_iff_toInt_le.1 h
  rw [toInt_codeOfValue, Int.bmod] at hnn
  rw [codeValue_eq, toInt_codeOfValue, Int.bmod]
  omega

theorem le_of_codeOfValue_neg {value : Nat} (h : codeOfValue value < 0) : 2 ^ 31 ≤ value := by
  have hneg : (codeOfValue value).toInt < 0 := by simpa using Int32.lt_iff_toInt_lt.1 h
  rw [toInt_codeOfValue, Int.bmod] at hneg
  omega

theorem le_codeValue_of_neg {code : Int32} (h : code < 0) : 2 ^ 31 ≤ codeValue code := by
  have hneg : code.toInt < 0 := by simpa using Int32.lt_iff_toInt_lt.1 h
  have hlow : -(2 ^ 31) ≤ code.toInt := code.le_toInt
  rw [codeValue_eq]
  omega

theorem five_le_length {value : Nat} (h : 2 ^ 31 ≤ value) : 5 ≤ Varint.length value :=
  Nat.le_trans (by decide) (Varint.length_mono h)

theorem growth_le_codeLength (code : Int32) : growth code ≤ codeLength code := by
  unfold growth
  split
  · next hneg =>
    have hne : code ≠ 0 := by
      rintro rfl
      exact absurd hneg (by decide)
    have := five_le_length (le_codeValue_of_neg hneg)
    rw [codeLength, if_neg hne]
    omega
  · exact Nat.zero_le _

theorem codeLength_le {bytes : List UInt8} {value : Nat} (h : Varint.Denotes bytes value) :
    codeLength (codeOfValue value) ≤ 1 + bytes.length + growth (codeOfValue value) := by
  have hread := h.length_le
  have hkey : Key.length codeField = 1 := by decide
  rw [codeLength, growth, hkey]
  split
  · exact Nat.zero_le _
  · split
    · next hneg =>
      have hwritten := Varint.length_le (codeValue_lt (codeOfValue value))
      have hfive := five_le_length (le_of_codeOfValue_neg hneg)
      rw [Varint.maxLength] at hwritten
      omega
    · next hneg =>
      have hwritten := Varint.length_mono (codeValue_codeOfValue_le (Int32.not_lt.1 hneg))
      omega

/-! ## Fields -/

section Fields

variable {limit : Nat} {f : RawField} (hf : IsField limit f.key f.keyLength f.bytes)
include hf

theorem length_payload_lt : f.payload.length < f.bytes.length := by
  obtain ⟨depth, header, value, _, hk, _, hb, hh⟩ := hf
  have := hk.length_pos
  rw [RawField.payload_of_append hb hh, hb, List.length_append]
  omega

theorem denotes_value (hk : f.key = codeKey) : Varint.Denotes f.payload f.value := by
  obtain ⟨depth, header, value, _, _, hv, hb, hh⟩ := hf
  have hp := RawField.payload_of_append hb hh
  rw [hk] at hv
  cases hv with
  | plain hv =>
    cases hv with
    | varint hd =>
      rw [RawField.value_of_denotes (hp ▸ hd), hp]
      exact hd

theorem codeLength_value_le (hk : f.key = codeKey) :
    codeLength (codeOfValue f.value) ≤ f.bytes.length + growth (codeOfValue f.value) := by
  have hread := codeLength_le (denotes_value hf hk)
  have := length_payload_lt hf
  omega

theorem textLength_le (hk : f.key = textKey) (hx : faultOf? f = none) :
    textLength (textOf f.content) ≤ f.bytes.length := by
  obtain ⟨length, hd, hp⟩ := denotes_content hf hk
  have hpayload := length_payload_lt hf
  have hlength := hd.length_le
  have hkey : Key.length textField = 1 := by decide
  rw [hp, List.length_append] at hpayload
  rw [textLength, size_textOf hx, hkey]
  split <;> omega

end Fields

theorem totalLength_append (us vs : List UnknownField) :
    totalLength (us ++ vs) = totalLength us + totalLength vs := by
  rw [← length_encodeAll, ← length_encodeAll, ← length_encodeAll, encodeAll, encodeAll, encodeAll,
    List.flatMap_append, List.length_append]

/-- One field on top of a reply. A code that is replaced gives back what it grew by, since it is
written in more bytes than that. -/
theorem encodedLength_overlay_field {limit : Nat} {f : RawField}
    (hf : IsField limit f.key f.keyLength f.bytes) (hx : f.isText = true → faultOf? f = none)
    (r : Reply) :
    (r.overlay [f]).encodedLength + growth r.code ≤
      r.encodedLength + f.bytes.length + growth (r.overlay [f]).code := by
  rw [encodedLength_eq, encodedLength_eq]
  rcases f.key_cases with hk | hk | ho
  · have hold := growth_le_codeLength r.code
    have hnew := codeLength_value_le hf hk
    rw [overlay_code r hk]
    simp only
    omega
  · have hnew := textLength_le hf hk (hx (RawField.classes_of_textKey hk).2.1)
    rw [overlay_text r hk]
    simp only
    omega
  · have hnew : totalLength [ofRaw f] = f.bytes.length := rfl
    rw [overlay_others r (by simpa using ho), appendUnknown]
    simp only [List.map_cons, List.map_nil, totalLength_append, hnew]
    omega

/-- By induction on the fields, which are put on top one after another. -/
theorem encodedLength_overlay {limit : Nat} {fields : List RawField}
    (hf : ∀ f ∈ fields, IsField limit f.key f.keyLength f.bytes)
    (hx : ∀ f ∈ fields, f.isText = true → faultOf? f = none) (r : Reply) :
    (r.overlay fields).encodedLength + growth r.code ≤
      r.encodedLength + (fields.flatMap RawField.bytes).length +
        growth (r.overlay fields).code := by
  induction fields generalizing r with
  | nil => simp [overlay]
  | cons f fields ih =>
    have hm := List.mem_cons_self (a := f) (l := fields)
    have hfirst := encodedLength_overlay_field (hf f hm) (hx f hm) r
    have hrest := ih (fun g hg => hf g (List.mem_cons_of_mem _ hg))
      (fun g hg => hx g (List.mem_cons_of_mem _ hg)) (r.overlay [f])
    rw [overlay_cons, List.flatMap_cons, List.length_append]
    omega

/-- What was decoded without repairing text takes five bytes more at most when it is encoded again,
and no more bytes than before if its code is not negative. -/
theorem encodedLength_decode_le (buf : List UInt8) (o : Options) (m : Reply)
    (hs : o.strictText = true) (h : decode buf o = .ok m) :
    m.encodedLength ≤ buf.length + 5 ∧ (0 ≤ m.code → m.encodedLength ≤ buf.length) := by
  obtain ⟨fields, hr, hn, rfl⟩ := mergeWith_eq_ok_iff.1 h
  obtain ⟨hb, _, hf⟩ := Cursor.splitFields_eq_iff.1 (readFields_eq_ok_iff.1 hr).2
  have hle := encodedLength_overlay hf (faultOf?_of_refusal? hs hn) {}
  have hempty : ({} : Reply).encodedLength = 0 := rfl
  rw [hb, hempty] at hle
  constructor
  · have hgrowth : growth (overlay {} fields).code ≤ 5 := by
      unfold growth
      split <;> decide
    exact Nat.le_trans (Nat.le_of_add_right_le hle) (by simpa [Cursor.start] using hgrowth)
  · intro hc
    rw [growth, growth, if_neg (Int32.not_lt.2 hc)] at hle
    simpa [Cursor.start] using hle

/-- The lowest code is read from five bytes and written in ten. -/
theorem encodedLength_decode_le_lowest_code :
    let buf := [0x08, 0x80, 0x80, 0x80, 0x80, 0x08]
    let m : Reply := { code := -2147483648 }
    decode buf {} = .ok m ∧ m.encodedLength = buf.length + 5 ∧
      m.encodedLength ≤ buf.length + 5 := by
  intro buf m
  have h : decode buf {} = .ok m := by decide +kernel
  exact ⟨h, by decide +kernel, (encodedLength_decode_le buf {} m rfl h).1⟩

end Reply
end ReflectionError
