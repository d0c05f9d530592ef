import ReflectionError.Proofs.Reply.Fields

/-!
# ReflectionError.Proofs.Reply.Unknown

Undeclared fields as fields of the wire format. `WellFormed` is what holds of each that came out of
a payload; `Obtained` says how it can have come out of one. `locate` gives fields written one after
another their places.

* `Obtained.wellFormed`: what came out of payloads within a nesting limit is well-formed.
* `WellFormed.nextField_raw`, `WellFormed.eq_of_raw_eq`: the raw bytes give the field again, and no
  other field has them.
* `splitFields_encodeAll`: well-formed fields are found again in their bytes, one after another.
* `not_isDeclared_of_decode`: decoding keeps no declared field.
-/

namespace ReflectionError

open Grammar

namespace UnknownField

def key (u : UnknownField) : Key := ⟨u.number, u.wireType⟩

/-- The raw bytes are one field of the wire format, with the key that is noted and no deeper than
`limit`. -/
def WellFormed (limit : Nat) (u : UnknownField) : Prop := IsField limit u.key u.keyLength u.raw

/-- The key is that of a field which the reply declares. -/
def IsDeclared (u : UnknownField) : Prop :=
  u.key = Reply.codeKey ∨ u.key = Reply.textKey

instance (u : UnknownField) : Decidable u.IsDeclared :=
  inferInstanceAs (Decidable (u.key = Reply.codeKey ∨ u.key = Reply.textKey))

/-- The field came out of a payload, under a nesting limit of at most `limit`. -/
inductive Obtained (limit : Nat) : UnknownField → Prop where
  | decoded {payload : List UInt8} {o : Options} {r : Reply} {u : UnknownField} :
      o.nestingLimit ≤ limit → Reply.decode payload o = .ok r → u ∈ r.unknown → Obtained limit u
  | merged {payload : List UInt8} {o : Options} {r s : Reply} {u : UnknownField} :
      (∀ v ∈ r.unknown, Obtained limit v) → o.nestingLimit ≤ limit →
      r.mergeWith payload o = .ok s → u ∈ s.unknown → Obtained limit u
  | read {payload : List UInt8} {o : Options} {fields : List RawField} {f : RawField} :
      o.nestingLimit ≤ limit → readFields payload o = .ok fields → f ∈ fields →
      Obtained limit (ofRaw f)

/-- The fields in their places when they are written one after another from `offset` on. -/
def locate : Nat → List UnknownField → List RawField
  | _, [] => []
  | offset, u :: us => ⟨u.key, offset, u.raw, u.keyLength⟩ :: locate (offset + u.raw.length) us

theorem map_ofRaw_locate (offset : Nat) (us : List UnknownField) :
    (locate offset us).map ofRaw = us := by
  induction us generalizing offset with
  | nil => rfl
  | cons u us ih => rw [locate, List.map_cons, ih]; rfl

theorem length_locate (offset : Nat) (us : List UnknownField) :
    (locate offset us).length = us.length := by
  have := congrArg List.length (map_ofRaw_locate offset us)
  rwa [List.length_map] at this

theorem ofRaw_mem_of_mem_locate {offset : Nat} {us : List UnknownField} {f : RawField}
    (h : f ∈ locate offset us) : ofRaw f ∈ us := by
  have := List.mem_map_of_mem (f := ofRaw) h
  rwa [map_ofRaw_locate] at this

theorem locate_append (offset : Nat) (us vs : List UnknownField) :
    locate offset (us ++ vs) =
      locate offset us ++ locate (offset + (encodeAll us).length) vs := by
  induction us generalizing offset with
  | nil => rfl
  | cons u us ih =>
    rw [List.cons_append, locate, locate, ih, List.cons_append, encodeAll, encodeAll,
      List.flatMap_cons, List.length_append, Nat.add_assoc]

theorem flatMap_bytes_locate (offset : Nat) (us : List UnknownField) :
    (locate offset us).flatMap RawField.bytes = encodeAll us := by
  induction us generalizing offset with
  | nil => rfl
  | cons u us ih => rw [locate, List.flatMap_cons, ih, encodeAll, encodeAll, List.flatMap_cons]

theorem placed_locate (offset : Nat) (us : List UnknownField) :
    Placed offset (locate offset us) := by
  induction us generalizing offset with
  | nil => trivial
  | cons u us ih => exact ⟨rfl, ih _⟩

theorem locate_map_ofRaw {offset : Nat} {fields : List RawField} (h : Placed offset fields) :
    locate offset (fields.map ofRaw) = fields := by
  induction fields generalizing offset with
  | nil => rfl
  | cons f fields ih =>
    obtain ⟨rfl, hp⟩ := h
    rw [List.map_cons, locate]
    exact congrArg (f :: ·) (ih hp)

theorem splitFields_encodeAll {limit : Nat} {us : List UnknownField}
    (h : ∀ u ∈ us, u.WellFormed (min limit maxNesting)) (offset : Nat) :
    Cursor.splitFields limit ⟨offset, encodeAll us⟩ = (locate offset us, none) :=
  Cursor.splitFields_eq_iff.2 ⟨flatMap_bytes_locate offset us, placed_locate offset us,
    fun _ hf => h _ (ofRaw_mem_of_mem_locate hf)⟩

theorem readFields_encodeAll {o : Options} {us : List UnknownField}
    (h : ∀ u ∈ us, u.WellFormed (min o.nestingLimit maxNesting))
    (ha : o.Admits (encodeAll us).length) :
    readFields (encodeAll us) o = .ok (locate 0 us) :=
  readFields_eq_ok_iff.2 ⟨ha, splitFields_encodeAll h 0⟩

theorem wellFormed_of_readFields {payload : List UInt8} {o : Options} {fields : List RawField}
    {f : RawField} (h : readFields payload o = .ok fields) (hf : f ∈ fields) :
    (ofRaw f).WellFormed (min o.nestingLimit maxNesting) :=
  (Cursor.splitFields_eq_iff.1 (readFields_eq_ok_iff.1 h).2).2.2 f hf

theorem isOther_iff {f : RawField} : f.isOther = true ↔ ¬ (ofRaw f).IsDeclared := by
  have hk : (ofRaw f).key = f.key := rfl
  rw [RawField.isOther_iff_ne, IsDeclared, hk, not_or]

namespace WellFormed

variable {limit : Nat} {u : UnknownField}

theorem mono {limit' : Nat} (h : u.WellFormed limit) (hl : limit ≤ limit') :
    u.WellFormed limit' :=
  IsField.mono h hl

theorem number_bounds (h : u.WellFormed limit) : 1 ≤ u.number ∧ u.number ≤ Key.maxNumber := by
  obtain ⟨depth, header, value, _, hk, _⟩ := h
  exact ⟨hk.1, hk.2.1⟩

theorem wireType_ne_endGroup (h : u.WellFormed limit) : u.wireType ≠ .endGroup := by
  obtain ⟨depth, header, value, _, _, hv, _⟩ := h
  exact hv.wireType_ne_endGroup

theorem payload_ne_nil (h : u.WellFormed limit) : u.payload ≠ [] := by
  obtain ⟨depth, header, value, _, _, hv, hr, hl⟩ := h
  have hp : u.payload = value := by rw [payload, hr, hl, List.drop_left]
  intro hn
  have := hv.length_pos
  rw [← hp, hn, List.length_nil] at this
  omega

/-- Read by themselves the raw bytes give the field again, and nothing is left. -/
theorem nextField_raw (h : u.WellFormed (min limit maxNesting)) :
    (Cursor.start u.raw).nextField limit =
      .ok (some ⟨u.key, 0, u.raw, u.keyLength⟩, ⟨u.raw.length, []⟩) := by
  have hp := Cursor.passes_start u.raw []
  rw [List.append_nil] at hp
  exact Cursor.nextField_eq_ok_iff.2 (Cursor.readField_eq_ok_iff.2 ⟨rfl, h, hp⟩)

theorem eq_of_raw_eq {limit' : Nat} {v : UnknownField} (hu : u.WellFormed limit)
    (hv : v.WellFormed limit') (h : u.raw = v.raw) : u = v := by
  obtain ⟨number, wireType, keyLength, raw⟩ := u
  obtain ⟨number', wireType', keyLength', raw'⟩ := v
  obtain rfl : raw = raw' := h
  have hp := Cursor.passes_start raw []
  obtain ⟨hk, hl, _⟩ := IsField.unique hu hp hv hp
  cases hk
  cases hl
  rfl

end WellFormed

end UnknownField

namespace Reply

open UnknownField

/-- An undeclared field after decoding onto `r` was one before, or it is a field of the payload. -/
theorem mem_unknown_of_mergeWith {payload : List UInt8} {o : Options} {r s : Reply}
    {u : UnknownField} (h : r.mergeWith payload o = .ok s) (hu : u ∈ s.unknown) :
    u ∈ r.unknown ∨ (u.WellFormed (min o.nestingLimit maxNesting) ∧ ¬ u.IsDeclared) := by
  obtain ⟨fields, hf, _, rfl⟩ := mergeWith_eq_ok_iff.1 h
  rcases List.mem_append.1 hu with hu | hu
  · exact .inl hu
  · obtain ⟨f, hm, rfl⟩ := List.mem_map.1 hu
    obtain ⟨hm, ho⟩ := List.mem_filter.1 hm
    exact .inr ⟨wellFormed_of_readFields hf hm, isOther_iff.1 ho⟩

theorem mem_unknown_of_decode {payload : List UInt8} {o : Options} {r : Reply}
    (h : decode payload o = .ok r) :
    ∀ u ∈ r.unknown, u.WellFormed (min o.nestingLimit maxNesting) ∧ ¬ u.IsDeclared := by
  intro u hu
  rcases mem_unknown_of_mergeWith h hu with hn | hw
  · cases hn
  · exact hw

theorem not_isDeclared_of_decode {payload : List UInt8} {o : Options} {r : Reply}
    {u : UnknownField} (h : decode payload o = .ok r) (hu : u ∈ r.unknown) : ¬ u.IsDeclared :=
  (mem_unknown_of_decode h u hu).2

end Reply

theorem UnknownField.Obtained.wellFormed {limit : Nat} {u : UnknownField} (h : Obtained limit u) :
    u.WellFormed (min limit maxNesting) := by
  induction h with
  | decoded hl hd hu => exact (Reply.mem_unknown_of_decode hd _ hu).1.mono (by omega)
  | merged _ hl hm hu ih =>
    rcases Reply.mem_unknown_of_mergeWith hm hu with hr | ⟨hw, _⟩
    · exact ih _ hr
    · exact hw.mono (by omega)
  | read hl hr hf => exact (wellFormed_of_readFields hr hf).mono (by omega)

end ReflectionError
