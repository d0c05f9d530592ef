import ReflectionError.Proofs.Wire.Group

/-!
# ReflectionError.Proofs.Wire.Split

Payloads are cut into fields exactly as the grammar says.

* `Decomposes.unique`: bytes are fields one after another in one way at most, at any depth.
* `readField_eq_ok_iff`: when one field is read, and what it is.
* `splitFields_eq_iff`: when a whole payload is, and what the fields are.
* `readFields_accepts_grammar`: a payload within the size limit is accepted if and only if it is
  made up of fields within the nesting limit; the fields that are handed out are those.
-/

namespace ReflectionError
namespace Grammar

/-- `bytes` fall into `pieces`, and each is a field whose depth is at most `limit`. -/
def Decomposes (limit : Nat) (bytes : List UInt8) (pieces : List (List UInt8)) : Prop :=
  pieces.flatten = bytes ∧ ∀ piece ∈ pieces, ∃ key keyLength, IsField limit key keyLength piece

theorem spelledBy_unique {key key' : Key} {header header' : List UInt8} {c d d' : Cursor}
    (h : key.SpelledBy header) (hp : c.Passes header d) (h' : key'.SpelledBy header')
    (hp' : c.Passes header' d') : key = key' ∧ d = d' := by
  have hr := Cursor.readKey_eq_ok_iff.2 ⟨header, h, hp⟩
  rw [Cursor.readKey_eq_ok_iff.2 ⟨header', h', hp'⟩] at hr
  cases hr
  exact ⟨rfl, rfl⟩

theorem Value.unique {depth depth' : Nat} {key : Key} {value value' : List UInt8} {c d d' : Cursor}
    (h : Value depth key value) (hp : c.Passes value d) (h' : Value depth' key value')
    (hp' : c.Passes value' d') : d = d' := by
  cases h with
  | plain hv =>
    cases h' with
    | plain hv' =>
      have hs := hv.ne_startGroup
      have he := hv.ne_endGroup
      have hr := (Cursor.skipPlain_eq_ok_iff hs he).2 ⟨value, hv, hp⟩
      rw [(Cursor.skipPlain_eq_ok_iff hs he).2 ⟨value', hv', hp'⟩] at hr
      cases hr
      rfl
    | group _ _ => exact absurd rfl hv.ne_startGroup
  | @group n number inner footer hf he =>
    have hl : 0 < max (n + 1) depth' := by omega
    have hr := (Cursor.closeGroups_singleton_eq_ok_iff hl).2
      ⟨_, _, Nat.le_max_left _ _, .group hf he, hp⟩
    rw [(Cursor.closeGroups_singleton_eq_ok_iff hl).2 ⟨_, _, Nat.le_max_right _ _, h', hp'⟩] at hr
    cases hr
    rfl

theorem IsField.unique {limit limit' keyLength keyLength' : Nat} {key key' : Key}
    {bytes bytes' : List UInt8} {c d d' : Cursor} (h : IsField limit key keyLength bytes)
    (hp : c.Passes bytes d) (h' : IsField limit' key' keyLength' bytes')
    (hp' : c.Passes bytes' d') :
    key = key' ∧ keyLength = keyLength' ∧ d = d' := by
  obtain ⟨depth, header, value, _, hk, hv, rfl, rfl⟩ := h
  obtain ⟨depth', header', value', _, hk', hv', rfl, rfl⟩ := h'
  obtain ⟨e, hp, hq⟩ := hp.split
  obtain ⟨e', hp', hq'⟩ := hp'.split
  obtain ⟨rfl, rfl⟩ := spelledBy_unique hk hp hk' hp'
  exact ⟨rfl, by rw [hp.bytes_unique hp'], hv.unique hq hv' hq'⟩

theorem Decomposes.eq_nil {limit : Nat} {pieces : List (List UInt8)}
    (h : Decomposes limit [] pieces) : pieces = [] := by
  cases pieces with
  | nil => rfl
  | cons piece rest =>
    obtain ⟨key, keyLength, hf⟩ := h.2 piece (List.mem_cons_self ..)
    have hl := hf.length_pos
    rw [List.flatten_eq_nil_iff.1 h.1 piece (List.mem_cons_self ..), List.length_nil] at hl
    omega

theorem Decomposes.tail {limit : Nat} {bytes piece : List UInt8} {rest : List (List UInt8)}
    (h : Decomposes limit bytes (piece :: rest)) : Decomposes limit rest.flatten rest :=
  ⟨rfl, fun p hp => h.2 p (List.mem_cons_of_mem _ hp)⟩

theorem Decomposes.unique {limit limit' : Nat} {bytes : List UInt8}
    {pieces pieces' : List (List UInt8)} (h : Decomposes limit bytes pieces)
    (h' : Decomposes limit' bytes pieces') : pieces = pieces' := by
  induction pieces generalizing bytes pieces' with
  | nil =>
    obtain rfl : [] = bytes := h.1
    exact h'.eq_nil.symm
  | cons piece rest ih =>
    cases pieces' with
    | nil =>
      obtain rfl : [] = bytes := h'.1
      exact h.eq_nil
    | cons piece' rest' =>
      obtain ⟨key, keyLength, hf⟩ := h.2 piece (List.mem_cons_self ..)
      obtain ⟨key', keyLength', hf'⟩ := h'.2 piece' (List.mem_cons_self ..)
      have hp := Cursor.passes_start piece rest.flatten
      have hp' := Cursor.passes_start piece' rest'.flatten
      rw [← List.flatten_cons, h.1] at hp
      rw [← List.flatten_cons, h'.1] at hp'
      obtain ⟨_, _, hd⟩ := hf.unique hp hf' hp'
      rw [← hd] at hp'
      have ht := h'.tail
      rw [← (Cursor.mk.inj hd).2] at ht
      rw [hp.bytes_unique hp', ih h.tail ht]

end Grammar

/-- The fields stand one after another, the first of them at `offset`. -/
def Placed : Nat → List RawField → Prop
  | _, [] => True
  | offset, field :: fields => field.offset = offset ∧ Placed (offset + field.bytes.length) fields

theorem placed_iff {offset : Nat} {fields : List RawField} :
    Placed offset fields ↔ ∀ i (hi : i < fields.length),
      fields[i].offset = offset + ((fields.take i).map fun f => f.bytes.length).sum := by
  induction fields generalizing offset with
  | nil => simp [Placed]
  | cons field fields ih =>
    rw [Placed, ih]
    constructor
    · rintro ⟨h0, h⟩ i hi
      cases i with
      | zero => simpa using h0
      | succ i =>
        rw [List.getElem_cons_succ, h i (by simpa using hi)]
        simp only [List.take_succ_cons, List.map_cons, List.sum_cons]
        omega
    · intro h
      refine ⟨h 0 (Nat.zero_lt_succ _), fun i hi => ?_⟩
      have := h (i + 1) (by simpa using hi)
      simp only [List.getElem_cons_succ, List.take_succ_cons, List.map_cons, List.sum_cons] at this
      omega

namespace Cursor

open Grammar

theorem readField_eq_ok_iff {limit : Nat} {field : RawField} {c d : Cursor} :
    c.readField limit = .ok (field, d) ↔
      field.offset = c.offset ∧
        IsField (min limit maxNesting) field.key field.keyLength field.bytes ∧
        c.Passes field.bytes d := by
  constructor
  · intro h
    unfold readField at h
    split at h
    · cases h
    · next key behind hk =>
      split at h
      · cases h
      · next next hs =>
        cases h
        obtain ⟨header, hh, hp⟩ := readKey_eq_ok_iff.1 hk
        obtain ⟨depth, value, hd, hv, hp'⟩ := skipValue_eq_ok_iff.1 hs
        have hb := hp.trans hp'
        refine ⟨rfl, ⟨depth, header, value, hd, hh, hv, hb.upTo_eq, ?_⟩, ?_⟩
        · show behind.offset - c.offset = header.length
          rw [hp.2, Nat.add_sub_cancel_left]
        · show c.Passes (c.upTo d) d
          rw [hb.upTo_eq]
          exact hb
  · obtain ⟨key, offset, bytes, keyLength⟩ := field
    rintro ⟨rfl, ⟨depth, header, value, hd, hh, hv, rfl, rfl⟩, hb⟩
    obtain ⟨behind, hp, hp'⟩ := hb.split
    rw [readField, readKey_eq_ok_iff.2 ⟨header, hh, hp⟩]
    simp only [skipValue_eq_ok_iff.2 ⟨depth, value, hd, hv, hp'⟩, hb.upTo_eq]
    rw [hp.2, Nat.add_sub_cancel_left]

theorem nextField_eq_ok_iff {limit : Nat} {field : RawField} {c d : Cursor} :
    c.nextField limit = .ok (some field, d) ↔ c.readField limit = .ok (field, d) := by
  rw [nextField]
  split
  · next hr =>
    refine ⟨fun h => (nomatch h), fun h => ?_⟩
    obtain ⟨_, hf, hp⟩ := readField_eq_ok_iff.1 h
    have := hf.length_pos
    have := congrArg List.length (hr.symm.trans hp.1)
    rw [List.length_nil, List.length_append] at this
    omega
  · rw [Except.map_eq_ok_iff]
    constructor
    · rintro ⟨⟨f, e⟩, hr, h⟩
      cases h
      exact hr
    · intro h
      exact ⟨_, h, rfl⟩

theorem nextField_eq_none_iff {limit : Nat} {c d : Cursor} :
    c.nextField limit = .ok (none, d) ↔ c.rest = [] ∧ d = c := by
  rw [nextField]
  split
  · next hr =>
    constructor
    · intro h
      cases h
      exact ⟨hr, rfl⟩
    · rintro ⟨_, rfl⟩
      rfl
  · next hr =>
    constructor
    · intro h
      obtain ⟨_, _, he⟩ := Except.map_eq_ok_iff.1 h
      cases he
    · rintro ⟨hn, _⟩
      exact absurd hn hr

/-- Cutting up a payload is asking for the next field until the end or the first failure. -/
theorem splitFields_eq_nextField (limit : Nat) (c : Cursor) :
    c.splitFields limit =
      match c.nextField limit with
      | .ok (none, _) => ([], none)
      | .ok (some field, next) =>
        (field :: (next.splitFields limit).1, (next.splitFields limit).2)
      | .error failure => ([], some failure.error) := by
  rw [splitFields, nextField]
  split
  · rfl
  · cases hr : c.readField limit with
    | error failure => rfl
    | ok r => rfl

theorem splitFields_of_readField {limit : Nat} {field : RawField} {c d : Cursor}
    (h : c.readField limit = .ok (field, d)) :
    c.splitFields limit = (field :: (d.splitFields limit).1, (d.splitFields limit).2) := by
  rw [splitFields_eq_nextField, nextField_eq_ok_iff.2 h]

theorem splitFields_of_rest_eq_nil {c : Cursor} (limit : Nat) (h : c.rest = []) :
    c.splitFields limit = ([], none) := by
  rw [splitFields, if_pos h]

theorem splitFields_of_error {limit : Nat} {c : Cursor} {failure : Failure} (hc : c.rest ≠ [])
    (h : c.readField limit = .error failure) :
    c.splitFields limit = ([], some failure.error) := by
  rw [splitFields_eq_nextField, nextField, if_neg hc, h]
  rfl

theorem isField_of_mem_splitFields {limit : Nat} {field : RawField} {c : Cursor}
    (h : field ∈ (c.splitFields limit).1) :
    IsField (min limit maxNesting) field.key field.keyLength field.bytes := by
  fun_induction splitFields limit c with
  | case1 => cases h
  | case2 => cases h
  | case3 c _ f next hr fields stop hs ih =>
    rw [hs] at ih
    rcases List.mem_cons.1 h with rfl | h
    · exact (readField_eq_ok_iff.1 hr).2.1
    · exact ih h

/-- From left to right by induction on the reading, from right to left on the fields. -/
theorem splitFields_eq_iff {limit : Nat} {fields : List RawField} {c : Cursor} :
    c.splitFields limit = (fields, none) ↔
      fields.flatMap RawField.bytes = c.rest ∧ Placed c.offset fields ∧
        ∀ f ∈ fields, IsField (min limit maxNesting) f.key f.keyLength f.bytes := by
  constructor
  · intro h
    refine ⟨?_, ?_, fun f hf => isField_of_mem_splitFields (by rw [h]; exact hf)⟩
    · fun_induction splitFields limit c generalizing fields with
      | case1 c hc => cases h; exact hc.symm
      | case2 => cases h
      | case3 c _ f next hr fs stop hs ih =>
        cases h
        rw [List.flatMap_cons, ih hs, (readField_eq_ok_iff.1 hr).2.2.1]
    · fun_induction splitFields limit c generalizing fields with
      | case1 => cases h; trivial
      | case2 => cases h
      | case3 c _ f next hr fs stop hs ih =>
        cases h
        obtain ⟨ho, _, hp⟩ := readField_eq_ok_iff.1 hr
        exact ⟨ho, hp.2 ▸ ih hs⟩
  · intro h
    induction fields generalizing c with
    | nil =>
      have hr : c.rest = [] := h.1.symm
      rw [splitFields, if_pos hr]
    | cons field fields ih =>
      obtain ⟨hb, ⟨ho, hpl⟩, hf⟩ := h
      have hp : c.Passes field.bytes
          ⟨c.offset + field.bytes.length, fields.flatMap RawField.bytes⟩ :=
        ⟨hb.symm, rfl⟩
      have hr := readField_eq_ok_iff.2 ⟨ho, hf field (List.mem_cons_self ..), hp⟩
      rw [splitFields_of_readField hr, ih ⟨rfl, hpl, fun f hm => hf f (List.mem_cons_of_mem _ hm)⟩]

end Cursor

open Grammar

theorem readFields_eq_ok_iff {buf : List UInt8} {o : Options} {fields : List RawField} :
    readFields buf o = .ok fields ↔
      o.Admits buf.length ∧ (Cursor.start buf).splitFields o.nestingLimit = (fields, none) := by
  rw [← Options.checkSize_eq_ok_iff, readFields]
  cases hc : o.checkSize buf.length with
  | error e => simp
  | ok u =>
    cases hs : (Cursor.start buf).splitFields o.nestingLimit with
    | mk fs stop => cases stop <;> simp

theorem Grammar.Decomposes.exists_placed {limit : Nat} {bytes : List UInt8}
    {pieces : List (List UInt8)} (h : Decomposes limit bytes pieces) (offset : Nat) :
    ∃ fields : List RawField, fields.flatMap RawField.bytes = bytes ∧ Placed offset fields ∧
      ∀ f ∈ fields, IsField limit f.key f.keyLength f.bytes := by
  induction pieces generalizing bytes offset with
  | nil => exact ⟨[], h.1, trivial, fun f hf => (nomatch hf)⟩
  | cons piece rest ih =>
    obtain ⟨key, keyLength, hf⟩ := h.2 piece (List.mem_cons_self ..)
    obtain ⟨fields, hb, hp, hfs⟩ := ih h.tail (offset + piece.length)
    refine ⟨⟨key, offset, piece, keyLength⟩ :: fields, ?_, ⟨rfl, hp⟩, ?_⟩
    · rw [List.flatMap_cons, hb]
      exact h.1
    · intro f hm
      rcases List.mem_cons.1 hm with rfl | hm
      · exact hf
      · exact hfs f hm

theorem decomposes_of_readFields {buf : List UInt8} {o : Options} {fields : List RawField}
    (h : readFields buf o = .ok fields) :
    Decomposes (min o.nestingLimit maxNesting) buf (fields.map RawField.bytes) := by
  obtain ⟨hb, _, hf⟩ := Cursor.splitFields_eq_iff.1 (readFields_eq_ok_iff.1 h).2
  refine ⟨?_, fun piece hm => ?_⟩
  · rw [← List.flatMap_def]
    exact hb
  · obtain ⟨f, hmem, rfl⟩ := List.mem_map.1 hm
    exact ⟨f.key, f.keyLength, hf f hmem⟩

/-- The reader and the grammar agree: on what is accepted, and on where each field begins, which of
its bytes are the key and what the key says. The way to cut up a payload is the only one. -/
theorem readFields_accepts_grammar (buf : List UInt8) (o : Options) :
    ((∃ fields, readFields buf o = .ok fields) ↔
      o.Admits buf.length ∧ ∃ pieces, Decomposes (min o.nestingLimit maxNesting) buf pieces) ∧
    (∀ limit limit' pieces pieces', Decomposes limit buf pieces → Decomposes limit' buf pieces' →
      pieces = pieces') ∧
    (∀ fields, readFields buf o = .ok fields →
      Decomposes (min o.nestingLimit maxNesting) buf (fields.map RawField.bytes) ∧
      ∀ i (hi : i < fields.length),
        fields[i].offset = ((fields.take i).map fun f => f.bytes.length).sum ∧
        IsField (min o.nestingLimit maxNesting) fields[i].key fields[i].keyLength
          fields[i].bytes) := by
  refine ⟨⟨?_, ?_⟩, fun _ _ _ _ => Decomposes.unique, fun fields h => ?_⟩
  · rintro ⟨fields, h⟩
    exact ⟨(readFields_eq_ok_iff.1 h).1, _, decomposes_of_readFields h⟩
  · rintro ⟨ha, pieces, h⟩
    obtain ⟨fields, hb, hp, hf⟩ := h.exists_placed 0
    exact ⟨fields, readFields_eq_ok_iff.2 ⟨ha, Cursor.splitFields_eq_iff.2 ⟨hb, hp, hf⟩⟩⟩
  · obtain ⟨_, hp, hf⟩ := Cursor.splitFields_eq_iff.1 (readFields_eq_ok_iff.1 h).2
    refine ⟨decomposes_of_readFields h, fun i hi => ⟨?_, hf _ (List.getElem_mem hi)⟩⟩
    rw [placed_iff.1 hp i hi, Cursor.start, Nat.zero_add]

end ReflectionError
