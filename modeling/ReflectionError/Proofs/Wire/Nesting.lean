import ReflectionError.Proofs.Wire.Failure
import ReflectionError.Proofs.Wire.Limit

/-!
# ReflectionError.Proofs.Wire.Nesting

The nesting limit is exact. `Excess limit bytes` says that `bytes` open one group more than the
limit allows: start keys, each in the group that the one before it opens, and between them complete
fields that stay within what is left of the limit. Reading stops for its nesting where such bytes
stand, and nowhere else.

* `fieldsWithin_iff`: complete fields within a limit, as one derivation and as a list of pieces.
* `passInner_eq_nesting_iff`: the one step inside groups that exceeds the limit.
* `exceeds_of_closeGroups`, `closeGroups_of_excess`: all steps, in both directions.
* `readField_eq_nesting_iff`, `splitFields_nesting_iff`: one field, and all fields.
* `Fields.overnests`: complete fields that are deeper than a limit exceed it.
* `readFields_nesting_exact`: when a payload is refused for its nesting, and what the error says.
-/

namespace ReflectionError
namespace Grammar

/-- Complete fields, none of them deeper than `limit`. -/
def FieldsWithin (limit : Nat) (bytes : List UInt8) : Prop :=
  ∃ depth, depth ≤ limit ∧ Fields depth bytes

/-- Start keys, one more than `limit`, each in the group of the one before. Behind a key, the fields
in front of the next one are complete, and within what the open groups leave of the limit. -/
inductive Excess : Nat → List UInt8 → Prop where
  | last {number : Nat} {header : List UInt8} :
      Key.SpelledBy ⟨number, .startGroup⟩ header → Excess 0 header
  | enter {limit number : Nat} {header inner rest : List UInt8} :
      Key.SpelledBy ⟨number, .startGroup⟩ header → FieldsWithin limit inner → Excess limit rest →
      Excess (limit + 1) (header ++ inner ++ rest)

/-- Behind complete fields within the limit stands what exceeds it, whatever follows. -/
def Overnests (limit : Nat) (bytes : List UInt8) : Prop :=
  ∃ front excess rest, bytes = front ++ excess ++ rest ∧ FieldsWithin limit front ∧
    Excess limit excess

/-- The limit is exceeded while the groups of the stack are open: in the innermost one, or in one
further out when those in it are closed. -/
inductive Exceeds (limit : Nat) : List Nat → List UInt8 → Prop where
  | inside {number left : Nat} {outer : List Nat} {inner excess : List UInt8} :
      left + outer.length + 1 = limit → FieldsWithin left inner → Excess left excess →
      Exceeds limit (number :: outer) (inner ++ excess)
  | behind {number left : Nat} {outer : List Nat} {inner footer rest : List UInt8} :
      left + outer.length + 1 = limit → FieldsWithin left inner →
      Key.SpelledBy ⟨number, .endGroup⟩ footer → Exceeds limit outer rest →
      Exceeds limit (number :: outer) (inner ++ footer ++ rest)

/-! ## Fields within a limit -/

namespace FieldsWithin

variable {limit : Nat}

theorem nil : FieldsWithin limit [] := ⟨0, Nat.zero_le _, .nil⟩

theorem cons {key : Key} {depth : Nat} {header value rest : List UInt8} (hk : key.SpelledBy header)
    (hv : Value depth key value) (hd : depth ≤ limit) (h : FieldsWithin limit rest) :
    FieldsWithin limit (header ++ value ++ rest) := by
  obtain ⟨depth', hd', hf⟩ := h
  exact ⟨max depth depth', Nat.max_le.2 ⟨hd, hd'⟩, .cons hk hv hf⟩

end FieldsWithin

theorem decomposes_of_fields {limit depth : Nat} {bytes : List UInt8} :
    Fields depth bytes → depth ≤ limit → ∃ pieces, Decomposes limit bytes pieces
  | .nil, _ => ⟨[], rfl, fun _ h => nomatch h⟩
  | @Fields.cons key d d' header value rest hk hv hf, hd => by
    obtain ⟨pieces, hr, hp⟩ := decomposes_of_fields hf (Nat.le_trans (Nat.le_max_right ..) hd)
    refine ⟨(header ++ value) :: pieces, by rw [List.flatten_cons, hr], ?_⟩
    intro piece hm
    rcases List.mem_cons.1 hm with rfl | hm
    · exact ⟨key, _, d, header, value, Nat.le_trans (Nat.le_max_left ..) hd, hk, hv, rfl, rfl⟩
    · exact hp piece hm

theorem fieldsWithin_iff {limit : Nat} {bytes : List UInt8} :
    FieldsWithin limit bytes ↔ ∃ pieces, Decomposes limit bytes pieces := by
  constructor
  · rintro ⟨depth, hd, hf⟩
    exact decomposes_of_fields hf hd
  · rintro ⟨pieces, h⟩
    induction pieces generalizing bytes with
    | nil =>
      obtain rfl : [] = bytes := h.1
      exact .nil
    | cons piece rest ih =>
      obtain ⟨key, _, depth, header, value, hd, hk, hv, rfl, _⟩ := h.2 _ (List.mem_cons_self ..)
      have hf := FieldsWithin.cons hk hv hd (ih h.tail)
      rwa [← List.flatten_cons, h.1] at hf

theorem Exceeds.cons {limit number depth left : Nat} {outer : List Nat} {key : Key}
    {header value rest : List UInt8} (hk : key.SpelledBy header) (hv : Value depth key value)
    (hd : depth ≤ left) (hl : left + outer.length + 1 = limit)
    (h : Exceeds limit (number :: outer) rest) :
    Exceeds limit (number :: outer) (header ++ value ++ rest) := by
  cases h with
  | @inside _ left' _ inner excess hl' hf he =>
    obtain rfl : left' = left := by omega
    rw [← List.append_assoc]
    exact .inside hl (hf.cons hk hv hd) he
  | @behind _ left' _ inner footer rest hl' hf hc h =>
    obtain rfl : left' = left := by omega
    have := Exceeds.behind hl (hf.cons hk hv hd) hc h
    simpa only [List.append_assoc] using this

end Grammar

namespace Cursor

open Grammar

/-! ## Reads that do not look at the nesting -/

section Reads

variable {c : Cursor} {failure : Failure}

theorem not_isNesting_of_readVarint (h : c.readVarint = .error failure) :
    ¬ failure.error.IsNesting := by
  rintro ⟨limit, hn⟩
  obtain ⟨_, ⟨_, _, he⟩ | ⟨_, _, he⟩⟩ := readVarint_eq_error_iff.1 h
  · rw [he] at hn
    cases hn
  · rw [he] at hn
    cases hn

theorem not_isNesting_of_readKey (h : c.readKey = .error failure) :
    ¬ failure.error.IsNesting := by
  unfold readKey at h
  split at h
  · next hv =>
    cases h
    exact not_isNesting_of_readVarint hv
  · split at h
    · cases h
      rintro ⟨_, hn⟩
      cases hn
    · split at h
      · cases h
      · cases h
        rintro ⟨_, hn⟩
        cases hn

theorem not_isNesting_of_readBytes {length : Nat} (h : c.readBytes length = .error failure) :
    ¬ failure.error.IsNesting := by
  unfold readBytes at h
  split at h
  · cases h
    rintro ⟨_, hn⟩
    cases hn
  · cases h

theorem not_isNesting_of_readLengthDelimited (h : c.readLengthDelimited = .error failure) :
    ¬ failure.error.IsNesting := by
  unfold readLengthDelimited at h
  split at h
  · next hv =>
    cases h
    exact not_isNesting_of_readVarint hv
  · exact not_isNesting_of_readBytes h

theorem not_isNesting_of_skipPlain {wireType : WireType}
    (h : c.skipPlain wireType = .error failure) : ¬ failure.error.IsNesting := by
  cases wireType with
  | varint => exact not_isNesting_of_readVarint (Except.map_eq_error_iff.1 h)
  | fixed64 => exact not_isNesting_of_readBytes (Except.map_eq_error_iff.1 h)
  | lengthDelimited => exact not_isNesting_of_readLengthDelimited (Except.map_eq_error_iff.1 h)
  | startGroup => cases h
  | endGroup => cases h
  | fixed32 => exact not_isNesting_of_readBytes (Except.map_eq_error_iff.1 h)

end Reads

/-! ## Groups -/

section Groups

variable {limit carried : Nat} {c : Cursor}

/-- A step inside groups exceeds the limit if and only if it meets a start key and as many groups
are open as may be. -/
theorem passInner_eq_nesting_iff {number : Nat} {outer : List Nat} {stood : Cursor} :
    c.passInner limit number outer = .error ⟨.recursionLimitExceeded carried, stood⟩ ↔
      carried = limit ∧ limit ≤ outer.length + 1 ∧
        ∃ nested header, Key.SpelledBy ⟨nested, .startGroup⟩ header ∧ c.Passes header stood := by
  constructor
  · intro h
    unfold passInner at h
    split at h
    · next hk =>
      cases h
      exact absurd ⟨carried, rfl⟩ (not_isNesting_of_readKey hk)
    · next key behind hk =>
      obtain ⟨header, hh, hp⟩ := readKey_eq_ok_iff.1 hk
      obtain ⟨nested, wireType⟩ := key
      split at h
      · split at h
        · cases h
        · cases h
      · next hw =>
        obtain rfl : wireType = .startGroup := hw
        split at h
        · cases h
        · next hl =>
          cases h
          exact ⟨rfl, Nat.not_lt.1 hl, nested, header, hh, hp⟩
      · exact absurd ⟨carried, rfl⟩ (not_isNesting_of_skipPlain (Except.map_eq_error_iff.1 h))
  · rintro ⟨rfl, hl, nested, header, hh, hp⟩
    rw [passInner, readKey_eq_ok_iff.2 ⟨header, hh, hp⟩]
    simp only [if_neg (Nat.not_lt.2 hl)]

/-- By induction on the steps: each is put in front of what exceeds the limit behind it. -/
theorem exceeds_of_closeGroups {opened : List Nat} {stood : Cursor}
    (h : c.closeGroups limit opened = .error ⟨.recursionLimitExceeded carried, stood⟩)
    (hl : opened.length ≤ limit) :
    carried = limit ∧ ∃ bytes, Exceeds limit opened bytes ∧ c.Passes bytes stood := by
  fun_induction closeGroups limit opened c with
  | case1 => cases h
  | case2 c number outer failure hs =>
    cases h
    obtain ⟨hc, hfull, nested, header, hh, hp⟩ := passInner_eq_nesting_iff.1 hs
    rw [List.length_cons] at hl
    have hleft : 0 + outer.length + 1 = limit := by omega
    exact ⟨hc, [] ++ header, .inside hleft .nil (.last hh), hp⟩
  | case3 c number outer opened next hs ih =>
    obtain ⟨bytes, hi, hp⟩ := passInner_eq_ok_iff.1 hs
    rw [List.length_cons] at hl
    obtain ⟨left, hleft⟩ : ∃ left, left + outer.length + 1 = limit :=
      ⟨limit - (outer.length + 1), by omega⟩
    cases hi with
    | close hk =>
      obtain ⟨hc, rest, hr, hp'⟩ := ih h (by omega)
      exact ⟨hc, [] ++ bytes ++ rest, .behind hleft .nil hk hr, hp.trans hp'⟩
    | nest hk hn =>
      obtain ⟨hc, rest, hr, hp'⟩ := ih h (by simp only [List.length_cons]; omega)
      refine ⟨hc, bytes ++ rest, ?_, hp.trans hp'⟩
      cases hr with
      | @inside _ left' _ inner excess hl' hf he =>
        rw [List.length_cons] at hl'
        obtain rfl : left = left' + 1 := by omega
        rw [← List.append_assoc, ← List.nil_append (bytes ++ inner ++ excess)]
        exact .inside hleft .nil (.enter hk hf he)
      | @behind _ left' _ inner footer rest hl' hf he hr =>
        rw [List.length_cons] at hl'
        obtain ⟨depth, hd, hf⟩ := hf
        rw [← List.append_assoc]
        exact hr.cons hk (.group hf he) (by omega) hleft
    | plain hk hv =>
      obtain ⟨hc, rest, hr, hp'⟩ := ih h hl
      exact ⟨hc, _, hr.cons hk (.plain hv) (Nat.zero_le left) hleft, hp.trans hp'⟩

/-- By induction on the start keys. Each of them opens one group more. -/
theorem closeGroups_of_excess {number left : Nat} {outer : List Nat} {bytes : List UInt8}
    {d : Cursor} (h : Excess left bytes) (hl : left + outer.length + 1 = limit)
    (hp : c.Passes bytes d) :
    c.closeGroups limit (number :: outer) = .error ⟨.recursionLimitExceeded limit, d⟩ := by
  induction h generalizing c number outer with
  | last hk =>
    have hfull : limit ≤ outer.length + 1 := by omega
    rw [closeGroups_cons, passInner_eq_nesting_iff.2 ⟨rfl, hfull, _, _, hk, hp⟩]
  | enter hk hf _ ih =>
    obtain ⟨depth, hd, hf⟩ := hf
    obtain ⟨c₁, hp₁, hp₃⟩ := hp.split
    obtain ⟨c₀, hp₀, hp₂⟩ := hp₁.split
    have hn : outer.length + 1 < limit := by omega
    have hin : depth + (number :: outer).length + 1 ≤ limit := by rw [List.length_cons]; omega
    rw [closeGroups_of_inner (.nest hk hn) hp₀, closeGroups_of_fields hf hin hp₂]
    exact ih (by rw [List.length_cons]; omega) hp₃

end Groups

/-! ## Fields -/

section Fields

variable {limit carried : Nat} {c : Cursor}

/-- A value that stops for its nesting is a group, and with its key exceeds the limit. -/
theorem excess_of_skipValue {key : Key} {header : List UInt8} {stood : Cursor}
    (hk : key.SpelledBy header)
    (h : c.skipValue key limit = .error ⟨.recursionLimitExceeded carried, stood⟩) :
    carried = min limit maxNesting ∧
      ∃ bytes, Excess (min limit maxNesting) (header ++ bytes) ∧ c.Passes bytes stood := by
  obtain ⟨number, wireType⟩ := key
  unfold skipValue at h
  split at h
  · next hw =>
    obtain rfl : wireType = .startGroup := hw
    split at h
    · next h0 =>
      cases h
      refine ⟨h0.symm, [], ?_, .refl c⟩
      rw [h0, List.append_nil]
      exact .last hk
    · next h0 =>
      have hone : [number].length ≤ min limit maxNesting := Nat.pos_of_ne_zero h0
      obtain ⟨hc, bytes, he, hp⟩ := exceeds_of_closeGroups h hone
      refine ⟨hc, bytes, ?_, hp⟩
      cases he with
      | inside hl hf he =>
        rw [← List.append_assoc, ← hl]
        exact .enter hk hf he
      | behind _ _ _ hr => cases hr
  · cases h
  · exact absurd ⟨carried, rfl⟩ (not_isNesting_of_skipPlain h)

theorem readField_eq_nesting_iff {stood : Cursor} :
    c.readField limit = .error ⟨.recursionLimitExceeded carried, stood⟩ ↔
      carried = min limit maxNesting ∧
        ∃ bytes, Excess (min limit maxNesting) bytes ∧ c.Passes bytes stood := by
  constructor
  · intro h
    unfold readField at h
    split at h
    · next hk =>
      cases h
      exact absurd ⟨carried, rfl⟩ (not_isNesting_of_readKey hk)
    · next key behind hk =>
      obtain ⟨header, hh, hp⟩ := readKey_eq_ok_iff.1 hk
      split at h
      · next hs =>
        cases h
        obtain ⟨hc, bytes, he, hp'⟩ := excess_of_skipValue hh hs
        exact ⟨hc, header ++ bytes, he, hp.trans hp'⟩
      · cases h
  · rintro ⟨rfl, bytes, he, hp⟩
    generalize hm : min limit maxNesting = m at he
    cases he with
    | last hk =>
      rw [readField, readKey_eq_ok_iff.2 ⟨_, hk, hp⟩]
      simp only [skipValue, hm, if_true]
    | @enter left number header inner rest hk hf he =>
      obtain ⟨depth, hd, hf⟩ := hf
      obtain ⟨c₁, hp₁, hp₃⟩ := hp.split
      obtain ⟨c₀, hp₀, hp₂⟩ := hp₁.split
      have hs : c₀.closeGroups (left + 1) [number] =
          .error ⟨.recursionLimitExceeded (left + 1), stood⟩ := by
        rw [closeGroups_of_fields hf (Nat.succ_le_succ hd) hp₂]
        exact closeGroups_of_excess he rfl hp₃
      rw [readField, readKey_eq_ok_iff.2 ⟨_, hk, hp₀⟩]
      simp only [skipValue, hm, if_neg (Nat.succ_ne_zero left), hs]

theorem rest_ne_nil_of_excess {m : Nat} {bytes : List UInt8} {d : Cursor} (h : Excess m bytes)
    (hp : c.Passes bytes d) : c.rest ≠ [] := by
  intro hn
  have hb : bytes = [] := (List.append_eq_nil_iff.1 (hp.1.symm.trans hn)).1
  cases h with
  | last hk => exact List.ne_nil_of_length_pos hk.length_pos hb
  | enter hk _ _ =>
    rw [List.append_assoc] at hb
    exact List.ne_nil_of_length_pos hk.length_pos (List.append_eq_nil_iff.1 hb).1

/-- From left to right: the field that fails stands behind complete ones. From right to left: it is
reached behind them. -/
theorem splitFields_nesting_iff :
    (c.splitFields limit).2 = some (.recursionLimitExceeded carried) ↔
      carried = min limit maxNesting ∧ Overnests (min limit maxNesting) c.rest := by
  constructor
  · intro h
    obtain ⟨front, d, stood, hp, _, hf, he⟩ := splitFields_stop (Prod.ext rfl h)
    obtain ⟨hc, excess, hx, hq⟩ := readField_eq_nesting_iff.1 he
    refine ⟨hc, front, excess, stood.rest, ?_, ?_, hx⟩
    · rw [hp.1, hq.1, List.append_assoc]
    · obtain ⟨hb, _, hw⟩ := splitFields_eq_iff.1 hf
      refine fieldsWithin_iff.2 ⟨(c.splitFields limit).1.map RawField.bytes, ?_, fun piece hm => ?_⟩
      · rw [← List.flatMap_def]
        exact hb
      · obtain ⟨f, hmem, rfl⟩ := List.mem_map.1 hm
        exact ⟨f.key, f.keyLength, hw f hmem⟩
  · rintro ⟨rfl, front, excess, rest, hr, hf, hx⟩
    obtain ⟨pieces, hd⟩ := fieldsWithin_iff.1 hf
    obtain ⟨fields, hb, hplaced, hfields⟩ := hd.exists_placed c.offset
    have hsplit : splitFields limit ⟨c.offset, front⟩ = (fields, none) :=
      splitFields_eq_iff.2 ⟨hb, hplaced, hfields⟩
    let d : Cursor := ⟨c.offset + front.length, excess ++ rest⟩
    have hp : d.Passes excess ⟨d.offset + excess.length, rest⟩ := ⟨rfl, rfl⟩
    have hfail := splitFields_of_error (rest_ne_nil_of_excess hx hp)
      (readField_eq_nesting_iff.2 ⟨rfl, excess, hx, hp⟩)
    have hc : c = ⟨c.offset, front ++ (excess ++ rest)⟩ := by
      rw [← List.append_assoc, ← hr]
    rw [hc, splitFields_append hsplit (excess ++ rest), hfail]

end Fields
end Cursor

/-! ## Payloads -/

namespace Grammar

theorem Overnests.cons {limit depth : Nat} {key : Key} {header value rest : List UInt8}
    (hk : key.SpelledBy header) (hv : Value depth key value) (hd : depth ≤ limit)
    (h : Overnests limit rest) : Overnests limit (header ++ value ++ rest) := by
  obtain ⟨front, excess, back, rfl, hf, he⟩ := h
  refine ⟨header ++ value ++ front, excess, back, ?_, hf.cons hk hv hd, he⟩
  simp only [List.append_assoc]

mutual

theorem Value.overnests {depth limit : Nat} {key : Key} {header value : List UInt8} :
    Value depth key value → key.SpelledBy header → limit < depth →
      ∃ excess rest, header ++ value = excess ++ rest ∧ Excess limit excess
  | .plain _, _, hl => absurd hl (Nat.not_lt_zero limit)
  | @Value.group _ _ _ footer hf _, hk, hl => by
    cases limit with
    | zero => exact ⟨header, _, rfl, .last hk⟩
    | succ limit =>
      obtain ⟨front, excess, rest, rfl, hfront, he⟩ :=
        Fields.overnests hf (Nat.lt_of_succ_lt_succ hl)
      refine ⟨header ++ front ++ excess, rest ++ footer, ?_, .enter hk hfront he⟩
      simp only [List.append_assoc]

/-- Complete fields exceed any limit that the deepest of them is beyond. By induction on the fields
and the groups in them: the first field that is too deep is where the excess begins. -/
theorem Fields.overnests {depth limit : Nat} {bytes : List UInt8} :
    Fields depth bytes → limit < depth → Overnests limit bytes
  | .nil, hl => absurd hl (Nat.not_lt_zero limit)
  | @Fields.cons _ d _ _ _ rest hk hv hf, hl => by
    by_cases hd : d ≤ limit
    · exact (Fields.overnests hf (by omega)).cons hk hv hd
    · obtain ⟨excess, back, he, hx⟩ := Value.overnests hv hk (Nat.not_le.1 hd)
      refine ⟨[], excess, back ++ rest, ?_, .nil, hx⟩
      rw [he, List.nil_append, List.append_assoc]

end

end Grammar

open Grammar

theorem readFields_eq_nesting_iff {buf : List UInt8} {o : Options} (h : o.Admits buf.length)
    {carried : Nat} :
    readFields buf o = .error (.recursionLimitExceeded carried) ↔
      carried = min o.nestingLimit maxNesting ∧
        Overnests (min o.nestingLimit maxNesting) buf := by
  have hsplit : ((Cursor.start buf).splitFields o.nestingLimit).2 =
      some (.recursionLimitExceeded carried) ↔ _ := Cursor.splitFields_nesting_iff
  rw [readFields, Options.checkSize_eq_ok_iff.2 h]
  refine Iff.trans ?_ hsplit
  obtain ⟨fields, stop⟩ := (Cursor.start buf).splitFields o.nestingLimit
  cases stop <;> simp

/-- A payload within the size limit is refused for its nesting if and only if it exceeds the nesting
limit, and the error carries that limit. So it is refused if it has no other fault than being too
deep, and what stands behind the key that is one too many does not matter. -/
theorem readFields_nesting_exact (buf : List UInt8) (o : Options) (h : o.Admits buf.length) :
    ((∃ carried, readFields buf o = .error (.recursionLimitExceeded carried)) ↔
      Overnests (min o.nestingLimit maxNesting) buf) ∧
    (∀ carried, readFields buf o = .error (.recursionLimitExceeded carried) →
      carried = min o.nestingLimit maxNesting) ∧
    (∀ depth, Fields depth buf → min o.nestingLimit maxNesting < depth →
      readFields buf o = .error (.recursionLimitExceeded (min o.nestingLimit maxNesting))) ∧
    (∀ front excess rest rest', buf = front ++ excess ++ rest →
      FieldsWithin (min o.nestingLimit maxNesting) front →
      Excess (min o.nestingLimit maxNesting) excess →
      o.Admits (front ++ excess ++ rest').length →
      readFields (front ++ excess ++ rest') o = readFields buf o) := by
  refine ⟨⟨?_, ?_⟩, fun carried he => ?_, fun depth hf hl => ?_, ?_⟩
  · rintro ⟨carried, he⟩
    exact ((readFields_eq_nesting_iff h).1 he).2
  · intro hx
    exact ⟨_, (readFields_eq_nesting_iff h).2 ⟨rfl, hx⟩⟩
  · exact ((readFields_eq_nesting_iff h).1 he).1
  · exact (readFields_eq_nesting_iff h).2 ⟨rfl, hf.overnests hl⟩
  · rintro front excess rest rest' hbuf hf hx ha
    rw [(readFields_eq_nesting_iff h).2 ⟨rfl, front, excess, rest, hbuf, hf, hx⟩]
    exact (readFields_eq_nesting_iff ha).2 ⟨rfl, front, excess, rest', rfl, hf, hx⟩

/-- A field in front of each of two start keys, where one group may be open. -/
theorem readFields_nesting_exact_second_group :
    let buf := [0x08, 0x05, 0x0b, 0x10, 0x01, 0x13, 0x14, 0x0c]
    let o : Options := { nestingLimit := 1, sizeLimit := some 8 }
    o.Admits buf.length ∧ readFields buf o = .error (.recursionLimitExceeded 1) ∧
      Overnests 1 buf := by
  intro buf o
  have ha : o.Admits buf.length := Options.checkSize_eq_ok_iff.1 rfl
  have he : readFields buf o = .error (.recursionLimitExceeded 1) := by decide +kernel
  exact ⟨ha, he, (readFields_nesting_exact buf o ha).1.1 ⟨1, he⟩⟩

end ReflectionError
