import ReflectionError.Proofs.Reply.Fields
import ReflectionError.Proofs.Wire.Limit

/-!
# ReflectionError.Proofs.Reply.Relax

Payloads under looser options: deeper groups, larger payloads, text that is repaired. What was read
before is read again in the same way, and what was refused for itself is refused again. Only what
the options were the reason for may change.

* `readFields_relax`, `acceptFields_relax`: the fields of a payload.
* `reads_relax`: replies, replies put on others, fields, and replies behind their lengths.
-/

namespace ReflectionError

/-- The payload was refused because of an option, not for what it is. -/
def DecodeError.DependsOnOptions : DecodeError → Prop
  | messageTooLarge .. | recursionLimitExceeded .. | invalidEncoding .. => True
  | malformedVarint .. | truncatedInput .. | invalidKey .. | invalidWireType .. |
    unexpectedEndGroup .. => False

theorem DecodeError.IsNesting.dependsOnOptions {e : DecodeError} (h : e.IsNesting) :
    e.DependsOnOptions := by
  obtain ⟨limit, rfl⟩ := h
  trivial

namespace Options

/-- No limit of `o'` is lower than that of `o`, and text is not refused by `o'` alone. -/
structure RelaxesTo (o o' : Options) : Prop where
  nesting : o.nestingLimit ≤ o'.nestingLimit
  size : ∀ limit', o'.sizeLimit = some limit' → ∃ limit, o.sizeLimit = some limit ∧ limit ≤ limit'
  text : o'.strictText = true → o.strictText = true

theorem RelaxesTo.admits {o o' : Options} (h : o.RelaxesTo o') {size : Nat} (ha : o.Admits size) :
    o'.Admits size := by
  intro limit' hl'
  obtain ⟨limit, hl, hle⟩ := h.size limit' hl'
  exact Nat.le_trans (ha limit hl) hle

theorem dependsOnOptions_of_checkSize {o : Options} {size : Nat} {e : DecodeError}
    (h : o.checkSize size = .error e) : e.DependsOnOptions := by
  unfold checkSize at h
  split at h
  · split at h
    · cases h
      trivial
    · cases h
  · cases h

end Options

/-- The outcome `y` is `x`, unless `x` was refused because of an option. -/
def SameUnlessOptional {α : Type} (x y : Except DecodeError α) : Prop :=
  Except.SameUnless DecodeError.DependsOnOptions x y

section Relax

variable {o o' : Options} (h : o.RelaxesTo o') (payload : List UInt8)
include h

theorem checkSize_relax (size : Nat) :
    SameUnlessOptional (o.checkSize size) (o'.checkSize size) := by
  cases hc : o.checkSize size with
  | error e => exact .of_excused (Options.dependsOnOptions_of_checkSize hc)
  | ok u => exact .inr (Options.checkSize_eq_ok_iff.2 (h.admits (Options.checkSize_eq_ok_iff.1 hc)))

theorem readFields_relax :
    SameUnlessOptional (readFields payload o) (readFields payload o') := by
  rw [readFields, readFields]
  rcases checkSize_relax h payload.length with ⟨e, he, hd⟩ | hc
  · rw [he]
    exact .of_excused hd
  · rw [hc]
    cases o.checkSize payload.length with
    | error e => exact .refl _
    | ok u =>
      rcases Cursor.splitFields_mono h.nesting (Cursor.start payload) with ⟨e, hs, hn⟩ | hs
      · generalize (Cursor.start payload).splitFields o.nestingLimit = found at hs ⊢
        obtain ⟨fields, stop⟩ := found
        obtain rfl : stop = some e := hs
        exact .of_excused hn.dependsOnOptions
      · rw [hs]
        exact .refl _

namespace Reply

theorem refusal?_relax {fields : List RawField} (hn : refusal? o fields = none) :
    refusal? o' fields = none := by
  unfold refusal? at hn ⊢
  split
  · next hs => rwa [if_pos (h.text hs)] at hn
  · rfl

theorem acceptFields_relax :
    SameUnlessOptional (acceptFields payload o) (acceptFields payload o') := by
  rw [acceptFields, acceptFields]
  rcases checkSize_relax h payload.length with ⟨e, he, hd⟩ | hc
  · rw [he]
    exact .of_excused hd
  · rw [hc]
    cases o.checkSize payload.length with
    | error e => exact .refl _
    | ok u =>
      simp only
      cases hn : refusal? o ((Cursor.start payload).splitFields o.nestingLimit).1 with
      | some fault => exact .of_excused trivial
      | none =>
        rcases Cursor.splitFields_mono h.nesting (Cursor.start payload) with ⟨e, hs, he⟩ | hs
        · simp only [hs]
          exact .of_excused he.dependsOnOptions
        · rw [hs, refusal?_relax h hn]
          exact .refl _

theorem mergeWith_relax (r : Reply) :
    SameUnlessOptional (r.mergeWith payload o) (r.mergeWith payload o') := by
  rw [mergeWith_eq_map, mergeWith_eq_map]
  exact (acceptFields_relax h payload).map _

theorem decodeDelimited_relax :
    SameUnlessOptional (decodeDelimited payload o) (decodeDelimited payload o') := by
  rw [decodeDelimited, decodeDelimited]
  cases (Cursor.start payload).readLengthDelimited with
  | error failure => exact .refl _
  | ok r => exact (mergeWith_relax h r.1 {}).map _

/-- Looser options change nothing in what was accepted, and nothing in what was refused for a reason
that is not in the options. -/
theorem reads_relax (r : Reply) :
    SameUnlessOptional (decode payload o) (decode payload o') ∧
    SameUnlessOptional (r.mergeWith payload o) (r.mergeWith payload o') ∧
    SameUnlessOptional (readFields payload o) (readFields payload o') ∧
    SameUnlessOptional (decodeDelimited payload o) (decodeDelimited payload o') :=
  ⟨mergeWith_relax h payload {}, mergeWith_relax h payload r, readFields_relax h payload,
    decodeDelimited_relax h payload⟩

end Reply

end Relax

/-- A group, and a text field whose length is missing. -/
theorem Reply.reads_relax_cut_text :
    let o : Options := { nestingLimit := 1, sizeLimit := some 3 }
    let o' : Options := { strictText := false, nestingLimit := 5 }
    o.RelaxesTo o' ∧ decode [0x1b, 0x1c, 0x12] o' = .error (.truncatedInput 3 1 0) := by
  intro o o'
  have h : o.RelaxesTo o' := ⟨by decide, nofun, nofun⟩
  have hd : decode [0x1b, 0x1c, 0x12] o = .error (.truncatedInput 3 1 0) := by decide +kernel
  refine ⟨h, ?_⟩
  rcases (reads_relax h [0x1b, 0x1c, 0x12] {}).1 with ⟨e, he, hn⟩ | he
  · rw [hd] at he
    cases he
    exact hn.elim
  · exact he.trans hd

end ReflectionError
