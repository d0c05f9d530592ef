import ReflectionError.Proofs.Reply.RoundTrip
import ReflectionError.Proofs.Session
import ReflectionError.Proofs.Wire.Shift

/-!
# ReflectionError.Proofs.Reply.Merge

Payloads on top of replies. What a payload does is told by its own fields, and two payloads one
behind the other do what the one does after the other. A reply on top of another does what its bytes
do there.

* `acceptFields_append`: the fields of two payloads, and the failure of the second one.
* `mergeWith_append`: two payloads on top of a reply.
* `mergeWith_laws`: what a payload does to any reply, and to one that stands in a session.
* `mergeFrom_assoc`: replies on top of each other.
* `mergeWith_agrees_with_mergeFrom`: a reply on top of another, and its bytes on top of it.
-/

namespace ReflectionError

namespace RawField

theorem isCode_comp_shift (n : Nat) : isCode ∘ shift n = isCode := rfl

theorem isText_comp_shift (n : Nat) : isText ∘ shift n = isText := rfl

theorem isOther_comp_shift (n : Nat) : isOther ∘ shift n = isOther := rfl

end RawField

namespace Reply

open UnknownField

/-! ## One payload behind the other -/

theorem refusal?_shift (o : Options) (n : Nat) (fields : List RawField) :
    refusal? o (fields.map (RawField.shift n)) = refusal? o fields := by
  unfold refusal? textFault?
  rw [List.filter_map, RawField.isText_comp_shift, List.findSome?_map]
  rfl

theorem overlay_shift (r : Reply) (n : Nat) (fields : List RawField) :
    r.overlay (fields.map (RawField.shift n)) = r.overlay fields := by
  simp only [overlay, List.filter_map, RawField.isCode_comp_shift, RawField.isText_comp_shift,
    RawField.isOther_comp_shift, List.getLast?_map, Option.map_map, List.map_map]
  rfl

theorem acceptFields_append {front : List UInt8} {o : Options} {fields : List RawField}
    (h : acceptFields front o = .ok fields) {back : List UInt8}
    (ha : o.Admits (front ++ back).length) :
    acceptFields (front ++ back) o =
      ((acceptFields back o).mapError (DecodeError.shift front.length)).map
        fun more => fields ++ more.map (RawField.shift front.length) := by
  obtain ⟨hr, hf⟩ := acceptFields_eq_ok_iff.1 h
  have hs := Cursor.splitFields_append (readFields_eq_ok_iff.1 hr).2 back
  have hb : o.Admits back.length := ha.mono (by simp)
  have hm : (⟨0 + front.length, back⟩ : Cursor) = (Cursor.start back).shift front.length := rfl
  rw [hm, Cursor.splitFields_shift] at hs
  rw [acceptFields, acceptFields, Options.checkSize_eq_ok_iff.2 ha,
    Options.checkSize_eq_ok_iff.2 hb]
  simp only [Cursor.start] at hs ⊢
  rw [hs]
  obtain ⟨more, stop⟩ := Cursor.splitFields o.nestingLimit ⟨0, back⟩
  simp only [refusal?_append, hf, refusal?_shift, Option.none_or]
  cases refusal? o more with
  | some fault => rfl
  | none => cases stop <;> rfl

theorem mergeWith_append {r s : Reply} {front : List UInt8} {o : Options}
    (h : r.mergeWith front o = .ok s) {back : List UInt8} (ha : o.Admits (front ++ back).length) :
    r.mergeWith (front ++ back) o =
      (s.mergeWith back o).mapError (DecodeError.shift front.length) := by
  rw [mergeWith_eq_map] at h
  obtain ⟨fields, hf, rfl⟩ := Except.map_eq_ok_iff.1 h
  rw [mergeWith_eq_map, mergeWith_eq_map, acceptFields_append hf ha]
  cases acceptFields back o with
  | error e => rfl
  | ok more =>
    have ho : r.overlay (fields ++ more.map (RawField.shift front.length)) =
        (r.overlay fields).overlay more := by
      rw [overlay_append, overlay_shift]
    exact congrArg Except.ok ho

/-! ## What a payload does to a reply -/

/-- The fields of a payload set the code and the text if one of them does, whatever was there. -/
theorem overlay_eq (r : Reply) (fields : List RawField) :
    r.overlay fields =
      { code := if ∃ f ∈ fields, f.key = codeKey then (overlay {} fields).code else r.code
        text := if ∃ f ∈ fields, f.key = textKey then (overlay {} fields).text else r.text
        unknown := r.unknown ++ (overlay {} fields).unknown } := by
  have hc : (∃ f ∈ fields, f.key = codeKey) ↔ fields.filter RawField.isCode ≠ [] := by
    simp [RawField.isCode]
  have ht : (∃ f ∈ fields, f.key = textKey) ↔ fields.filter RawField.isText ≠ [] := by
    simp [RawField.isText]
  simp only [hc, ht, overlay, List.nil_append]
  congr 1
  · cases fields.filter RawField.isCode with
    | nil => rfl
    | cons f more => simp [List.getLast?_cons]
  · cases fields.filter RawField.isText with
    | nil => rfl
    | cons f more => simp [List.getLast?_cons]

theorem mergeWith_eq_error_iff {r : Reply} {payload : List UInt8} {o : Options} {e : DecodeError} :
    r.mergeWith payload o = .error e ↔ decode payload o = .error e := by
  rw [decode, mergeWith_eq_map, mergeWith_eq_map, Except.map_eq_error_iff, Except.map_eq_error_iff]

/-- A payload is refused whatever it is put on, for the same reason, and then nothing changes. If it
is accepted it sets what it has a field for and keeps the rest. Two payloads in turn do what they do
as one, where the second one fails further on. -/
theorem mergeWith_laws (m : Reply) (o : Options) :
    (∀ buf e, m.mergeWith buf o = .error e ↔ decode buf o = .error e) ∧
    (∀ buf e (s : Session) name, s.reply name = m → decode buf o = .error e →
      s.step name (.merge buf o) = (some (.decode e), s)) ∧
    (∀ buf d, decode buf o = .ok d → ∃ fields, readFields buf o = .ok fields ∧
      m.mergeWith buf o =
        .ok { code := if ∃ f ∈ fields, f.key = codeKey then d.code else m.code
              text := if ∃ f ∈ fields, f.key = textKey then d.text else m.text
              unknown := m.unknown ++ d.unknown }) ∧
    (o.sizeLimit = none → ∀ a b m₁, m.mergeWith a o = .ok m₁ →
      m.mergeWith (a ++ b) o = (m₁.mergeWith b o).mapError (DecodeError.shift a.length)) := by
  refine ⟨fun buf e => mergeWith_eq_error_iff, ?_, ?_, ?_⟩
  · intro buf e s name hm hd
    have he : (Session.Edit.merge buf o).apply s (s.reply name) = .error (.decode e) := by
      rw [Session.Edit.apply, mergeWith_eq_error_iff.2 hd]
      rfl
    rw [Session.step, he]
  · intro buf d hd
    rw [decode, mergeWith_eq_map] at hd
    obtain ⟨fields, hf, rfl⟩ := Except.map_eq_ok_iff.1 hd
    refine ⟨fields, (acceptFields_eq_ok_iff.1 hf).1, ?_⟩
    rw [mergeWith_eq_map, hf]
    exact congrArg Except.ok (overlay_eq m fields)
  · intro hn a b m₁ h
    exact mergeWith_append h (Options.admits_of_no_limit hn _)

/-- A zero is put on top of a code. The field behind it is cut off, at offset 1 of its payload. -/
theorem mergeWith_zero_then_cut :
    let m : Reply := { code := 5, text := "x" }
    m.mergeWith [0x08, 0x00] {} = .ok { text := "x" } ∧
      m.mergeWith [0x08, 0x00, 0x12] {} = .error (.truncatedInput 3 1 0) := by
  intro m
  have ha : m.mergeWith [0x08, 0x00] {} = .ok { text := "x" } := by decide +kernel
  have hb : ({ text := "x" } : Reply).mergeWith [0x12] {} = .error (.truncatedInput 1 1 0) := by
    decide +kernel
  refine ⟨ha, ?_⟩
  have h := (mergeWith_laws m {}).2.2.2 rfl [0x08, 0x00] [0x12] _ ha
  rw [hb] at h
  exact h

/-! ## A reply on top of a reply -/

theorem mergeFrom_default (m : Reply) : m.mergeFrom {} = m := by
  obtain ⟨code, text, unknown⟩ := m
  simp [mergeFrom]

theorem mergeFrom_assoc (a b c : Reply) :
    (a.mergeFrom b).mergeFrom c = a.mergeFrom (b.mergeFrom c) := by
  simp only [mergeFrom, Reply.mk.injEq]
  refine ⟨?_, ?_, List.append_assoc ..⟩
  · by_cases hc : c.code = 0
    · simp only [if_pos hc]
    · simp only [if_neg hc]
  · by_cases hc : c.text = ""
    · simp only [if_pos hc]
    · simp only [if_neg hc]

theorem decode_encode_append {a b : Reply} {o : Options} (hs : o.sizeLimit = none)
    (ha : a.FromWire o.nestingLimit) (hb : b.FromWire o.nestingLimit) :
    decode (a.encode ++ b.encode) o = .ok (a.mergeFrom b) := by
  have hl := Options.admits_of_no_limit hs
  have hd : mergeWith {} a.encode o = .ok a := ha.decode_encode (Nat.le_refl _) (hl _)
  rw [decode, mergeWith_append hd (hl _), hb.mergeWith_encode (Nat.le_refl _) (hl _) a]
  rfl

/-- Putting a reply that came out of payloads on top of another is putting its bytes there, since
what counts as not set is not written. So bytes one behind the other are replies on top of each
other, which may be put together in any order of steps. -/
theorem mergeWith_agrees_with_mergeFrom (o : Options) (hs : o.sizeLimit = none) :
    (∀ m other : Reply, other.FromWire o.nestingLimit →
      m.mergeWith other.encode o = .ok (m.mergeFrom other)) ∧
    (∀ a b : Reply, a.FromWire o.nestingLimit → b.FromWire o.nestingLimit →
      decode (a.encode ++ b.encode) o = .ok (a.mergeFrom b)) ∧
    (∀ a b c : Reply, (a.mergeFrom b).mergeFrom c = a.mergeFrom (b.mergeFrom c)) ∧
    (∀ m : Reply, ({} : Reply).mergeFrom m = m ∧ m.mergeFrom {} = m) := by
  refine ⟨fun m other h => ?_, fun a b => decode_encode_append hs, mergeFrom_assoc, fun m => ?_⟩
  · exact h.mergeWith_encode (Nat.le_refl _) (Options.admits_of_no_limit hs _) m
  · exact ⟨default_mergeFrom m, mergeFrom_default m⟩

/-- The code is not set and stays as it was. -/
theorem mergeWith_text_and_group :
    let o : Options := { strictText := false, nestingLimit := 2 }
    let other : Reply := { text := "é", unknown := [nestedGroup] }
    o.sizeLimit = none ∧ other.FromWire 2 ∧
      ({ code := -1, text := "e" } : Reply).mergeWith other.encode o =
        .ok { code := -1, text := "é", unknown := [nestedGroup] } := by
  intro o other
  have hw : other.FromWire 2 := .of_nestedGroup (by decide) (by decide +kernel)
  exact ⟨rfl, hw, (mergeWith_agrees_with_mergeFrom o rfl).1 _ other hw⟩

end Reply
end ReflectionError
