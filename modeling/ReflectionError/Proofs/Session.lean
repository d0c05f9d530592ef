import ReflectionError.Proofs.Reply.RoundTrip
import ReflectionError.Session

/-!
# ReflectionError.Proofs.Session

Undeclared fields over whole sessions. Edits take them from payloads and from replies that are
there; they make none up and keep none by halves.

* `step_of_failed`: an edit that fails changes nothing.
* `mem_unknown_of_apply`: where an undeclared field comes from.
* `run_wellFormed`: edits keep undeclared fields well-formed.
* `unknown_of_reachable`: what holds of the undeclared fields of any reply after any edits.
-/

namespace ReflectionError
namespace Session

open UnknownField

/-- Every undeclared field of every reply is a field of the wire format. -/
def WellFormed (s : Session) : Prop :=
  ∀ name, ∀ u ∈ (s.reply name).unknown, u.WellFormed maxNesting

theorem step_of_failed {s t : Session} {name : String} {e : Edit} {error : EditError}
    (h : s.step name e = (some error, t)) : t = s := by
  unfold step at h
  split at h
  · cases h
  · cases h
    rfl

/-- Either the edit gave a reply that is now under `name`, or nothing has changed. -/
theorem step_cases (s : Session) (name : String) (e : Edit) :
    (∃ r, e.apply s (s.reply name) = .ok r ∧ (s.step name e).2 = s.put name r) ∨
      (s.step name e).2 = s := by
  unfold step
  cases h : e.apply s (s.reply name) with
  | ok r => exact .inl ⟨r, rfl, rfl⟩
  | error error => exact .inr rfl

theorem mem_unknown_of_append {payload : List UInt8} {o : Options} {fields more : List RawField}
    {r : Reply} {u : UnknownField} (h : readFields payload o = .ok fields)
    (hm : ∀ f ∈ more, f ∈ fields) (hu : u ∈ (r.appendUnknown (more.map ofRaw)).unknown) :
    u ∈ r.unknown ∨ u.WellFormed maxNesting := by
  rcases List.mem_append.1 hu with hr | hn
  · exact .inl hr
  · obtain ⟨f, hf, rfl⟩ := List.mem_map.1 hn
    exact .inr ((wellFormed_of_readFields h (hm f hf)).mono (Nat.min_le_right ..))

theorem mem_unknown_of_merge {payload : List UInt8} {o : Options} {r t : Reply} {u : UnknownField}
    (h : r.mergeWith payload o = .ok t) (hu : u ∈ t.unknown) :
    u ∈ r.unknown ∨ u.WellFormed maxNesting := by
  rcases Reply.mem_unknown_of_mergeWith h hu with hr | ⟨hw, _⟩
  · exact .inl hr
  · exact .inr (hw.mono (Nat.min_le_right ..))

theorem mem_unknown_of_apply {s : Session} {r t : Reply} {e : Edit} {u : UnknownField}
    (h : e.apply s r = .ok t) (hu : u ∈ t.unknown) :
    u ∈ r.unknown ∨ (∃ name, u ∈ (s.reply name).unknown) ∨ u.WellFormed maxNesting := by
  cases e with
  | new code text =>
    cases h
    cases hu
  | ofCode code text =>
    cases h
    cases hu
  | ofStatus status =>
    cases h
    cases hu
  | throughStatus =>
    cases h
    cases hu
  | setCode code =>
    cases h
    exact .inl hu
  | setText text =>
    cases h
    exact .inl hu
  | clear =>
    cases h
    cases hu
  | copy source =>
    cases h
    exact .inr (.inl ⟨source, hu⟩)
  | decode payload o =>
    rcases mem_unknown_of_merge (Except.mapError_eq_ok_iff.1 h) hu with hn | hw
    · cases hn
    · exact .inr (.inr hw)
  | merge payload o =>
    rcases mem_unknown_of_merge (Except.mapError_eq_ok_iff.1 h) hu with hr | hw
    · exact .inl hr
    · exact .inr (.inr hw)
  | mergeFrom source =>
    cases h
    rcases List.mem_append.1 hu with hr | hs
    · exact .inl hr
    · exact .inr (.inl ⟨source, hs⟩)
  | appendFields payload o =>
    simp only [Edit.apply] at h
    split at h
    · next fields hf =>
      cases h
      rcases mem_unknown_of_append hf (fun _ hm => hm) hu with hr | hw
      · exact .inl hr
      · exact .inr (.inr hw)
    · cases h
  | appendField payload o index =>
    simp only [Edit.apply] at h
    split at h
    · next fields hf =>
      cases h
      have hm : ∀ f ∈ fields[index]?.toList, f ∈ fields := by
        intro f hm
        exact List.mem_of_getElem? (Option.mem_toList.1 hm)
      rcases mem_unknown_of_append hf hm hu with hr | hw
      · exact .inl hr
      · exact .inr (.inr hw)
    · cases h
  | appendUnknown source =>
    cases h
    rcases List.mem_append.1 hu with hr | hs
    · exact .inl hr
    · exact .inr (.inl ⟨source, hs⟩)
  | clearUnknown =>
    cases h
    cases hu
  | throughJson =>
    rw [Reply.unknown_of_ofJson (Except.mapError_eq_ok_iff.1 h)] at hu
    cases hu

theorem step_wellFormed {s : Session} (h : s.WellFormed) (name : String) (e : Edit) :
    (s.step name e).2.WellFormed := by
  rcases s.step_cases name e with ⟨r, ha, hs⟩ | hs
  · rw [hs]
    intro n u hu
    simp only [put] at hu
    by_cases hn : n = name
    · rw [if_pos hn] at hu
      rcases mem_unknown_of_apply ha hu with hr | ⟨source, hr⟩ | hw
      · exact h name u hr
      · exact h source u hr
      · exact hw
    · rw [if_neg hn] at hu
      exact h n u hu
  · rw [hs]
    exact h

theorem run_wellFormed {s : Session} (h : s.WellFormed) (edits : List (String × Edit)) :
    (s.run edits).WellFormed := by
  induction edits generalizing s with
  | nil => exact h
  | cons edit edits ih => exact ih (step_wellFormed h edit.1 edit.2)

theorem empty_wellFormed : empty.WellFormed := by
  intro name u hu
  cases hu

/-- A reply that stands under some name after edits, failing ones among them. -/
def Reachable (m : Reply) : Prop := ∃ edits name, (empty.run edits).reply name = m

theorem wellFormed_of_reachable {m : Reply} (h : Reachable m) :
    ∀ u ∈ m.unknown, u.WellFormed maxNesting := by
  obtain ⟨edits, name, rfl⟩ := h
  exact run_wellFormed empty_wellFormed edits name

/-- Every undeclared field can be read by itself from its raw bytes, these determine it, and among
the fields of the encoded reply the undeclared ones come last and in order. -/
theorem unknown_of_reachable {m : Reply} (h : Reachable m) :
    (∀ u ∈ m.unknown,
      1 ≤ u.number ∧ u.number ≤ Key.maxNumber ∧ u.wireType ≠ .endGroup ∧ u.payload ≠ [] ∧
        (Cursor.start u.raw).nextField maxNesting =
          .ok (some ⟨⟨u.number, u.wireType⟩, 0, u.raw, u.keyLength⟩, ⟨u.raw.length, []⟩)) ∧
    (∀ m', Reachable m' → ∀ u ∈ m.unknown, ∀ v ∈ m'.unknown, u.raw = v.raw → u = v) ∧
    (m.text.utf8ByteSize < 2 ^ 64 → ∀ strictText, ∃ fields,
      readFields m.encode { strictText, nestingLimit := maxNesting, sizeLimit := none } =
        .ok fields ∧
      fields.length = (if m.code = 0 then 0 else 1) + (if m.text = "" then 0 else 1) +
        m.unknown.length ∧
      (fields.map ofRaw).drop (fields.length - m.unknown.length) = m.unknown) := by
  have hw := wellFormed_of_reachable h
  refine ⟨fun u hu => ?_, fun m' h' u hu v hv he => ?_, fun ht strictText => ?_⟩
  · have hu := hw u hu
    exact ⟨hu.number_bounds.1, hu.number_bounds.2, hu.wireType_ne_endGroup, hu.payload_ne_nil,
      WellFormed.nextField_raw (hu.mono (Nat.le_refl _))⟩
  · exact (hw u hu).eq_of_raw_eq (wellFormed_of_reachable h' v hv) he
  · have hl := length_locate 0 m.asFields
    rw [m.length_asFields] at hl
    refine ⟨_, Reply.readFields_encode ht hw (fun _ h => (nomatch h)), hl, ?_⟩
    rw [hl, map_ofRaw_locate, Nat.add_sub_cancel_right, m.drop_asFields]

/-- The second edit fails. The third appends a field that has the key of a declared one. -/
theorem unknown_of_reachable_pair :
    let m : Reply := { code := 5, unknown := [⟨3, .varint, 2, [0x98, 0x00, 0x07]⟩,
      ⟨1, .varint, 1, [0x08, 0x01]⟩] }
    Reachable m ∧ ∃ fields,
      readFields m.encode { nestingLimit := maxNesting } = .ok fields ∧ fields.length = 3 := by
  intro m
  have hr : Reachable m :=
    ⟨[("a", .decode [0x98, 0x00, 0x07] {}), ("a", .merge [0x20, 0x01, 0x0c] {}),
      ("b", .appendField [0x20, 0x01, 0x08, 0x01] {} 1), ("a", .appendUnknown "b"),
      ("a", .setCode 5)], "a", by decide +kernel⟩
  refine ⟨hr, ?_⟩
  obtain ⟨fields, hf, hl, _⟩ := (unknown_of_reachable hr).2.2 (by decide) true
  exact ⟨fields, hf, hl⟩

end Session
end ReflectionError
