import ReflectionError.Proofs.Wire.Grammar
import ReflectionError.Wire.Field

/-!
# ReflectionError.Proofs.Wire.Group

Values are passed exactly as the grammar says, groups in groups included. The open groups stand on a
stack: `Inner` is what one step inside them may take, `Closes` what is left until all are closed.

* `passInner_eq_ok_iff`: what one step takes.
* `closes_of_closeGroups`: what all steps take together are the fields of the open groups.
* `closeGroups_of_fields`: fields are passed and leave the stack as it was.
* `skipValue_eq_ok_iff`: a value is passed if and only if it is one of the grammar and not deeper
  than the limit.
-/

namespace ReflectionError
namespace Grammar

/-- What one step may take when the groups `number :: outer` are open, and which are open then. -/
inductive Inner (limit number : Nat) (outer : List Nat) : List UInt8 → List Nat → Prop where
  | close {header : List UInt8} :
      Key.SpelledBy ⟨number, .endGroup⟩ header → Inner limit number outer header outer
  | nest {nested : Nat} {header : List UInt8} :
      Key.SpelledBy ⟨nested, .startGroup⟩ header → outer.length + 1 < limit →
      Inner limit number outer header (nested :: number :: outer)
  | plain {key : Key} {header value : List UInt8} :
      key.SpelledBy header → Plain key.wireType value →
      Inner limit number outer (header ++ value) (number :: outer)

/-- The fields left in each open group and its end key, from the innermost group outwards. -/
inductive Closes (limit : Nat) : List Nat → List UInt8 → Prop where
  | nil : Closes limit [] []
  | cons {number depth : Nat} {outer : List Nat} {inner footer rest : List UInt8} :
      Fields depth inner → depth + outer.length + 1 ≤ limit →
      Key.SpelledBy ⟨number, .endGroup⟩ footer → Closes limit outer rest →
      Closes limit (number :: outer) (inner ++ footer ++ rest)

end Grammar

namespace Cursor

open Grammar

theorem skipPlain_eq_ok_iff {c d : Cursor} {wireType : WireType} (hs : wireType ≠ .startGroup)
    (he : wireType ≠ .endGroup) :
    c.skipPlain wireType = .ok d ↔ ∃ value, Plain wireType value ∧ c.Passes value d := by
  constructor
  · intro h
    cases wireType with
    | varint =>
      obtain ⟨⟨n, next⟩, hr, rfl⟩ := Except.map_eq_ok_iff.1 h
      obtain ⟨bytes, hb, hp⟩ := readVarint_eq_ok_iff.1 hr
      exact ⟨bytes, .varint hb, hp⟩
    | fixed64 =>
      obtain ⟨⟨bytes, next⟩, hr, rfl⟩ := Except.map_eq_ok_iff.1 h
      obtain ⟨hl, hp⟩ := readBytes_eq_ok_iff.1 hr
      exact ⟨bytes, .fixed64 hl, hp⟩
    | lengthDelimited =>
      obtain ⟨⟨content, next⟩, hr, rfl⟩ := Except.map_eq_ok_iff.1 h
      obtain ⟨header, hd, hp⟩ := readLengthDelimited_eq_ok_iff.1 hr
      exact ⟨header ++ content, .lengthDelimited hd, hp⟩
    | startGroup => exact absurd rfl hs
    | endGroup => exact absurd rfl he
    | fixed32 =>
      obtain ⟨⟨bytes, next⟩, hr, rfl⟩ := Except.map_eq_ok_iff.1 h
      obtain ⟨hl, hp⟩ := readBytes_eq_ok_iff.1 hr
      exact ⟨bytes, .fixed32 hl, hp⟩
  · rintro ⟨value, hv, hp⟩
    cases hv with
    | varint hd =>
      exact Except.map_eq_ok_iff.2 ⟨_, readVarint_eq_ok_iff.2 ⟨value, hd, hp⟩, rfl⟩
    | fixed64 hl => exact Except.map_eq_ok_iff.2 ⟨_, readBytes_eq_ok_iff.2 ⟨hl, hp⟩, rfl⟩
    | lengthDelimited hd =>
      exact Except.map_eq_ok_iff.2 ⟨_, readLengthDelimited_eq_ok_iff.2 ⟨_, hd, hp⟩, rfl⟩
    | fixed32 hl => exact Except.map_eq_ok_iff.2 ⟨_, readBytes_eq_ok_iff.2 ⟨hl, hp⟩, rfl⟩

theorem passInner_eq_ok_iff {limit number : Nat} {outer opened : List Nat} {c d : Cursor} :
    c.passInner limit number outer = .ok (opened, d) ↔
      ∃ bytes, Inner limit number outer bytes opened ∧ c.Passes bytes d := by
  constructor
  · intro h
    unfold passInner at h
    split at h
    · cases h
    · next key behind hk =>
      obtain ⟨header, hh, hp⟩ := readKey_eq_ok_iff.1 hk
      obtain ⟨n, wireType⟩ := key
      split at h
      · next hw =>
        obtain rfl : wireType = .endGroup := hw
        split at h
        · next hn =>
          obtain rfl : n = number := hn
          cases h
          exact ⟨header, .close hh, hp⟩
        · cases h
      · next hw =>
        obtain rfl : wireType = .startGroup := hw
        split at h
        · next hl =>
          cases h
          exact ⟨header, .nest hh hl, hp⟩
        · cases h
      · next he hs =>
        obtain ⟨next, hv, h⟩ := Except.map_eq_ok_iff.1 h
        cases h
        obtain ⟨value, hv, hp'⟩ := (skipPlain_eq_ok_iff hs he).1 hv
        exact ⟨header ++ value, .plain hh hv, hp.trans hp'⟩
  · rintro ⟨bytes, hi, hp⟩
    cases hi with
    | close hk =>
      rw [passInner, readKey_eq_ok_iff.2 ⟨_, hk, hp⟩]
      simp only [if_true]
    | nest hk hl =>
      rw [passInner, readKey_eq_ok_iff.2 ⟨_, hk, hp⟩]
      simp only [if_pos hl]
    | plain hk hv =>
      obtain ⟨behind, hp, hp'⟩ := hp.split
      rw [passInner, readKey_eq_ok_iff.2 ⟨_, hk, hp⟩]
      have hs := (skipPlain_eq_ok_iff hv.ne_startGroup hv.ne_endGroup).2 ⟨_, hv, hp'⟩
      split
      · next h => cases h
      · next h =>
        cases h
        split
        · next hw => exact absurd hw hv.ne_endGroup
        · next hw => exact absurd hw hv.ne_startGroup
        · exact Except.map_eq_ok_iff.2 ⟨d, hs, rfl⟩

theorem closeGroups_of_inner {limit number : Nat} {outer opened : List Nat} {bytes : List UInt8}
    {c d : Cursor} (h : Inner limit number outer bytes opened) (hp : c.Passes bytes d) :
    c.closeGroups limit (number :: outer) = d.closeGroups limit opened := by
  have hs := passInner_eq_ok_iff.2 ⟨bytes, h, hp⟩
  rw [closeGroups]
  split
  · next hf => rw [hs] at hf; cases hf
  · next hn => rw [hs] at hn; cases hn; rfl

/-- By induction on the steps: each is put in front of what `Closes` says of the steps behind it. -/
theorem closes_of_closeGroups {limit : Nat} {opened : List Nat} {c d : Cursor}
    (h : c.closeGroups limit opened = .ok d) (hl : opened.length ≤ limit) :
    ∃ bytes, Closes limit opened bytes ∧ c.Passes bytes d := by
  fun_induction closeGroups limit opened c with
  | case1 => cases h; exact ⟨[], .nil, .refl _⟩
  | case2 => cases h
  | case3 _ number outer opened next hs ih =>
    obtain ⟨bytes, hi, hp⟩ := passInner_eq_ok_iff.1 hs
    rw [List.length_cons] at hl
    cases hi with
    | close hk =>
      obtain ⟨rest, hr, hp'⟩ := ih h (by omega)
      exact ⟨[] ++ bytes ++ rest, .cons .nil (by omega) hk hr, hp.trans hp'⟩
    | nest hk hn =>
      obtain ⟨rest, hr, hp'⟩ := ih h (by simp only [List.length_cons]; omega)
      obtain _ | ⟨hf, hd, he, hr⟩ := hr
      obtain _ | ⟨hf', hd', he', hr⟩ := hr
      rw [List.length_cons] at hd
      refine ⟨_, .cons (.cons hk (.group hf he) hf') (by omega) he' hr, ?_⟩
      simpa only [List.append_assoc] using hp.trans hp'
    | plain hk hv =>
      obtain ⟨rest, hr, hp'⟩ := ih h hl
      obtain _ | ⟨hf, hd, he, hr⟩ := hr
      refine ⟨_, .cons (.cons hk (.plain hv) hf) (by omega) he hr, ?_⟩
      simpa only [List.append_assoc] using hp.trans hp'

mutual

theorem closeGroups_of_value {depth limit number : Nat} {key : Key} {outer : List Nat}
    {header value : List UInt8} {c d : Cursor} :
    Value depth key value → key.SpelledBy header → depth + outer.length + 1 ≤ limit →
      c.Passes (header ++ value) d →
      c.closeGroups limit (number :: outer) = d.closeGroups limit (number :: outer)
  | .plain hv, hk, _, hp => closeGroups_of_inner (.plain hk hv) hp
  | .group hf he, hk, hl, hp => by
    obtain ⟨c₁, hp₁, hp⟩ := hp.split
    obtain ⟨c₂, hp₂, hp₃⟩ := hp.split
    rw [closeGroups_of_inner (.nest hk (by omega)) hp₁,
      closeGroups_of_fields hf (by rw [List.length_cons]; omega) hp₂,
      closeGroups_of_inner (.close he) hp₃]

theorem closeGroups_of_fields {depth limit number : Nat} {outer : List Nat} {bytes : List UInt8}
    {c d : Cursor} :
    Fields depth bytes → depth + outer.length + 1 ≤ limit → c.Passes bytes d →
      c.closeGroups limit (number :: outer) = d.closeGroups limit (number :: outer)
  | .nil, _, hp => by
    rw [hp.eq_advance]
    rfl
  | .cons hk hv hf, hl, hp => by
    obtain ⟨c₁, hp₁, hp₂⟩ := hp.split
    rw [closeGroups_of_value hv hk (by omega) hp₁, closeGroups_of_fields hf (by omega) hp₂]

end

theorem closeGroups_singleton_eq_ok_iff {limit number : Nat} {c d : Cursor} (hl : 0 < limit) :
    c.closeGroups limit [number] = .ok d ↔
      ∃ depth value, depth ≤ limit ∧ Value depth ⟨number, .startGroup⟩ value ∧
        c.Passes value d := by
  constructor
  · intro h
    obtain ⟨bytes, hc, hp⟩ := closes_of_closeGroups h hl
    obtain _ | ⟨hf, hd, he, hc⟩ := hc
    cases hc
    rw [List.append_nil] at hp
    exact ⟨_, _, hd, .group hf he, hp⟩
  · rintro ⟨depth, value, hd, hv, hp⟩
    cases hv with
    | plain hp => exact absurd rfl hp.ne_startGroup
    | group hf he =>
      obtain ⟨c₁, hp₁, hp₂⟩ := hp.split
      rw [closeGroups_of_fields hf hd hp₁, closeGroups_of_inner (.close he) hp₂, closeGroups]

theorem skipValue_eq_ok_iff {limit : Nat} {key : Key} {c d : Cursor} :
    c.skipValue key limit = .ok d ↔
      ∃ depth value, depth ≤ min limit maxNesting ∧ Value depth key value ∧ c.Passes value d := by
  obtain ⟨number, wireType⟩ := key
  rw [skipValue]
  split
  · next hw =>
    obtain rfl : wireType = .startGroup := hw
    split
    · next h0 =>
      rw [h0]
      constructor
      · intro h; cases h
      · rintro ⟨depth, value, hd, hv, _⟩
        cases hv with
        | plain hp => exact absurd rfl hp.ne_startGroup
        | group _ _ => omega
    · next h0 => exact closeGroups_singleton_eq_ok_iff (by omega)
  · next hw =>
    obtain rfl : wireType = .endGroup := hw
    constructor
    · intro h; cases h
    · rintro ⟨depth, value, _, hv, _⟩
      exact absurd rfl hv.wireType_ne_endGroup
  · next hs he =>
    rw [skipPlain_eq_ok_iff hs he]
    constructor
    · rintro ⟨value, hv, hp⟩
      exact ⟨0, value, Nat.zero_le _, .plain hv, hp⟩
    · rintro ⟨depth, value, _, hv, hp⟩
      cases hv with
      | plain hv => exact ⟨value, hv, hp⟩
      | group _ _ => exact absurd rfl hs

end Cursor
end ReflectionError
