import Mathlib.Data.List.Forall2
import ReflectionError.Proofs.Json.RoundTrip

/-!
# ReflectionError.Proofs.Json.Skip

A value that can be read can be skipped, and takes as much of the text. What has been read of it is
not the same: numbers are not converted, and the halves of a character beyond U+FFFF are taken one
by one.

* `readNumber_skip`, `readString_skip`, `readScalar_skip`: values that are no lists and no objects.
* `Along`: two machines at the same place of a text, with lists and objects open in the same order.
* `step_along`, `run_along`: a machine that skips gets along where one that keeps does.
* `readValue_skip`: so does a whole value.
-/

namespace ReflectionError
namespace Json

/-! ## Numbers -/

theorem readWhole_skip {s rest ds : List Char} (h : readWhole .keep s = .ok (ds, rest)) :
    readWhole .skip s = .ok (ds, rest) := by
  cases s with
  | nil => cases h
  | cons c s => exact h

theorem readFraction_skip {s rest ds : List Char} (h : readFraction .keep s = .ok (ds, rest)) :
    readFraction .skip s = .ok (ds, rest) := by
  unfold readFraction at h ⊢
  split at h
  · split at h
    · cases h
    · exact h
  · exact h

theorem readExponentDigits_skip {s rest : List Char} {e : Bool × List Char}
    (h : readExponentDigits .keep s = .ok (e, rest)) :
    readExponentDigits .skip s = .ok (e, rest) := by
  unfold readExponentDigits at h ⊢
  dsimp only at h ⊢
  split at h
  · cases h
  · exact h

theorem readExponent_skip {s rest : List Char} {e : Option (Bool × List Char)}
    (h : readExponent .keep s = .ok (e, rest)) : readExponent .skip s = .ok (e, rest) := by
  cases s with
  | nil => exact h
  | cons c s =>
    rw [readExponent] at h ⊢
    split at h
    · next hc =>
      obtain ⟨⟨d, behind⟩, hd, he⟩ := Except.map_eq_ok_iff.1 h
      rw [if_pos hc, readExponentDigits_skip hd]
      exact congrArg Except.ok he
    · next hc =>
      rw [if_neg hc]
      exact h

theorem readUnsigned_skip {negative : Bool} {s rest : List Char} {n : Numeral}
    (h : readUnsigned .keep negative s = .ok (n, rest)) :
    readUnsigned .skip negative s = .ok (n, rest) := by
  unfold readUnsigned at h ⊢
  split at h
  · cases h
  · next hw =>
    split at h
    · cases h
    · next hf =>
      split at h
      · cases h
      · next he =>
        simpa only [readWhole_skip hw, readFraction_skip hf, readExponent_skip he] using h
      · next he =>
        simpa only [readWhole_skip hw, readFraction_skip hf, readExponent_skip he] using h

theorem readNumber_skip {s rest : List Char} {n : Number} (h : readNumber .keep s = .ok (n, rest)) :
    ∃ n', readNumber .skip s = .ok (n', rest) := by
  have hnumeral {m : Numeral} {behind : List Char} (hm : readNumeral .keep s = .ok (m, behind)) :
      readNumeral .skip s = .ok (m, behind) := by
    unfold readNumeral at hm ⊢
    split at hm
    · exact readUnsigned_skip hm
    · exact readUnsigned_skip hm
  unfold readNumber at h ⊢
  split at h
  · cases h
  · next m behind hm =>
    have hrest : behind = rest := by
      dsimp only at h
      split at h
      · cases h
        rfl
      · cases h
    exact ⟨.integer 0, by rw [hnumeral hm, hrest]⟩

/-! ## Strings -/

theorem readEscape_skip {s behind : List Char} {c : Char}
    (h : readEscape .keep s = .ok (c, behind)) :
    (∃ d, readEscape .skip s = .ok (d, behind)) ∨
      ∃ d e next, readEscape .skip s = .ok (d, '\\' :: next) ∧
        readEscape .skip next = .ok (e, behind) := by
  unfold readEscape at h
  split at h
  · cases h
  · next letter tail =>
    split at h
    · next hu =>
      subst hu
      unfold readCodePoint at h
      split at h
      · cases h
      · next n rest hn =>
        have hskip : readEscape .skip ('u' :: tail) = .ok (Char.ofNat n, rest) := by
          rw [readEscape, if_pos rfl, readCodePoint, hn]
          rfl
        rw [if_neg (by decide)] at h
        split at h
        · cases h
        split at h
        · unfold readSecondHalf at h
          split at h
          · cases h
          · cases h
          · next digits =>
            split at h
            · cases h
            · next low after hlow =>
              split at h
              · simp only [Except.ok.injEq, Prod.mk.injEq] at h
                obtain ⟨-, rfl⟩ := h
                refine .inr ⟨_, Char.ofNat low, _, hskip, ?_⟩
                rw [readEscape, if_pos rfl, readCodePoint, hlow]
                rfl
              · cases h
          · cases h
          · cases h
        · cases h
          exact .inl ⟨_, hskip⟩
    · next hu =>
      refine .inl ⟨c, ?_⟩
      rw [readEscape, if_neg hu]
      exact h

theorem readString_skip {s rest cs : List Char} (h : readString .keep s = .ok (cs, rest)) :
    ∃ ds, readString .skip s = .ok (ds, rest) := by
  generalize hmode : Mode.keep = mode at h
  fun_induction readString mode s generalizing cs with
  | case1 => cases h
  | case2 r =>
    cases h
    exact ⟨[], by rw [readString, if_pos rfl]⟩
  | case3 => cases h
  | case4 r d behind he _ ih =>
    subst hmode
    obtain ⟨⟨ds, next⟩, hr, hn⟩ := Except.map_eq_ok_iff.1 h
    cases hn
    obtain ⟨es, hskip⟩ := ih hr
    rcases readEscape_skip he with ⟨e, he⟩ | ⟨e, e', after, he, he'⟩
    · exact ⟨e :: es, by rw [readString_of_readEscape he, hskip]; rfl⟩
    · refine ⟨e :: e' :: es, ?_⟩
      rw [readString_of_readEscape he, readString_of_readEscape he', hskip]
      rfl
  | case5 => cases h
  | case6 c r hq hb hc ih =>
    obtain ⟨⟨ds, next⟩, hr, hn⟩ := Except.map_eq_ok_iff.1 h
    cases hn
    obtain ⟨es, hskip⟩ := ih hr
    exact ⟨c :: es, by rw [readString_plain hq hb hc, hskip]; rfl⟩

theorem readScalar_skip {s rest : List Char} {v : Value} (h : readScalar .keep s = .ok (v, rest)) :
    ∃ v', readScalar .skip s = .ok (v', rest) := by
  cases isScalar_of_readScalar h with
  | null hw => exact ⟨_, readScalar_of_isScalar (.null hw)⟩
  | true hw => exact ⟨_, readScalar_of_isScalar (.true hw)⟩
  | false hw => exact ⟨_, readScalar_of_isScalar (.false hw)⟩
  | string hs =>
    obtain ⟨ds, hskip⟩ := readString_skip hs
    exact ⟨_, readScalar_of_isScalar (.string hskip)⟩
  | number hc hn =>
    obtain ⟨n', hskip⟩ := readNumber_skip hn
    exact ⟨_, readScalar_of_isScalar (.number hc hskip)⟩

theorem readKey_skip {s rest : List Char} {key : String} (h : readKey .keep s = .ok (key, rest)) :
    ∃ key', readKey .skip s = .ok (key', rest) := by
  unfold readKey at h ⊢
  split at h
  · cases h
  · next cs tail hs =>
    obtain ⟨ds, hskip⟩ := readString_skip hs
    simp only [hskip]
    split at h
    · cases h
    · next c behind hb =>
      split at h
      · next hc =>
        cases h
        exact ⟨String.ofList ds, if_pos hc⟩
      · cases h

/-! ## Lists and objects -/

namespace Machine

inductive SameKind : Frame → Frame → Prop where
  | list {items items' : List Value} : SameKind (.list items) (.list items')
  | object {members members' : List (String × Value)} {key key' : String} :
      SameKind (.object members key) (.object members' key')

/-- The machines are at the same place of a text, and what is open is of the same kinds. Before a
value they may differ by blanks: one that keeps has looked behind a comma already. -/
inductive Along : Machine → Machine → Prop where
  | wanted {stack stack' : List Frame} {s s' : List Char} : List.Forall₂ SameKind stack stack' →
      skipBlank s = skipBlank s' → Along ⟨stack, .wanted, s⟩ ⟨stack', .wanted, s'⟩
  | complete {stack stack' : List Frame} {v v' : Value} {s : List Char} :
      List.Forall₂ SameKind stack stack' → Along ⟨stack, .complete v, s⟩ ⟨stack', .complete v', s⟩

section

variable {outer outer' : List Frame} (kinds : List.Forall₂ SameKind outer outer')
include kinds

theorem openMember_along {members members' : List (String × Value)} {s : List Char} {n : Machine}
    (h : openMember .keep outer members s = .ok n) :
    ∃ n', openMember .skip outer' members' s = .ok n' ∧ Along n n' := by
  obtain ⟨⟨key, rest⟩, hk, rfl⟩ := Except.map_eq_ok_iff.1 h
  obtain ⟨key', hk'⟩ := readKey_skip hk
  exact ⟨_, by rw [openMember, hk']; rfl, .wanted (.cons .object kinds) rfl⟩

theorem openList_along {s : List Char} {n : Machine} (h : openList outer s = .ok n) :
    ∃ n', openList outer' s = .ok n' ∧ Along n n' := by
  unfold openList at h ⊢
  split at h
  · cases h
  · next c rest hb =>
    split at h
    · next hc =>
      cases h
      exact ⟨_, if_pos hc, .complete kinds⟩
    · next hc =>
      cases h
      exact ⟨_, if_neg hc, .wanted (.cons .list kinds) rfl⟩

theorem openObject_along {s : List Char} {n : Machine} (h : openObject .keep outer s = .ok n) :
    ∃ n', openObject .skip outer' s = .ok n' ∧ Along n n' := by
  unfold openObject at h ⊢
  split at h
  · cases h
  · next c rest hb =>
    split at h
    · next hc =>
      cases h
      exact ⟨_, if_pos hc, .complete kinds⟩
    · next hc =>
      split at h
      · next hq =>
        obtain ⟨n', hn, along⟩ := openMember_along kinds h
        exact ⟨n', by rw [if_neg hc, if_pos hq, hn], along⟩
      · cases h

theorem stepWanted_along {s s' : List Char} {n : Machine} (hs : skipBlank s = skipBlank s')
    (h : stepWanted .keep outer s = .ok n) :
    ∃ n', stepWanted .skip outer' s' = .ok n' ∧ Along n n' := by
  unfold stepWanted at h ⊢
  rw [← hs]
  split at h
  · cases h
  · next c rest hb =>
    split at h
    · next hopen =>
      rw [if_pos hopen, if_neg (by simp)]
      split at h
      · cases h
      split at h
      · next hc =>
        rw [if_pos hc]
        exact openList_along kinds h
      · next hc =>
        rw [if_neg hc]
        exact openObject_along kinds h
    · next hopen =>
      obtain ⟨⟨v, behind⟩, hv, rfl⟩ := Except.map_eq_ok_iff.1 h
      obtain ⟨v', hv'⟩ := readScalar_skip hv
      exact ⟨_, by rw [if_neg hopen, hv']; rfl, .complete kinds⟩

theorem stepList_along {items items' : List Value} {s : List Char} {n : Machine}
    (h : stepList .keep outer items s = .ok n) :
    ∃ n', stepList .skip outer' items' s = .ok n' ∧ Along n n' := by
  unfold stepList at h ⊢
  split at h
  · cases h
  · next c rest hb =>
    split at h
    · next hc =>
      cases h
      exact ⟨_, if_pos hc, .complete kinds⟩
    · next hc =>
      split at h
      · next hcomma =>
        rw [if_pos rfl] at h
        split at h
        · cases h
        · next d behind hd =>
          split at h
          · cases h
          · cases h
            refine ⟨_, by rw [if_neg hc, if_pos hcomma, if_neg (by decide)],
              .wanted (.cons .list kinds) ?_⟩
            rw [← hd, skipBlank_skipBlank]
      · cases h

theorem stepObject_along {members members' : List (String × Value)} {s : List Char} {n : Machine}
    (h : stepObject .keep outer members s = .ok n) :
    ∃ n', stepObject .skip outer' members' s = .ok n' ∧ Along n n' := by
  unfold stepObject at h ⊢
  split at h
  · cases h
  · next c rest hb =>
    split at h
    · next hc =>
      cases h
      exact ⟨_, if_pos hc, .complete kinds⟩
    · next hc =>
      split at h
      · next hcomma =>
        split at h
        · cases h
        · next d behind hd =>
          split at h
          · next hq =>
            obtain ⟨n', hn, along⟩ := openMember_along kinds h
            exact ⟨n', by rw [if_neg hc, if_pos hcomma, if_pos hq, hn], along⟩
          · split at h <;> cases h
      · cases h

end

theorem step_along {m m' n : Machine} (along : Along m m') (h : step .keep m = .ok n) :
    ∃ n', step .skip m' = .ok n' ∧ Along n n' := by
  cases along with
  | wanted kinds hs => exact stepWanted_along kinds hs h
  | complete kinds =>
    cases kinds with
    | nil =>
      cases h
      exact ⟨_, rfl, .complete .nil⟩
    | cons kind kinds =>
      cases kind with
      | list => exact stepList_along kinds h
      | object => exact stepObject_along kinds h

theorem Along.result?_eq_none {m m' : Machine} (along : Along m m') (h : m.result? = none) :
    m'.result? = none := by
  cases along with
  | wanted => rfl
  | complete kinds =>
    cases kinds with
    | nil => cases h
    | cons => rfl

/-- By induction on the run of the machine that keeps. -/
theorem run_along {m m' : Machine} {v : Value} {rest : List Char} (along : Along m m')
    (h : m.run .keep = .ok (v, rest)) : ∃ v', m'.run .skip = .ok (v', rest) := by
  generalize hmode : Mode.keep = mode at h
  fun_induction run mode m generalizing m' with
  | case1 m u hm =>
    cases h
    cases along with
    | wanted => cases hm
    | complete kinds =>
      cases kinds with
      | nil => exact ⟨_, by rw [run]; rfl⟩
      | cons => cases hm
  | case2 => cases h
  | case3 m hm n hs ih =>
    subst hmode
    obtain ⟨n', hn', along'⟩ := step_along along hs
    obtain ⟨v', hv'⟩ := ih along' h
    refine ⟨v', ?_⟩
    rw [run_eq_of_step (along.result?_eq_none hm), hn']
    exact hv'

end Machine

/-- A value that can be read can be skipped. -/
theorem readValue_skip {s rest : List Char} {v : Value} (h : readValue .keep s = .ok (v, rest)) :
    ∃ v', readValue .skip s = .ok (v', rest) :=
  Machine.run_along (.wanted .nil rfl) h

end Json
end ReflectionError
