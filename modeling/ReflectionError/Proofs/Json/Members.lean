import ReflectionError.Json.Record
import ReflectionError.Proofs.Json.Stack

/-!
# ReflectionError.Proofs.Json.Members

Where the members of an object that is read stand in its text, so that they can be read in another
way as well.

* `HasMembers`: a text holds members, each with its key, up to the closing brace.
* `hasMembers_of_continues`, `array_of_run`: what a machine is inside of when it comes to its end.
* `ReadAs`, `readAs_of_readValue`: a value that is read is a list, an object with the members that
  its text holds, or neither of them and read at once.
-/

namespace ReflectionError
namespace Json

open Machine Record

/-- The text holds the members, up to the brace that closes their object. In front of the first one
there is no comma. -/
inductive HasMembers : Bool → List Char → List (String × Value) → List Char → Prop where
  | close {first : Bool} {s rest : List Char} : nextKey first s = .ok (false, rest) →
      HasMembers first s [] rest
  | member {first : Bool} {s atKey atValue behind rest : List Char} {key : String} {v : Value}
      {members : List (String × Value)} : nextKey first s = .ok (true, atKey) →
      readKey .keep atKey = .ok (key, atValue) → readValue .keep atValue = .ok (v, behind) →
      HasMembers false behind members rest → HasMembers first s ((key, v) :: members) rest

/-- Whether a machine that is in an object finds it closed or has another key. -/
inductive Continues (outer : List Frame) (members : List (String × Value)) (first : Bool)
    (s : List Char) : Machine → Prop where
  | close {rest : List Char} : nextKey first s = .ok (false, rest) →
      Continues outer members first s ⟨outer, .complete (.object members.reverse), rest⟩
  | member {atKey atValue : List Char} {key : String} : nextKey first s = .ok (true, atKey) →
      readKey .keep atKey = .ok (key, atValue) →
      Continues outer members first s ⟨.object members key :: outer, .wanted, atValue⟩

theorem continues_of_openMember {outer : List Frame} {members : List (String × Value)}
    {first : Bool} {s atKey : List Char} {m : Machine} (hk : nextKey first s = .ok (true, atKey))
    (h : openMember .keep outer members atKey = .ok m) : Continues outer members first s m := by
  obtain ⟨⟨key, atValue⟩, hkey, rfl⟩ := Except.map_eq_ok_iff.1 h
  exact .member hk hkey

theorem continues_of_openObject {outer : List Frame} {s : List Char} {m : Machine}
    (h : openObject .keep outer s = .ok m) : Continues outer [] true s m := by
  unfold openObject at h
  split at h
  · cases h
  · next c rest hb =>
    split at h
    · next hc =>
      cases h
      exact .close (by rw [nextKey, hb]; exact if_pos hc)
    · next hc =>
      split at h
      · next hq =>
        refine continues_of_openMember ?_ h
        simp [nextKey, hb, hq]
      · cases h

theorem continues_of_stepObject {outer : List Frame} {members : List (String × Value)}
    {s : List Char} {m : Machine} (h : stepObject .keep outer members s = .ok m) :
    Continues outer members false s m := by
  unfold stepObject at h
  split at h
  · cases h
  · next c rest hb =>
    split at h
    · next hc =>
      cases h
      exact .close (by rw [nextKey, hb]; exact if_pos hc)
    · next hc =>
      split at h
      · next hcomma =>
        split at h
        · cases h
        · next d behind hd =>
          split at h
          · next hq =>
            refine continues_of_openMember ?_ h
            simp [nextKey, hb, hcomma, hd, hq]
          · split at h <;> cases h
      · cases h

theorem run_complete {v u : Value} {s rest : List Char}
    (h : run .keep ⟨[], .complete v, s⟩ = .ok (u, rest)) : u = v ∧ rest = s := by
  rw [run] at h
  cases h
  exact ⟨rfl, rfl⟩

/-- What has been read of the object so far comes in front of what its text still holds. By
induction on the length of the text: the value of the next member is read as on an empty stack. -/
theorem hasMembers_of_continues {done : List (String × Value)} {first : Bool} {s rest : List Char}
    {m : Machine} {u : Value} (hm : Continues [] done first s m)
    (h : m.run .keep = .ok (u, rest)) :
    ∃ members, HasMembers first s members rest ∧ u = .object (done.reverse ++ members) := by
  induction hn : s.length using Nat.strongRecOn generalizing done first s m with
  | ind n ih =>
    subst hn
    cases hm with
    | close hk =>
      obtain ⟨rfl, rfl⟩ := run_complete h
      exact ⟨[], .close hk, by rw [List.append_nil]⟩
    | @member atKey atValue key hk hkey =>
      have habove : (atop ⟨[], .wanted, atValue⟩ [.object done key]).run .keep = .ok (u, rest) := h
      obtain ⟨v, behind, hv, hbehind⟩ := run_atop habove
      rw [run_eq_of_step rfl] at hbehind
      split at hbehind
      · cases hbehind
      · next n' hstep =>
        have hlt : behind.length < s.length :=
          Nat.lt_trans (length_lt_of_readValue hv)
            (Nat.lt_trans (length_lt_of_readKey hkey) (length_lt_of_nextKey hk))
        have hobject : stepObject .keep [] ((key, v) :: done) behind = .ok n' := hstep
        obtain ⟨members, hmembers, rfl⟩ := ih _ hlt (continues_of_stepObject hobject) hbehind rfl
        exact ⟨(key, v) :: members, .member hk hkey hv hmembers, by simp⟩

theorem stepList_cases {outer : List Frame} {items : List Value} {s : List Char} {m : Machine}
    (h : stepList .keep outer items s = .ok m) :
    (∃ rest, m = ⟨outer, .complete (.array items.reverse), rest⟩) ∨
      ∃ next, m = ⟨.list items :: outer, .wanted, next⟩ := by
  unfold stepList at h
  split at h
  · cases h
  · split at h
    · cases h
      exact .inl ⟨_, rfl⟩
    · split at h
      · rw [if_pos rfl] at h
        split at h
        · cases h
        · split at h
          · cases h
          · cases h
            exact .inr ⟨_, rfl⟩
      · cases h

/-- What is open as a list becomes one. By induction on the length of the text. -/
theorem array_of_run {items : List Value} {u : Value} {s rest : List Char}
    (h : run .keep ⟨[.list items], .wanted, s⟩ = .ok (u, rest)) :
    ∃ items', u = .array items' := by
  induction hn : s.length using Nat.strongRecOn generalizing items s with
  | ind n ih =>
    subst hn
    have habove : (atop ⟨[], .wanted, s⟩ [.list items]).run .keep = .ok (u, rest) := h
    obtain ⟨v, behind, hv, hbehind⟩ := run_atop habove
    rw [run_eq_of_step rfl] at hbehind
    split at hbehind
    · cases hbehind
    · next n hstep =>
      have hlt := Nat.lt_trans (rest_lt_of_stepList hstep) (length_lt_of_readValue hv)
      rcases stepList_cases hstep with ⟨rest', rfl⟩ | ⟨next, rfl⟩
      · exact ⟨_, (run_complete hbehind).1⟩
      · exact ih _ hlt hbehind rfl

theorem array_of_openList {s rest : List Char} {m : Machine} {u : Value}
    (hm : openList [] s = .ok m) (h : m.run .keep = .ok (u, rest)) : ∃ items, u = .array items := by
  unfold openList at hm
  split at hm
  · cases hm
  · split at hm
    · cases hm
      exact ⟨[], (run_complete h).1⟩
    · cases hm
      exact array_of_run h

/-- How a value that takes the text up to `rest` has been read. -/
inductive ReadAs (s : List Char) : Value → List Char → Prop where
  | scalar {c : Char} {tail rest : List Char} {v : Value} : skipBlank s = c :: tail → c ≠ '[' →
      c ≠ '\x7b' → readScalar .keep (c :: tail) = .ok (v, rest) → ReadAs s v rest
  | array {tail rest : List Char} {items : List Value} : skipBlank s = '[' :: tail →
      ReadAs s (.array items) rest
  | object {tail rest : List Char} {members : List (String × Value)} :
      skipBlank s = '\x7b' :: tail → HasMembers true tail members rest →
      ReadAs s (.object members) rest

theorem readAs_of_readValue {s rest : List Char} {v : Value}
    (h : readValue .keep s = .ok (v, rest)) : ReadAs s v rest := by
  rw [readValue, run_eq_of_step rfl] at h
  split at h
  · cases h
  · next n hstep =>
    have hwanted : stepWanted .keep [] s = .ok n := hstep
    unfold stepWanted at hwanted
    split at hwanted
    · cases hwanted
    · next c tail hb =>
      split at hwanted
      · next hopen =>
        rw [if_neg (by decide)] at hwanted
        split at hwanted
        · next hc =>
          subst hc
          obtain ⟨items, rfl⟩ := array_of_openList hwanted h
          exact .array hb
        · next hc =>
          have hc : c = '\x7b' := by simpa [hc] using hopen
          subst hc
          obtain ⟨members, hmembers, rfl⟩ :=
            hasMembers_of_continues (continues_of_openObject hwanted) h
          exact .object hb hmembers
      · next hopen =>
        obtain ⟨⟨u, behind⟩, hu, rfl⟩ := Except.map_eq_ok_iff.1 hwanted
        obtain ⟨rfl, rfl⟩ := run_complete h
        simp only [Bool.or_eq_true, decide_eq_true_eq, not_or] at hopen
        exact .scalar hb hopen.1 hopen.2 hu

theorem readAll_eq_ok_iff {α : Type} {read : List Char → Reading α} {text : String} {a : α} :
    readAll read text = .ok a ↔
      ∃ rest, read text.toList = .ok (a, rest) ∧ skipBlank rest = [] := by
  unfold readAll
  cases read text.toList with
  | error f => simp
  | ok result =>
    obtain ⟨b, rest⟩ := result
    cases hb : skipBlank rest with
    | nil =>
      simp only [hb]
      constructor
      · intro h
        cases h
        exact ⟨rest, rfl, hb⟩
      · rintro ⟨_, h, -⟩
        cases h
        rfl
    | cons c behind => simp [hb]

end Json
end ReflectionError
