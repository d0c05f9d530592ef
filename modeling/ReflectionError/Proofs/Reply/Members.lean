import Mathlib.Algebra.Ring.Int.Defs
import ReflectionError.Proofs.Decimal.Integer
import ReflectionError.Proofs.Reply.Json

/-!
# ReflectionError.Proofs.Reply.Members

Which JSON objects are replies, and which replies they are.

* `codeOfJson_eq_ok_iff`, `textOfJson_eq_ok_iff`: the values that are a code, `IsCode`, and the ones
  that are a text, `IsText`.
* `exists_given_iff`, `Given.of_holds`, `Given.of_no_holds`: one value under two names.
* `ofMembers_eq_ok_iff`, `ofMembers_filter`: an object is read as its code and its text, each on its
  own, whatever else it has.
* `ofJson_object`: the objects that are read, and what they are read as.
-/

namespace ReflectionError

namespace Reply

open Json

/-! ## Values -/

/-- The values that stand for a code: null for zero, a whole number of 32 bits, and the numeral of
one. -/
inductive IsCode : Value → Int32 → Prop where
  | null : IsCode .null 0
  | whole {n : Int} {code : Int32} : -2 ^ 31 ≤ n → n ≤ 2 ^ 31 - 1 → code.toInt = n →
      IsCode (.number (.integer n)) code
  | spelled {s : String} {n : Int} {code : Int32} : Decimal.Numeral s.toList n →
      -2 ^ 31 ≤ n → n ≤ 2 ^ 31 - 1 → code.toInt = n → IsCode (.string s) code

/-- The values that stand for a text: null for the empty one, and a string for itself. -/
inductive IsText : Value → String → Prop where
  | null : IsText .null ""
  | string {s : String} : IsText (.string s) s

theorem toInt_ofInt_of_bounds {n : Int} (hlow : -2 ^ 31 ≤ n) (hhigh : n ≤ 2 ^ 31 - 1) :
    (Int32.ofInt n).toInt = n :=
  Int32.toInt_ofInt_of_le hlow (by omega)

theorem codeOfJson_eq_ok_iff {v : Value} {code : Int32} :
    codeOfJson v = .ok code ↔ IsCode v code := by
  constructor
  · intro h
    unfold codeOfJson at h
    split at h
    · cases h
      exact .null
    · next n =>
      split at h
      · next hb =>
        obtain ⟨hlow, hhigh⟩ := Bool.and_eq_true_iff.1 hb
        have hlow : -2 ^ 31 ≤ n := of_decide_eq_true hlow
        have hhigh : n ≤ 2 ^ 31 - 1 := of_decide_eq_true hhigh
        cases h
        exact .whole hlow hhigh (toInt_ofInt_of_bounds hlow hhigh)
      · cases h
    · next s =>
      split at h
      · next n hn =>
        obtain ⟨hs, hlow, hhigh⟩ := Decimal.readInt_eq_ok_iff.1 hn
        have hhigh : n ≤ 2 ^ 31 - 1 := Int.le_sub_one_of_lt hhigh
        cases h
        exact .spelled hs hlow hhigh (toInt_ofInt_of_bounds hlow hhigh)
      · cases h
    · cases h
  · intro h
    cases h with
    | null => rfl
    | whole _ _ hn =>
      subst hn
      exact codeOfJson_toInt code
    | @spelled s n code hs hlow hhigh hn =>
      have hread : Decimal.readInt 32 s.toList = .ok n :=
        Decimal.readInt_eq_ok_iff.2 ⟨hs, hlow, Int.lt_of_le_sub_one hhigh⟩
      simp only [codeOfJson, hread]
      rw [← hn, Int32.ofInt_toInt]

theorem textOfJson_eq_ok_iff {v : Value} {text : String} :
    textOfJson v = .ok text ↔ IsText v text := by
  constructor
  · intro h
    unfold textOfJson at h
    split at h
    · cases h
      exact .null
    · cases h
      exact .string
    · cases h
  · intro h
    cases h with
    | null => rfl
    | string => rfl

/-! ## Members with two names -/

/-- The two names of a member. -/
structure Names where
  camel : String
  snake : String

namespace Names

def code : Names := ⟨"errorCode", "error_code"⟩

def text : Names := ⟨"errorMessage", "error_message"⟩

/-- The object holds `v` under one of the names. -/
def Holds (names : Names) (members : List (String × Value)) (v : Value) : Prop :=
  lookup? members names.camel = some v ∨ lookup? members names.snake = some v

/-- The object holds a value under both names. -/
def Clash (names : Names) (members : List (String × Value)) : Prop :=
  names.camel ∈ members.map Prod.fst ∧ names.snake ∈ members.map Prod.fst

end Names

section

variable {α : Type} {read : Value → Except Mismatch α} {default x : α}

/-- What is read of two places of which one at most is filled. -/
inductive Given (read : Value → Except Mismatch α) (default : α) :
    Option Value → Option Value → α → Prop where
  | nowhere : Given read default none none default
  | camel {v : Value} {x : α} : read v = .ok x → Given read default (some v) none x
  | snake {v : Value} {x : α} : read v = .ok x → Given read default none (some v) x

theorem given_iff {camel snake : Option Value} (name : String) :
    Given read default camel snake x ↔
      ∃ y, memberOfJson read default camel = .ok y ∧
        aliasOfJson read name camel y snake = .ok x := by
  constructor
  · intro h
    cases h with
    | nowhere => exact ⟨default, rfl, rfl⟩
    | camel hv => exact ⟨x, hv, rfl⟩
    | snake hv => exact ⟨default, rfl, hv⟩
  · rintro ⟨y, hy, hx⟩
    match camel, snake with
    | none, none =>
      cases hy
      cases hx
      exact .nowhere
    | some v, none =>
      cases hx
      exact .camel hy
    | none, some v => exact .snake hx
    | some _, some _ => cases hx

variable {names : Names} {members : List (String × Value)}

theorem exists_given_iff :
    (∃ x, Given read default (lookup? members names.camel) (lookup? members names.snake) x) ↔
      ¬ names.Clash members ∧ ∀ v, names.Holds members v → ∃ x, read v = .ok x := by
  have hclash : names.Clash members ↔
      lookup? members names.camel ≠ none ∧ lookup? members names.snake ≠ none := by
    rw [Names.Clash, ne_eq, ne_eq, lookup?_eq_none_iff, lookup?_eq_none_iff, Classical.not_not,
      Classical.not_not]
  rw [hclash]
  unfold Names.Holds
  match lookup? members names.camel, lookup? members names.snake with
  | none, none => exact ⟨fun _ => ⟨by simp, by simp⟩, fun _ => ⟨default, .nowhere⟩⟩
  | some v, none =>
    constructor
    · rintro ⟨x, ⟨⟩⟩
      next hv => simpa using ⟨x, hv⟩
    · rintro ⟨_, hread⟩
      obtain ⟨x, hx⟩ := hread v (.inl rfl)
      exact ⟨x, .camel hx⟩
  | none, some v =>
    constructor
    · rintro ⟨x, ⟨⟩⟩
      next hv => simpa using ⟨x, hv⟩
    · rintro ⟨_, hread⟩
      obtain ⟨x, hx⟩ := hread v (.inr rfl)
      exact ⟨x, .snake hx⟩
  | some v, some w =>
    constructor
    · rintro ⟨x, ⟨⟩⟩
    · rintro ⟨hno, _⟩
      exact absurd ⟨Option.some_ne_none v, Option.some_ne_none w⟩ hno

theorem Given.of_holds
    (h : Given read default (lookup? members names.camel) (lookup? members names.snake) x)
    {v : Value} (hv : names.Holds members v) : read v = .ok x := by
  unfold Names.Holds at hv
  revert h hv
  generalize lookup? members names.camel = camel, lookup? members names.snake = snake
  rintro (_ | hw | hw) (⟨⟨⟩⟩ | ⟨⟨⟩⟩)
  · exact hw
  · exact hw

theorem Given.of_no_holds
    (h : Given read default (lookup? members names.camel) (lookup? members names.snake) x)
    (hno : ∀ v, ¬ names.Holds members v) : x = default := by
  unfold Names.Holds at hno
  revert h hno
  generalize lookup? members names.camel = camel, lookup? members names.snake = snake
  rintro (_ | hw | hw) hno
  · rfl
  · exact absurd (.inl rfl) (hno _)
  · exact absurd (.inr rfl) (hno _)

end

/-! ## Objects -/

theorem ofMembers_eq_ok_iff {members : List (String × Value)} {r : Reply} :
    ofMembers members = .ok r ↔
      Given codeOfJson 0 (lookup? members Names.code.camel) (lookup? members Names.code.snake)
        r.code ∧
      Given textOfJson "" (lookup? members Names.text.camel) (lookup? members Names.text.snake)
        r.text ∧
      r.unknown = [] := by
  rw [given_iff "errorCode", given_iff "errorMessage", ofMembers]
  constructor
  · intro h
    obtain ⟨code, hcode, h⟩ := Except.bind_eq_ok_iff.1 h
    obtain ⟨text, htext, h⟩ := Except.bind_eq_ok_iff.1 h
    obtain ⟨code', hcode', h⟩ := Except.bind_eq_ok_iff.1 h
    obtain ⟨text', htext', h⟩ := Except.bind_eq_ok_iff.1 h
    cases h
    exact ⟨⟨code, hcode, hcode'⟩, ⟨text, htext, htext'⟩, rfl⟩
  · rintro ⟨⟨code, hcode, hcode'⟩, ⟨text, htext, htext'⟩, hunknown⟩
    refine Except.bind_eq_ok_iff.2 ⟨code, hcode, ?_⟩
    refine Except.bind_eq_ok_iff.2 ⟨text, htext, ?_⟩
    refine Except.bind_eq_ok_iff.2 ⟨r.code, hcode', ?_⟩
    refine Except.bind_eq_ok_iff.2 ⟨r.text, htext', ?_⟩
    cases r
    cases hunknown
    rfl

theorem exists_ofMembers_iff {members : List (String × Value)} :
    (∃ r, ofMembers members = .ok r) ↔
      (∃ code, Given codeOfJson 0 (lookup? members Names.code.camel)
        (lookup? members Names.code.snake) code) ∧
      ∃ text, Given textOfJson "" (lookup? members Names.text.camel)
        (lookup? members Names.text.snake) text := by
  constructor
  · rintro ⟨r, h⟩
    obtain ⟨hcode, htext, _⟩ := ofMembers_eq_ok_iff.1 h
    exact ⟨⟨r.code, hcode⟩, ⟨r.text, htext⟩⟩
  · rintro ⟨⟨code, hcode⟩, ⟨text, htext⟩⟩
    exact ⟨new code text, ofMembers_eq_ok_iff.2 ⟨hcode, htext, rfl⟩⟩

/-- The keys that an object is read by. -/
def declaredKeys : List String :=
  [Names.code.camel, Names.code.snake, Names.text.camel, Names.text.snake]

theorem ofMembers_filter (members : List (String × Value)) :
    ofMembers (members.filter fun m => m.1 ∈ declaredKeys) = ofMembers members := by
  have hsame (key : String) (hkey : key ∈ declaredKeys) :
      lookup? (members.filter fun m => m.1 ∈ declaredKeys) key = lookup? members key :=
    lookup?_filter members (fun key => decide (key ∈ declaredKeys)) (decide_eq_true hkey)
  unfold ofMembers
  rw [hsame "errorCode" (by decide), hsame "error_code" (by decide),
    hsame "errorMessage" (by decide), hsame "error_message" (by decide)]

/-- An object is a reply if and only if it has neither the code nor the text under both of its
names, and what it has there is a code and a text. It is the reply of that code and that text, zero
and empty if they are not there, without undeclared fields. The other members may be anything. -/
theorem ofJson_object (members : List (String × Value)) :
    ((∃ r, ofJson (.object members) = .ok r) ↔
      ¬ Names.code.Clash members ∧ ¬ Names.text.Clash members ∧
      (∀ v, Names.code.Holds members v → ∃ code, IsCode v code) ∧
      (∀ v, Names.text.Holds members v → ∃ text, IsText v text)) ∧
    (∀ r, ofJson (.object members) = .ok r →
      (∀ v, Names.code.Holds members v → IsCode v r.code) ∧
      ((∀ v, ¬ Names.code.Holds members v) → r.code = 0) ∧
      (∀ v, Names.text.Holds members v → IsText v r.text) ∧
      ((∀ v, ¬ Names.text.Holds members v) → r.text = "") ∧
      r.unknown = []) ∧
    ofJson (.object (members.filter fun m => m.1 ∈ declaredKeys)) = ofJson (.object members) := by
  refine ⟨?_, ?_, ofMembers_filter members⟩
  · rw [ofJson, exists_ofMembers_iff, exists_given_iff, exists_given_iff, and_and_and_comm,
      and_assoc]
    simp only [codeOfJson_eq_ok_iff, textOfJson_eq_ok_iff]
  · intro r h
    obtain ⟨hcode, htext, hunknown⟩ := ofMembers_eq_ok_iff.1 h
    exact ⟨fun v hv => codeOfJson_eq_ok_iff.1 (hcode.of_holds hv), hcode.of_no_holds,
      fun v hv => textOfJson_eq_ok_iff.1 (htext.of_holds hv), htext.of_no_holds, hunknown⟩

end Reply
end ReflectionError
