import ReflectionError.Proofs.Reply.Members

/-!
# ReflectionError.Proofs.Reply.Items

Which JSON values other than objects are replies, and which replies they are.

* `IsListed`: the lists that hold a code and a text by place.
* `ofItems_eq_ok_iff`: they are the lists that are read.
* `ofJson_of_not_object`: nothing else is, if it is no object.
* `ofJson_empty_list`: a list without items is a reply although it is no object.
-/

namespace ReflectionError
namespace Reply

open Json

/-- The lists that stand for a reply: a code and a text in this order, each of which may be left out
together with all that stands behind it. -/
inductive IsListed : List Value → Reply → Prop where
  | neither : IsListed [] {}
  | code {v : Value} {code : Int32} : IsCode v code → IsListed [v] (new code "")
  | both {v w : Value} {code : Int32} {text : String} : IsCode v code → IsText w text →
      IsListed [v, w] (new code text)

theorem ofItems_of_isListed {items : List Value} {r : Reply} (h : IsListed items r) :
    ofItems items = .ok r := by
  cases h with
  | neither => rfl
  | code hcode =>
    rw [ofItems]
    refine Except.bind_eq_ok_iff.2 ⟨_, codeOfJson_eq_ok_iff.2 hcode, ?_⟩
    rfl
  | both hcode htext =>
    rw [ofItems]
    refine Except.bind_eq_ok_iff.2 ⟨_, codeOfJson_eq_ok_iff.2 hcode, ?_⟩
    refine Except.bind_eq_ok_iff.2 ⟨_, textOfJson_eq_ok_iff.2 htext, ?_⟩
    rfl

theorem isListed_of_ofItems {items : List Value} {r : Reply} (h : ofItems items = .ok r) :
    IsListed items r := by
  rw [ofItems] at h
  obtain ⟨code, hcode, h⟩ := Except.bind_eq_ok_iff.1 h
  obtain ⟨text, htext, h⟩ := Except.bind_eq_ok_iff.1 h
  cases items with
  | nil =>
    cases hcode
    cases htext
    cases h
    exact .neither
  | cons v items =>
    have hv := codeOfJson_eq_ok_iff.1 hcode
    cases items with
    | nil =>
      cases htext
      cases h
      exact .code hv
    | cons w items =>
      have hw := textOfJson_eq_ok_iff.1 htext
      cases items with
      | nil =>
        cases h
        exact .both hv hw
      | cons u items =>
        rw [if_pos (by simp)] at h
        cases h

theorem ofItems_eq_ok_iff {items : List Value} {r : Reply} :
    ofItems items = .ok r ↔ IsListed items r :=
  ⟨isListed_of_ofItems, ofItems_of_isListed⟩

/-- Of the values that are no objects, null, booleans, numbers and strings are refused, and a list
is read if and only if it holds a code and a text by place and nothing behind them. -/
theorem ofJson_of_not_object {v : Value} (h : ∀ members, v ≠ .object members) (r : Reply) :
    ofJson v = .ok r ↔ ∃ items, v = .array items ∧ IsListed items r := by
  cases v with
  | object members => exact absurd rfl (h members)
  | array items =>
    rw [ofJson, ofItems_eq_ok_iff]
    constructor
    · exact fun hlisted => ⟨items, rfl, hlisted⟩
    · rintro ⟨_, ⟨⟩, hlisted⟩
      exact hlisted
  | _ =>
    constructor
    · rintro ⟨⟩
    · rintro ⟨_, ⟨⟩, _⟩

/-- A code that is spelled, and null for the text. -/
theorem ofJson_of_not_object_spelled :
    (∀ members, Value.array [.string "+7", .null] ≠ .object members) ∧
      ofJson (.array [.string "+7", .null]) = .ok (new 7 "") := by
  have hobject : ∀ members, Value.array [.string "+7", .null] ≠ .object members := nofun
  have hnumeral : Decimal.Numeral ('+' :: ['7']) 7 :=
    .plus (List.cons_ne_nil '7' []) (List.forall_mem_singleton.2 rfl)
  have hcode : IsCode (.string "+7") 7 := .spelled hnumeral (by decide) (by decide) rfl
  exact ⟨hobject, (ofJson_of_not_object hobject (new 7 "")).2 ⟨_, rfl, .both hcode .null⟩⟩

/-- A list without items is no object, and is read as the reply of which nothing is set. -/
theorem ofJson_empty_list :
    (∀ members, Value.array [] ≠ .object members) ∧ ofJson (.array []) = .ok {} ∧
      ¬ ∀ v, (∀ members, v ≠ .object members) → ∃ mismatch, ofJson v = .error mismatch := by
  have hobject : ∀ members, Value.array [] ≠ .object members := nofun
  refine ⟨hobject, rfl, fun hrefused => ?_⟩
  obtain ⟨mismatch, h⟩ := hrefused _ hobject
  cases h

end Reply
end ReflectionError
