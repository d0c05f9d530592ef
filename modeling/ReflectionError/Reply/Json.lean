import ReflectionError.Decimal.Integer
import ReflectionError.Except
import ReflectionError.Json.Error
import ReflectionError.Reply.Basic

/-!
# ReflectionError.Reply.Json

The JSON form of a reply: an object with the members `errorCode` and `errorMessage`, each left out
if it is not set. Undeclared fields have no JSON form. On the way back either member may also be
named in snake case but not both ways at once, the code may be a text that spells it, null stands
for a member that is not set, and a list holds code and text by place.
-/

namespace ReflectionError
namespace Reply

open Json

def toJson (r : Reply) : Value :=
  .object
    ((if r.code = 0 then [] else [("errorCode", .number (.integer r.code.toInt))]) ++
      (if r.text = "" then [] else [("errorMessage", .string r.text)]))

/-- A code: null, a whole number of 32 bits, or a text that spells one. -/
def codeOfJson : Value → Except Mismatch Int32
  | .null => .ok 0
  | .number (.integer n) =>
    if Int32.minValue.toInt ≤ n && n ≤ Int32.maxValue.toInt then .ok (Int32.ofInt n)
    else .error .notCode
  | .string s =>
    match Decimal.readInt 32 s.toList with
    | .ok n => .ok (Int32.ofInt n)
    | .error _ => .error (.notInt32 s)
  | _ => .error .notCode

def textOfJson : Value → Except Mismatch String
  | .null => .ok ""
  | .string s => .ok s
  | v => .error (.wrongType v.found "a string")

def memberOfJson {α : Type} (read : Value → Except Mismatch α) (default : α)
    (member : Option Value) : Except Mismatch α :=
  match member with
  | none => .ok default
  | some v => read v

/-- Reads a member that may not be there if it has already been given under its other name. -/
def aliasOfJson {α : Type} (read : Value → Except Mismatch α) (name : String)
    (given : Option Value) (value : α) (member : Option Value) : Except Mismatch α :=
  match member, given with
  | none, _ => .ok value
  | some _, some _ => .error (.repeatedField name)
  | some v, none => read v

def ofMembers (members : List (String × Value)) : Except Mismatch Reply := do
  let code ← memberOfJson codeOfJson 0 (lookup? members "errorCode")
  let text ← memberOfJson textOfJson "" (lookup? members "errorMessage")
  let code ← aliasOfJson codeOfJson "errorCode" (lookup? members "errorCode") code
    (lookup? members "error_code")
  let text ← aliasOfJson textOfJson "errorMessage" (lookup? members "errorMessage") text
    (lookup? members "error_message")
  return new code text

def ofItems (items : List Value) : Except Mismatch Reply := do
  let code ← memberOfJson codeOfJson 0 items[0]?
  let text ← memberOfJson textOfJson "" items[1]?
  if 2 < items.length then throw (.tooManyItems items.length)
  return new code text

def ofJson : Value → Except Mismatch Reply
  | .object members => ofMembers members
  | .array items => ofItems items
  | v => .error (.wrongType v.found "struct ErrorResponseJson")

theorem unknown_of_ofJson {v : Value} {r : Reply} (h : ofJson v = .ok r) : r.unknown = [] := by
  cases v with
  | object members =>
    rw [ofJson, ofMembers] at h
    obtain ⟨code, _, h⟩ := Except.bind_eq_ok_iff.1 h
    obtain ⟨text, _, h⟩ := Except.bind_eq_ok_iff.1 h
    obtain ⟨code, _, h⟩ := Except.bind_eq_ok_iff.1 h
    obtain ⟨text, _, h⟩ := Except.bind_eq_ok_iff.1 h
    cases h
    rfl
  | array items =>
    rw [ofJson, ofItems] at h
    obtain ⟨code, _, h⟩ := Except.bind_eq_ok_iff.1 h
    obtain ⟨text, _, h⟩ := Except.bind_eq_ok_iff.1 h
    split at h
    · cases h
    · cases h
      rfl
  | _ => cases h

end Reply
end ReflectionError
