import ReflectionError.Proofs.Json.Lookup
import ReflectionError.Proofs.Json.RoundTrip
import ReflectionError.Reply.Json

/-!
# ReflectionError.Proofs.Reply.Json

The JSON form of a reply.

* `ofMembers_of_lookup?`: four members only decide what an object is read as.
* `readable_toJson`: the text of the form is read back as the form.
* `ofJson_toJson`, `json_roundTrip`: a reply is read back without its undeclared fields, from the
  form and from its text. The form has the members that are set and no other.
-/

namespace ReflectionError

namespace Reply

open Json

theorem codeOfJson_toInt (code : Int32) :
    codeOfJson (.number (.integer code.toInt)) = .ok code := by
  have hlow : Int32.minValue.toInt ≤ code.toInt := code.minValue_le_toInt
  have hhigh : code.toInt ≤ Int32.maxValue.toInt := code.toInt_le
  rw [codeOfJson, if_pos (by rw [decide_eq_true hlow, decide_eq_true hhigh]; rfl),
    Int32.ofInt_toInt]

def jsonMembers (r : Reply) : List (String × Value) :=
  (if r.code = 0 then [] else [("errorCode", .number (.integer r.code.toInt))]) ++
    (if r.text = "" then [] else [("errorMessage", .string r.text)])

theorem toJson_eq (r : Reply) : r.toJson = .object r.jsonMembers := rfl

theorem lookup?_jsonMembers (r : Reply) (key : String) :
    lookup? r.jsonMembers key =
      (if r.text ≠ "" ∧ "errorMessage" = key then some (.string r.text) else none).or
        (if r.code ≠ 0 ∧ "errorCode" = key then some (.number (.integer r.code.toInt))
          else none) := by
  rw [jsonMembers, lookup?_append, lookup?_unless, lookup?_unless]

theorem ofMembers_of_lookup? {members : List (String × Value)} {code : Int32} {text : String}
    (hcode : memberOfJson codeOfJson 0 (lookup? members "errorCode") = .ok code)
    (htext : memberOfJson textOfJson "" (lookup? members "errorMessage") = .ok text)
    (hcode' : lookup? members "error_code" = none)
    (htext' : lookup? members "error_message" = none) :
    ofMembers members = .ok (new code text) := by
  rw [ofMembers, hcode, htext, hcode', htext']
  rfl

theorem ofJson_toJson (r : Reply) : ofJson r.toJson = .ok r.clearUnknown := by
  apply ofMembers_of_lookup?
  · rw [← jsonMembers, lookup?_jsonMembers]
    by_cases hc : r.code = 0
    · simp [hc, memberOfJson]
    · simpa [hc, memberOfJson] using codeOfJson_toInt r.code
  · rw [← jsonMembers, lookup?_jsonMembers]
    by_cases ht : r.text = ""
    · simp [ht, memberOfJson]
    · simp [ht, memberOfJson, textOfJson]
  · rw [← jsonMembers, lookup?_jsonMembers]
    simp
  · rw [← jsonMembers, lookup?_jsonMembers]
    simp

theorem isWhole_toInt (code : Int32) : (Number.integer code.toInt).IsWhole := by
  have hlow : -(2 ^ 31) ≤ code.toInt := code.le_toInt
  have hhigh : code.toInt < 2 ^ 31 := code.toInt_lt
  exact ⟨_, rfl, by omega, by omega⟩

theorem readable_toJson (r : Reply) : r.toJson.Readable maxDepth := by
  intro m hm
  rcases List.mem_append.1 hm with hm | hm
  · split at hm
    · cases hm
    · rw [List.mem_singleton.1 hm]
      exact isWhole_toInt r.code
  · split at hm
    · cases hm
    · rw [List.mem_singleton.1 hm]
      trivial

theorem keys_jsonMembers (r : Reply) :
    r.jsonMembers.map Prod.fst =
      (if r.code = 0 then [] else ["errorCode"]) ++
        (if r.text = "" then [] else ["errorMessage"]) := by
  rw [jsonMembers, List.map_append, apply_ite (List.map Prod.fst), apply_ite (List.map Prod.fst)]
  rfl

theorem mem_keys_jsonMembers (r : Reply) (key : String) :
    key ∈ r.jsonMembers.map Prod.fst ↔
      (key = "errorCode" ∧ r.code ≠ 0) ∨ (key = "errorMessage" ∧ r.text ≠ "") := by
  rw [keys_jsonMembers, List.mem_append, List.mem_ite_nil_left, List.mem_ite_nil_left,
    List.mem_singleton, List.mem_singleton, and_comm, and_comm (b := key = "errorMessage")]

theorem nodup_keys_jsonMembers (r : Reply) : (r.jsonMembers.map Prod.fst).Nodup := by
  rw [keys_jsonMembers]
  by_cases hc : r.code = 0
  · by_cases ht : r.text = ""
    · simp [hc, ht]
    · simp [hc, ht]
  · by_cases ht : r.text = ""
    · simp [hc, ht]
    · simp [hc, ht]

/-- A reply is read back from its JSON form, and from the text of that, without its undeclared
fields. The form is an object that has the code unless it is zero, the text unless it is empty, and
nothing else. -/
theorem json_roundTrip (r : Reply) :
    ofJson r.toJson = .ok r.clearUnknown ∧
    (∃ v, Value.parse r.toJson.compact = .ok v ∧ ofJson v = .ok r.clearUnknown) ∧
    (∃ members, r.toJson = .object members ∧ (members.map Prod.fst).Nodup ∧
      ∀ key, key ∈ members.map Prod.fst ↔
        (key = "errorCode" ∧ r.code ≠ 0) ∨ (key = "errorMessage" ∧ r.text ≠ "")) :=
  ⟨ofJson_toJson r,
    ⟨r.toJson, parse_compact (readable_toJson r), ofJson_toJson r⟩,
    ⟨r.jsonMembers, toJson_eq r, nodup_keys_jsonMembers r, mem_keys_jsonMembers r⟩⟩

end Reply
end ReflectionError
