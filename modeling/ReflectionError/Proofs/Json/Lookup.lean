import ReflectionError.Json.Value

/-!
# ReflectionError.Proofs.Json.Lookup

The members of an object by their keys.

* `lookup?_append`, `lookup?_cons`, `lookup?_unless`, `lookup?_filter`: members put together, and
  members left out.
* `lookup?_eq_none_iff`: keys that are not there.
* `Once`: keys that are there once at most.
-/

namespace ReflectionError
namespace Json

theorem lookup?_append (front back : List (String × Value)) (key : String) :
    lookup? (front ++ back) key = (lookup? back key).or (lookup? front key) := by
  simp only [lookup?, List.reverse_append, List.find?_append, Option.map_or]

theorem lookup?_cons (m : String × Value) (members : List (String × Value)) (key : String) :
    lookup? (m :: members) key =
      (lookup? members key).or (if m.1 = key then some m.2 else none) := by
  have hone : lookup? [m] key = if m.1 = key then some m.2 else none := by
    by_cases hk : m.1 = key
    · simp [lookup?, hk]
    · simp [lookup?, hk]
  rw [← hone]
  exact lookup?_append [m] members key

theorem lookup?_unless (p : Prop) [Decidable p] (name key : String) (v : Value) :
    lookup? (if p then [] else [(name, v)]) key = if ¬ p ∧ name = key then some v else none := by
  by_cases hp : p
  · simp [lookup?, hp]
  · by_cases hk : name = key
    · simp [lookup?, hp, hk]
    · simp [lookup?, hp, hk]

theorem lookup?_eq_none_iff {members : List (String × Value)} {key : String} :
    lookup? members key = none ↔ key ∉ members.map Prod.fst := by
  rw [lookup?, Option.map_eq_none_iff, List.find?_eq_none, List.mem_map]
  constructor
  · rintro h ⟨m, hm, hkey⟩
    exact h m (List.mem_reverse.2 hm) (decide_eq_true hkey)
  · intro h m hm hkey
    exact h ⟨m, List.mem_reverse.1 hm, of_decide_eq_true hkey⟩

/-- Members that are left out do not matter for the keys that stay. -/
theorem lookup?_filter (members : List (String × Value)) {key : String} (keep : String → Bool)
    (h : keep key = true) :
    lookup? (members.filter fun m => keep m.1) key = lookup? members key := by
  have hkeep : (fun m : String × Value => decide (keep m.1 = true ∧ decide (m.1 = key) = true)) =
      fun m => decide (m.1 = key) := by
    funext m
    by_cases hm : m.1 = key
    · simp [hm, h]
    · simp [hm]
  rw [lookup?, lookup?, ← List.filter_reverse, List.find?_filter, hkeep]

/-! ## Keys that do not repeat -/

/-- The key is there once at most, and what it holds is as wanted. -/
def Once (members : List (String × Value)) (key : String) (Wanted : Value → Prop) : Prop :=
  (members.map Prod.fst).count key ≤ 1 ∧ ∀ v, (key, v) ∈ members → Wanted v

section

variable {members : List (String × Value)} {key : String} {v : Value} {Wanted : Value → Prop}

theorem once_of_notMem (h : key ∉ members.map Prod.fst) : Once members key Wanted := by
  refine ⟨?_, fun v hv => absurd (List.mem_map_of_mem hv) h⟩
  rw [List.count_eq_zero.2 h]
  exact Nat.zero_le 1

theorem once_cons_of_ne {other : String} (h : other ≠ key) :
    Once ((other, v) :: members) key Wanted ↔ Once members key Wanted := by
  have hmem (u : Value) : (key, u) ∈ (other, v) :: members ↔ (key, u) ∈ members := by
    simp [h.symm]
  simp only [Once, List.map_cons, List.count_cons_of_ne h, hmem]

theorem once_cons_self :
    Once ((key, v) :: members) key Wanted ↔ key ∉ members.map Prod.fst ∧ Wanted v := by
  have hcount : (members.map Prod.fst).count key + 1 ≤ 1 ↔ key ∉ members.map Prod.fst := by
    rw [← List.count_eq_zero]
    omega
  rw [Once, List.map_cons, List.count_cons_self, hcount]
  refine and_congr_right fun hnot => ⟨fun h => h v (List.mem_cons_self ..), fun h u hu => ?_⟩
  rcases List.mem_cons.1 hu with hu | hu
  · cases hu
    exact h
  · exact absurd (List.mem_map_of_mem hu) hnot

theorem Once.congr {Wanted' : Value → Prop} (h : ∀ v, Wanted v ↔ Wanted' v) :
    Once members key Wanted ↔ Once members key Wanted' := by
  simp only [Once, h]

end

end Json
end ReflectionError
