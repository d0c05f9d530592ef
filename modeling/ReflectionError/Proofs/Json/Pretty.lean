import ReflectionError.Proofs.Json.RoundTrip

/-!
# ReflectionError.Proofs.Json.Pretty

A value is read back from its text with a line for every item and member, under the same conditions
as from its text on one line.

* `Reads.pad`, `ReadsItems.pad`: blanks in front of a value, and in front of the items of a list.
* `reads_pretty`, by induction on the depth, at every level of indentation, and `parse_pretty`.
-/

namespace ReflectionError
namespace Json

open Machine

/-! ## Blanks in front -/

theorem isPadding_newLine (level : Nat) : IsPadding (newLine level) := by
  intro c hc
  rcases List.mem_cons.1 hc with rfl | hc
  · rfl
  · rw [List.eq_of_mem_replicate hc]
    rfl

theorem isPadding_blank : IsPadding [' '] := by
  intro c hc
  rw [List.mem_singleton.1 hc]
  rfl

theorem run_pad {pad : List Char} (hp : IsPadding pad) (stack : List Frame) (s : List Char) :
    run .keep ⟨stack, .wanted, pad ++ s⟩ = run .keep ⟨stack, .wanted, s⟩ := by
  rw [← run_skipBlank, skipBlank_append hp, run_skipBlank]

theorem Starts.pad {pad text : List Char} (hp : IsPadding pad) (h : Starts text) :
    Starts (pad ++ text) := by
  obtain ⟨c, tail, hc, hne⟩ := h
  exact ⟨c, tail, by rw [skipBlank_append hp, hc], hne⟩

theorem Reads.pad {depth : Nat} {v : Value} {pad text : List Char} (hp : IsPadding pad)
    (h : Reads depth v text) : Reads depth v (pad ++ text) := by
  refine ⟨h.starts.pad hp, fun stack rest hd hrest => ?_⟩
  rw [List.append_assoc, run_pad hp, h.run_eq stack rest hd hrest]

theorem ReadsItems.pad {depth : Nat} {items : List Value} {pad text : List Char}
    (hp : IsPadding pad) (h : ReadsItems depth items text) :
    ReadsItems depth items (pad ++ text) := by
  refine ⟨h.starts.pad hp, fun outer done pad' rest hd hp' => ?_⟩
  rw [List.append_assoc, run_pad hp, h.run_eq outer done pad' rest hd hp']

/-! ## The text with a line for everything -/

theorem readsItems_pretty {depth level : Nat} {items : List Value} (hne : items ≠ [])
    (h : ∀ v ∈ items, Reads depth v (prettyValue level v)) :
    ReadsItems depth items (prettyItems level items) := by
  induction items with
  | nil => exact absurd rfl hne
  | cons v items ih =>
    have hv := h v (List.mem_cons_self ..)
    have hpad := isPadding_newLine level
    cases items with
    | nil => exact hv.singleItem.pad hpad
    | cons w rest =>
      have hs := ih (List.cons_ne_nil w rest) fun u hu => h u (List.mem_cons_of_mem _ hu)
      simpa [prettyItems] using (hv.consItem hs).pad hpad

theorem readsMembers_pretty {depth level : Nat} {members : List (String × Value)}
    (hne : members ≠ []) (h : ∀ m ∈ members, Reads depth m.2 (prettyValue level m.2)) :
    ReadsMembers depth members (prettyMembers level members) := by
  induction members with
  | nil => exact absurd rfl hne
  | cons m members ih =>
    obtain ⟨key, v⟩ := m
    have hv := (h (key, v) (List.mem_cons_self ..)).pad isPadding_blank
    have hpad := isPadding_newLine level
    cases members with
    | nil => simpa [prettyMembers] using hv.singleMember hpad key
    | cons w rest =>
      have hs := hv.consMember hpad key
        (ih (List.cons_ne_nil w rest) fun u hu => h u (List.mem_cons_of_mem _ hu))
      simpa [prettyMembers] using hs

/-- The text of a value with a line for everything is read as that value. What is inside a list or
an object stands one level further in. -/
theorem reads_pretty {depth : Nat} {v : Value} (level : Nat) (h : v.Readable depth) :
    Reads depth v (prettyValue level v) := by
  induction depth generalizing v level with
  | zero =>
    cases v with
    | null => exact .null
    | boolean b => exact .boolean b
    | number n => exact .number h
    | string s => exact .string s
    | array items => exact h.elim
    | object members => exact h.elim
  | succ depth ih =>
    cases v with
    | null => exact .null
    | boolean b => exact .boolean b
    | number n => exact .number h
    | string s => exact .string s
    | array items =>
      cases items with
      | nil => exact .emptyArray
      | cons v items =>
        have hs := readsItems_pretty (List.cons_ne_nil v items) fun u hu => ih (level + 1) (h u hu)
        simpa [prettyValue] using Reads.array hs (isPadding_newLine level)
    | object members =>
      cases members with
      | nil => exact .emptyObject
      | cons m members =>
        have hs := readsMembers_pretty (List.cons_ne_nil m members) fun u hu =>
          ih (level + 1) (h u hu)
        simpa [prettyValue] using Reads.object hs (isPadding_newLine level)

/-- A value whose numbers are whole and that is not too deep is parsed back from its text with a
line for everything. -/
theorem parse_pretty {v : Value} (h : v.Readable maxDepth) : Value.parse v.pretty = .ok v :=
  parse_of_reads (reads_pretty 0 h)

end Json
end ReflectionError
