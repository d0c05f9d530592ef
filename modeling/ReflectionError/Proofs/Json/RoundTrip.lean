import ReflectionError.Proofs.Json.Scalar
import ReflectionError.Proofs.Json.Token

/-!
# ReflectionError.Proofs.Json.RoundTrip

A value is read back from its text on one line, if its numbers are whole and no more lists and
objects are open in each other than may be.

* `Reads`: a text takes the machine from wanting a value to having it, whatever stands behind and
  whatever is open. `ReadsItems`, `ReadsMembers`: the same for the inside of a list or an object.
* `Reads.array`, `Reads.object`: from what is inside to the whole. Blanks may stand around items
  and members.
* `reads_compact`, by induction on the depth, and `parse_compact`.
-/

namespace ReflectionError
namespace Json

/-- All numbers are whole, and at most `depth` lists and objects are open in each other. -/
def Value.Readable : Nat → Value → Prop
  | _, .null => True
  | _, .boolean _ => True
  | _, .number n => n.IsWhole
  | _, .string _ => True
  | 0, .array _ => False
  | 0, .object _ => False
  | depth + 1, .array items => ∀ v ∈ items, Readable depth v
  | depth + 1, .object members => ∀ m ∈ members, Readable depth m.2

/-! ## Steps of the machine -/

namespace Machine

theorem run_eq_of_step {mode : Mode} {m : Machine} (hm : m.result? = none) :
    m.run mode = (match m.step mode with
      | .error f => .error f
      | .ok n => n.run mode) := by
  rw [run]
  split
  · next h => rw [hm] at h; cases h
  · split
    · next h => rw [h]
    · next h => rw [h]

theorem run_of_stepWanted {stack : List Frame} {s : List Char} {m : Machine}
    (h : stepWanted .keep stack s = .ok m) : run .keep ⟨stack, .wanted, s⟩ = run .keep m := by
  have hs : step .keep ⟨stack, .wanted, s⟩ = .ok m := h
  rw [run_eq_of_step rfl, hs]

theorem run_of_stepList {outer : List Frame} {items : List Value} {v : Value} {s : List Char}
    {m : Machine} (h : stepList .keep outer (v :: items) s = .ok m) :
    run .keep ⟨.list items :: outer, .complete v, s⟩ = run .keep m := by
  have hs : step .keep ⟨.list items :: outer, .complete v, s⟩ = .ok m := h
  rw [run_eq_of_step rfl, hs]

theorem run_of_stepObject {outer : List Frame} {members : List (String × Value)} {key : String}
    {v : Value} {s : List Char} {m : Machine}
    (h : stepObject .keep outer ((key, v) :: members) s = .ok m) :
    run .keep ⟨.object members key :: outer, .complete v, s⟩ = run .keep m := by
  have hs : step .keep ⟨.object members key :: outer, .complete v, s⟩ = .ok m := h
  rw [run_eq_of_step rfl, hs]

theorem run_skipBlank (stack : List Frame) (s : List Char) :
    run .keep ⟨stack, .wanted, skipBlank s⟩ = run .keep ⟨stack, .wanted, s⟩ := by
  have hs : step .keep ⟨stack, .wanted, skipBlank s⟩ = step .keep ⟨stack, .wanted, s⟩ := by
    simp only [step, stepWanted, skipBlank_skipBlank]
  rw [run_eq_of_step rfl, hs, run_eq_of_step (m := ⟨stack, .wanted, s⟩) rfl]

end Machine

open Machine

/-! ## Texts that are read -/

/-- Something that may be the beginning of an item is there. -/
def Starts (text : List Char) : Prop := ∃ c tail, skipBlank text = c :: tail ∧ c ≠ ']'

theorem Starts.append {text : List Char} (h : Starts text) (s : List Char) :
    Starts (text ++ s) := by
  obtain ⟨c, tail, hc, hne⟩ := h
  refine ⟨c, tail ++ s, ?_, hne⟩
  have hd : text.dropWhile isBlank = c :: tail := hc
  rw [skipBlank, List.dropWhile_append, hd]
  rfl

/-- A text of the value, at most `depth` lists and objects deep. -/
structure Reads (depth : Nat) (v : Value) (text : List Char) : Prop where
  starts : Starts text
  run_eq : ∀ stack rest, stack.length + depth ≤ maxDepth → EndsNumber rest →
    run .keep ⟨stack, .wanted, text ++ rest⟩ = run .keep ⟨stack, .complete v, rest⟩

/-- A text of the items of a list, without the brackets. -/
structure ReadsItems (depth : Nat) (items : List Value) (text : List Char) : Prop where
  starts : Starts text
  run_eq : ∀ outer done pad rest, outer.length + 1 + depth ≤ maxDepth → IsPadding pad →
    run .keep ⟨.list done :: outer, .wanted, text ++ (pad ++ ']' :: rest)⟩ =
      run .keep ⟨outer, .complete (.array (done.reverse ++ items)), rest⟩

/-- A text of the members of an object, without the braces. -/
def ReadsMembers (depth : Nat) (members : List (String × Value)) (text : List Char) : Prop :=
  ∀ outer done pad rest, outer.length + 1 + depth ≤ maxDepth → IsPadding pad →
    ∃ s m, skipBlank (text ++ (pad ++ '\x7d' :: rest)) = '"' :: s ∧
      openMember .keep outer done s = .ok m ∧
      run .keep m = run .keep ⟨outer, .complete (.object (done.reverse ++ members)), rest⟩

namespace Reads

variable {depth : Nat} {v : Value} {text : List Char}

theorem of_readScalar {c : Char} {tail : List Char} (hb : isBlank c = false) (hr : c ≠ ']')
    (hl : c ≠ '[') (ho : c ≠ '\x7b')
    (h : ∀ rest, EndsNumber rest → readScalar .keep (c :: tail ++ rest) = .ok (v, rest)) :
    Reads depth v (c :: tail) := by
  refine ⟨⟨c, tail, skipBlank_of_not_isBlank hb tail, hr⟩, fun stack rest _ hrest => ?_⟩
  apply run_of_stepWanted
  have hs := h rest hrest
  rw [List.cons_append] at hs ⊢
  simp [stepWanted, skipBlank_of_not_isBlank hb, hl, ho, hs, Except.map]

theorem null : Reads depth .null ['n', 'u', 'l', 'l'] :=
  of_readScalar rfl (by decide) (by decide) (by decide) fun _ _ => rfl

theorem boolean (b : Bool) : Reads depth (.boolean b) (printBoolean b) := by
  cases b with
  | false => exact of_readScalar rfl (by decide) (by decide) (by decide) fun _ _ => rfl
  | true => exact of_readScalar rfl (by decide) (by decide) (by decide) fun _ _ => rfl

theorem string (s : String) : Reads depth (.string s) (printString s) := by
  refine of_readScalar (by decide) (by decide) (by decide) (by decide) fun rest _ => ?_
  have hs := readString_printed s.toList rest
  simp [readScalar, hs, Except.map]

theorem number {n : Number} (h : n.IsWhole) : Reads depth (.number n) n.print := by
  obtain ⟨c, tail, hc, hd⟩ : ∃ c tail, n.print = c :: tail ∧ (c = '-' ∨ isDigit c = true) := by
    obtain ⟨i, rfl, -⟩ := h
    obtain ⟨m, rfl | ⟨hm, rfl⟩⟩ := Decimal.int_cases i
    · obtain ⟨d, ds, hds, hdigit⟩ := Decimal.toDigits_eq_cons m
      exact ⟨d, ds, (Decimal.toList_toString_nonneg m).trans hds, .inr hdigit⟩
    · exact ⟨'-', _, Decimal.toList_toString_neg hm, .inl rfl⟩
  have hother {d : Char} (hminus : d ≠ '-') (hdigit : isDigit d = false) : c ≠ d :=
    ne_of_beginsNumber hd hminus hdigit
  have hblank : isBlank c = false := by
    simp [isBlank, hother (d := ' ') (by decide) (by decide),
      hother (d := '\t') (by decide) (by decide), hother (d := '\n') (by decide) (by decide),
      hother (d := '\r') (by decide) (by decide)]
  rw [hc]
  refine of_readScalar hblank (hother (by decide) (by decide)) (hother (by decide) (by decide))
    (hother (by decide) (by decide)) fun rest hrest => ?_
  have hread := readNumber_printed h hrest
  rw [hc] at hread
  exact readScalar_of_isScalar (.number hd hread)

/-! ### Lists -/

theorem singleItem (h : Reads depth v text) : ReadsItems depth [v] text := by
  refine ⟨h.starts, fun outer done pad rest hd hp => ?_⟩
  have hend : EndsNumber (pad ++ ']' :: rest) :=
    endsNumber_padding hp (endsNumber_cons (by decide) (by decide) (by decide) (by decide) rest)
  rw [h.run_eq (.list done :: outer) _ (by simpa using hd) hend]
  apply run_of_stepList
  simp [stepList, skipBlank_append hp, skipBlank_of_not_isBlank (c := ']') (by decide)]

theorem consItem {items : List Value} {behind : List Char} (h : Reads depth v text)
    (hs : ReadsItems depth items behind) :
    ReadsItems depth (v :: items) (text ++ ',' :: behind) := by
  refine ⟨h.starts.append _, fun outer done pad rest hd hp => ?_⟩
  have hend : EndsNumber (',' :: (behind ++ (pad ++ ']' :: rest))) :=
    endsNumber_cons (by decide) (by decide) (by decide) (by decide) _
  obtain ⟨c, tail, hc, hne⟩ := hs.starts.append (pad ++ ']' :: rest)
  have hstep : stepList .keep outer (v :: done) (',' :: (behind ++ (pad ++ ']' :: rest))) =
      .ok ⟨.list (v :: done) :: outer, .wanted, skipBlank (behind ++ (pad ++ ']' :: rest))⟩ := by
    simp [stepList, skipBlank_of_not_isBlank (c := ',') (by decide), hc, hne]
  rw [List.append_assoc, List.cons_append,
    h.run_eq (.list done :: outer) _ (by simpa using hd) hend, run_of_stepList hstep,
    run_skipBlank, hs.run_eq outer (v :: done) pad rest hd hp]
  simp

theorem emptyArray : Reads (depth + 1) (.array []) ['[', ']'] := by
  refine ⟨⟨'[', [']'], by decide, by decide⟩, fun stack rest hd _ => ?_⟩
  apply run_of_stepWanted
  have hdepth : ¬ maxDepth ≤ stack.length := by omega
  simp [stepWanted, skipBlank_of_not_isBlank (c := '[') (by decide), hdepth, openList,
    skipBlank_of_not_isBlank (c := ']') (by decide)]

theorem array {items : List Value} {pad : List Char} (h : ReadsItems depth items text)
    (hp : IsPadding pad) : Reads (depth + 1) (.array items) ('[' :: (text ++ (pad ++ [']']))) := by
  refine ⟨⟨'[', _, skipBlank_of_not_isBlank (by decide) _, by decide⟩, fun stack rest hd _ => ?_⟩
  have hdepth : ¬ maxDepth ≤ stack.length := by omega
  obtain ⟨c, tail, hc, hne⟩ := h.starts.append (pad ++ ']' :: rest)
  have hstep : stepWanted .keep stack ('[' :: (text ++ (pad ++ ']' :: rest))) =
      .ok ⟨.list [] :: stack, .wanted, skipBlank (text ++ (pad ++ ']' :: rest))⟩ := by
    simp [stepWanted, skipBlank_of_not_isBlank (c := '[') (by decide), hdepth, openList, hc, hne]
  have htext : '[' :: (text ++ (pad ++ [']'])) ++ rest = '[' :: (text ++ (pad ++ ']' :: rest)) := by
    simp
  rw [htext, run_of_stepWanted hstep, run_skipBlank, h.run_eq stack [] pad rest (by omega) hp]
  simp

/-! ### Objects -/

theorem openMember_printed (outer : List Frame) (done : List (String × Value)) {pad : List Char}
    (hp : IsPadding pad) (key : String) (s : List Char) :
    ∃ behind, skipBlank (pad ++ (printString key ++ ':' :: s)) = '"' :: behind ∧
      openMember .keep outer done behind = .ok ⟨.object done key :: outer, .wanted, s⟩ := by
  refine ⟨key.toList.flatMap escapeChar ++ '"' :: ':' :: s, ?_, ?_⟩
  · rw [skipBlank_append hp, printString, List.cons_append, List.cons_append,
      skipBlank_of_not_isBlank (by decide)]
    simp
  · simp [openMember, readKey, readString_printed, skipBlank_of_not_isBlank (c := ':') (by decide),
      Except.map]

theorem singleMember {pad : List Char} (hp : IsPadding pad) (key : String)
    (h : Reads depth v text) :
    ReadsMembers depth [(key, v)] (pad ++ (printString key ++ ':' :: text)) := by
  intro outer done pad' rest hd hp'
  obtain ⟨behind, hb, ho⟩ :=
    openMember_printed outer done hp key (text ++ (pad' ++ '\x7d' :: rest))
  refine ⟨behind, _, by simpa using hb, ho, ?_⟩
  have hend : EndsNumber (pad' ++ '\x7d' :: rest) :=
    endsNumber_padding hp' (endsNumber_cons (by decide) (by decide) (by decide) (by decide) rest)
  rw [h.run_eq (.object done key :: outer) _ (by simpa using hd) hend]
  apply run_of_stepObject
  simp [stepObject, skipBlank_append hp', skipBlank_of_not_isBlank (c := '\x7d') (by decide)]

theorem consMember {pad : List Char} (hp : IsPadding pad) (key : String)
    {members : List (String × Value)} {tail : List Char} (h : Reads depth v text)
    (hs : ReadsMembers depth members tail) :
    ReadsMembers depth ((key, v) :: members)
      (pad ++ (printString key ++ ':' :: (text ++ ',' :: tail))) := by
  intro outer done pad' rest hd hp'
  obtain ⟨behind, hb, ho⟩ :=
    openMember_printed outer done hp key (text ++ ',' :: (tail ++ (pad' ++ '\x7d' :: rest)))
  refine ⟨behind, _, by simpa using hb, ho, ?_⟩
  have hend : EndsNumber (',' :: (tail ++ (pad' ++ '\x7d' :: rest))) :=
    endsNumber_cons (by decide) (by decide) (by decide) (by decide) _
  obtain ⟨s, m, hskip, hopen, hrun⟩ := hs outer ((key, v) :: done) pad' rest hd hp'
  have hstep : stepObject .keep outer ((key, v) :: done)
      (',' :: (tail ++ (pad' ++ '\x7d' :: rest))) = .ok m := by
    simp [stepObject, skipBlank_of_not_isBlank (c := ',') (by decide), hskip, hopen]
  rw [h.run_eq (.object done key :: outer) _ (by simpa using hd) hend, run_of_stepObject hstep,
    hrun]
  simp

theorem emptyObject : Reads (depth + 1) (.object []) ['\x7b', '\x7d'] := by
  refine ⟨⟨'\x7b', ['\x7d'], by decide, by decide⟩, fun stack rest hd _ => ?_⟩
  apply run_of_stepWanted
  have hdepth : ¬ maxDepth ≤ stack.length := by omega
  simp [stepWanted, skipBlank_of_not_isBlank (c := '\x7b') (by decide), hdepth, openObject,
    skipBlank_of_not_isBlank (c := '\x7d') (by decide)]

theorem object {members : List (String × Value)} {pad : List Char}
    (h : ReadsMembers depth members text) (hp : IsPadding pad) :
    Reads (depth + 1) (.object members) ('\x7b' :: (text ++ (pad ++ ['\x7d']))) := by
  refine ⟨⟨'\x7b', _, skipBlank_of_not_isBlank (by decide) _, by decide⟩,
    fun stack rest hd _ => ?_⟩
  have hdepth : ¬ maxDepth ≤ stack.length := by omega
  obtain ⟨s, m, hskip, hopen, hrun⟩ := h stack [] pad rest (by omega) hp
  have hstep : stepWanted .keep stack ('\x7b' :: (text ++ (pad ++ '\x7d' :: rest))) = .ok m := by
    simp [stepWanted, skipBlank_of_not_isBlank (c := '\x7b') (by decide), hdepth, openObject,
      hskip, hopen]
  have htext : '\x7b' :: (text ++ (pad ++ ['\x7d'])) ++ rest =
      '\x7b' :: (text ++ (pad ++ '\x7d' :: rest)) := by
    simp
  rw [htext, run_of_stepWanted hstep, hrun]
  simp

end Reads

/-! ## The text on one line -/

theorem readsItems_compact {depth : Nat} {items : List Value} (hne : items ≠ [])
    (h : ∀ v ∈ items, Reads depth v (compactValue v)) :
    ReadsItems depth items (compactItems items) := by
  induction items with
  | nil => exact absurd rfl hne
  | cons v items ih =>
    have hv := h v (List.mem_cons_self ..)
    cases items with
    | nil => exact hv.singleItem
    | cons w rest =>
      exact hv.consItem (ih (List.cons_ne_nil w rest) fun u hu => h u (List.mem_cons_of_mem _ hu))

theorem readsMembers_compact {depth : Nat} {members : List (String × Value)} (hne : members ≠ [])
    (h : ∀ m ∈ members, Reads depth m.2 (compactValue m.2)) :
    ReadsMembers depth members (compactMembers members) := by
  induction members with
  | nil => exact absurd rfl hne
  | cons m members ih =>
    obtain ⟨key, v⟩ := m
    have hv := h (key, v) (List.mem_cons_self ..)
    cases members with
    | nil => exact hv.singleMember isPadding_nil key
    | cons w rest =>
      have hs := hv.consMember isPadding_nil key
        (ih (List.cons_ne_nil w rest) fun u hu => h u (List.mem_cons_of_mem _ hu))
      simpa [compactMembers] using hs

theorem reads_compact {depth : Nat} {v : Value} (h : v.Readable depth) :
    Reads depth v (compactValue v) := by
  induction depth generalizing v with
  | zero =>
    cases v with
    | null => exact .null
    | boolean b => exact .boolean b
    | number n => exact .number h
    | string s => exact .string s
    | array items => exact h.elim
    | object members => exact h.elim
  | succ depth ih =>
    cases v with
    | null => exact .null
    | boolean b => exact .boolean b
    | number n => exact .number h
    | string s => exact .string s
    | array items =>
      cases items with
      | nil => exact .emptyArray
      | cons v items =>
        have hs := readsItems_compact (List.cons_ne_nil v items) fun u hu => ih (h u hu)
        exact .array hs isPadding_nil
    | object members =>
      cases members with
      | nil => exact .emptyObject
      | cons m members =>
        have hs := readsMembers_compact (List.cons_ne_nil m members) fun u hu => ih (h u hu)
        exact .object hs isPadding_nil

theorem parse_of_reads {v : Value} {text : List Char} (h : Reads maxDepth v text) :
    Value.parse (String.ofList text) = .ok v := by
  have hend : EndsNumber [] := fun _ hc => nomatch hc
  have hrun := h.run_eq [] [] (by simp) hend
  have hdone : run .keep ⟨[], .complete v, []⟩ = .ok (v, []) := by rw [run]; rfl
  rw [List.append_nil, hdone] at hrun
  rw [Value.parse, readAll, String.toList_ofList, readValue, hrun]
  rfl

/-- A value whose numbers are whole and that is not too deep is parsed back from its text. -/
theorem parse_compact {v : Value} (h : v.Readable maxDepth) : Value.parse v.compact = .ok v :=
  parse_of_reads (reads_compact h)

end Json
end ReflectionError
