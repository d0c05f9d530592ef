import ReflectionError.Json.Token

/-!
# ReflectionError.Json.Parser

Values from text. The parser is a machine: a stack of the lists and objects that are open, a state
that says whether a value is wanted next or one is complete, and the text that is left. Every step
takes at least one character (`rest_lt_of_step`), so a run ends. A value that is kept may be nested
127 deep; one that is skipped may be nested any depth.
-/

namespace ReflectionError
namespace Json

/-- A list or an object that is open: what it holds already, the last in front, and the key that
waits for its value. -/
inductive Frame where
  | list (items : List Value)
  | object (members : List (String × Value)) (key : String)

inductive State where
  | wanted
  | complete (value : Value)

structure Machine where
  stack : List Frame
  state : State
  rest : List Char

/-- So many lists and objects may be open in each other, if they are kept. -/
def maxDepth : Nat := 127

/-- A value that is neither a list nor an object, and starts with the first character of the
text. -/
def readScalar (mode : Mode) : List Char → Reading Value
  | [] => .error (.here .endInValue [])
  | c :: rest =>
    if c = 'n' then (readWord ['u', 'l', 'l'] rest).map fun s => (.null, s)
    else if c = 't' then (readWord ['r', 'u', 'e'] rest).map fun s => (.boolean true, s)
    else if c = 'f' then (readWord ['a', 'l', 's', 'e'] rest).map fun s => (.boolean false, s)
    else if c = '"' then (readString mode rest).map fun (cs, s) => (.string (String.ofList cs), s)
    else if c = '-' || isDigit c then
      (readNumber mode (c :: rest)).map fun (n, s) => (.number n, s)
    else .error (.peeked .expectedValue (c :: rest))

def readKey (mode : Mode) (s : List Char) : Reading String :=
  match readString mode s with
  | .error f => .error f
  | .ok (cs, rest) =>
    match skipBlank rest with
    | [] => .error (.here .endInObject [])
    | c :: behind =>
      if c = ':' then .ok (String.ofList cs, behind)
      else .error (.peeked .expectedColon (c :: behind))

namespace Machine

/-- A key and its colon come next; the object they belong to is open with `members` in it. -/
def openMember (mode : Mode) (outer : List Frame) (members : List (String × Value))
    (s : List Char) : Except Fault Machine :=
  (readKey mode s).map fun (key, rest) => ⟨.object members key :: outer, .wanted, rest⟩

def openList (outer : List Frame) (s : List Char) : Except Fault Machine :=
  match skipBlank s with
  | [] => .error (.here .endInList [])
  | c :: rest =>
    if c = ']' then .ok ⟨outer, .complete (.array []), rest⟩
    else .ok ⟨.list [] :: outer, .wanted, c :: rest⟩

def openObject (mode : Mode) (outer : List Frame) (s : List Char) : Except Fault Machine :=
  match skipBlank s with
  | [] => .error (.here .endInObject [])
  | c :: rest =>
    if c = '\x7d' then .ok ⟨outer, .complete (.object []), rest⟩
    else if c = '"' then openMember mode outer [] rest
    else .error (.peeked .keyNotString (c :: rest))

def stepWanted (mode : Mode) (stack : List Frame) (s : List Char) : Except Fault Machine :=
  match skipBlank s with
  | [] => .error (.here .endInValue [])
  | c :: rest =>
    if c = '[' || c = '\x7b' then
      if mode = .keep && maxDepth ≤ stack.length then .error (.peeked .tooDeep (c :: rest))
      else if c = '[' then openList stack rest
      else openObject mode stack rest
    else (readScalar mode (c :: rest)).map fun (v, behind) => ⟨stack, .complete v, behind⟩

def stepList (mode : Mode) (outer : List Frame) (items : List Value) (s : List Char) :
    Except Fault Machine :=
  match skipBlank s with
  | [] => .error (.here .endInList [])
  | c :: rest =>
    if c = ']' then .ok ⟨outer, .complete (.array items.reverse), rest⟩
    else if c = ',' then
      if mode = .keep then
        match skipBlank rest with
        | [] => .error (.here .endInValue [])
        | d :: behind =>
          if d = ']' then .error (.peeked .trailingComma (d :: behind))
          else .ok ⟨.list items :: outer, .wanted, d :: behind⟩
      else .ok ⟨.list items :: outer, .wanted, rest⟩
    else .error (.peeked .expectedListComma (c :: rest))

def stepObject (mode : Mode) (outer : List Frame) (members : List (String × Value))
    (s : List Char) : Except Fault Machine :=
  match skipBlank s with
  | [] => .error (.here .endInObject [])
  | c :: rest =>
    if c = '\x7d' then .ok ⟨outer, .complete (.object members.reverse), rest⟩
    else if c = ',' then
      match skipBlank rest with
      | [] => .error (.here (if mode = .keep then .endInValue else .endInObject) [])
      | d :: behind =>
        if d = '"' then openMember mode outer members behind
        else if mode = .keep && d = '\x7d' then .error (.peeked .trailingComma (d :: behind))
        else .error (.peeked .keyNotString (d :: behind))
    else .error (.peeked .expectedObjectComma (c :: rest))

def step (mode : Mode) (m : Machine) : Except Fault Machine :=
  match m.state, m.stack with
  | .wanted, stack => stepWanted mode stack m.rest
  | .complete v, .list items :: outer => stepList mode outer (v :: items) m.rest
  | .complete v, .object members key :: outer =>
    stepObject mode outer ((key, v) :: members) m.rest
  | .complete v, [] => .ok ⟨[], .complete v, m.rest⟩

/-- A machine is at its end when a value is complete and nothing is open. -/
def result? (m : Machine) : Option Value :=
  match m.state, m.stack with
  | .complete v, [] => some v
  | _, _ => none

end Machine

theorem length_lt_of_readScalar {mode : Mode} {s rest : List Char} {v : Value}
    (h : readScalar mode s = .ok (v, rest)) : rest.length < s.length := by
  have word {letters tail : List Char} {u : Value}
      (hw : (readWord letters tail).map (fun r => (u, r)) = .ok (v, rest)) :
      rest.length ≤ tail.length := by
    obtain ⟨r, hx, he⟩ := Except.map_eq_ok_iff.1 hw
    cases he
    exact length_le_of_readWord hx
  unfold readScalar at h
  split at h
  · simp at h
  · next c tail =>
    split at h
    · exact Nat.lt_succ_of_le (word h)
    · split at h
      · exact Nat.lt_succ_of_le (word h)
      · split at h
        · exact Nat.lt_succ_of_le (word h)
        · split at h
          · obtain ⟨⟨cs, r⟩, hx, he⟩ := Except.map_eq_ok_iff.1 h
            cases he
            exact Nat.lt_succ_of_lt (length_lt_of_readString hx)
          · split at h
            · obtain ⟨⟨n, r⟩, hx, he⟩ := Except.map_eq_ok_iff.1 h
              cases he
              exact length_lt_of_readNumber hx
            · simp at h

theorem length_lt_of_readKey {mode : Mode} {s rest : List Char} {key : String}
    (h : readKey mode s = .ok (key, rest)) : rest.length < s.length := by
  unfold readKey at h
  split at h
  · simp at h
  · next hs =>
    split at h
    · simp at h
    · next hb =>
      split at h
      · simp only [Except.ok.injEq, Prod.mk.injEq] at h
        rw [← h.2]
        exact Nat.lt_trans (length_lt_of_skipBlank hb) (length_lt_of_readString hs)
      · simp at h

namespace Machine

theorem rest_lt_of_openMember {mode : Mode} {outer : List Frame}
    {members : List (String × Value)} {s : List Char} {m : Machine}
    (h : openMember mode outer members s = .ok m) : m.rest.length < s.length := by
  unfold openMember at h
  obtain ⟨⟨key, rest⟩, hk, rfl⟩ := Except.map_eq_ok_iff.1 h
  exact length_lt_of_readKey hk

theorem rest_le_of_openList {outer : List Frame} {s : List Char} {m : Machine}
    (h : openList outer s = .ok m) : m.rest.length ≤ s.length := by
  unfold openList at h
  split at h
  · simp at h
  · next hb =>
    have := length_lt_of_skipBlank hb
    split at h
    · simp only [Except.ok.injEq] at h
      rw [← h]
      exact Nat.le_of_lt this
    · simp only [Except.ok.injEq] at h
      rw [← h]
      exact this

theorem rest_le_of_openObject {mode : Mode} {outer : List Frame} {s : List Char} {m : Machine}
    (h : openObject mode outer s = .ok m) : m.rest.length ≤ s.length := by
  unfold openObject at h
  split at h
  · simp at h
  · next hb =>
    have := length_lt_of_skipBlank hb
    split at h
    · simp only [Except.ok.injEq] at h
      rw [← h]
      exact Nat.le_of_lt this
    · split at h
      · exact Nat.le_of_lt (Nat.lt_trans (rest_lt_of_openMember h) this)
      · simp at h

theorem rest_lt_of_stepWanted {mode : Mode} {stack : List Frame} {s : List Char} {m : Machine}
    (h : stepWanted mode stack s = .ok m) : m.rest.length < s.length := by
  unfold stepWanted at h
  split at h
  · simp at h
  · next c rest hb =>
    have := length_lt_of_skipBlank hb
    split at h
    · split at h
      · simp at h
      · split at h
        · exact Nat.lt_of_le_of_lt (rest_le_of_openList h) this
        · exact Nat.lt_of_le_of_lt (rest_le_of_openObject h) this
    · obtain ⟨⟨v, behind⟩, hv, rfl⟩ := Except.map_eq_ok_iff.1 h
      exact Nat.lt_of_lt_of_le (length_lt_of_readScalar hv) this

theorem rest_lt_of_stepList {mode : Mode} {outer : List Frame} {items : List Value}
    {s : List Char} {m : Machine} (h : stepList mode outer items s = .ok m) :
    m.rest.length < s.length := by
  unfold stepList at h
  split at h
  · simp at h
  · next hb =>
    have := length_lt_of_skipBlank hb
    split at h
    · simp only [Except.ok.injEq] at h
      exact h ▸ this
    · split at h
      · split at h
        · split at h
          · simp at h
          · next hd =>
            have := length_lt_of_skipBlank hd
            split at h
            · simp at h
            · simp only [Except.ok.injEq] at h
              rw [← h, List.length_cons]
              omega
        · simp only [Except.ok.injEq] at h
          exact h ▸ this
      · simp at h

theorem rest_lt_of_stepObject {mode : Mode} {outer : List Frame}
    {members : List (String × Value)} {s : List Char} {m : Machine}
    (h : stepObject mode outer members s = .ok m) : m.rest.length < s.length := by
  unfold stepObject at h
  split at h
  · simp at h
  · next hb =>
    have := length_lt_of_skipBlank hb
    split at h
    · simp only [Except.ok.injEq] at h
      exact h ▸ this
    · split at h
      · split at h
        · simp at h
        · next hd =>
          have := length_lt_of_skipBlank hd
          split at h
          · have := rest_lt_of_openMember h
            omega
          · split at h <;> simp at h
      · simp at h

theorem rest_lt_of_step {mode : Mode} {m n : Machine} (hm : m.result? = none)
    (h : m.step mode = .ok n) : n.rest.length < m.rest.length := by
  unfold step at h
  split at h
  · exact rest_lt_of_stepWanted h
  · exact rest_lt_of_stepList h
  · exact rest_lt_of_stepObject h
  · next hv hs => simp [result?, hv, hs] at hm

def run (mode : Mode) (m : Machine) : Reading Value :=
  match _hm : m.result? with
  | some v => .ok (v, m.rest)
  | none =>
    match _hs : m.step mode with
    | .error f => .error f
    | .ok n => run mode n
termination_by m.rest.length
decreasing_by exact rest_lt_of_step _hm _hs

theorem rest_le_of_run {mode : Mode} {m : Machine} {v : Value} {rest : List Char}
    (h : m.run mode = .ok (v, rest)) : rest.length ≤ m.rest.length := by
  fun_induction run mode m with
  | case1 => simp only [Except.ok.injEq, Prod.mk.injEq] at h; exact h.2 ▸ Nat.le_refl _
  | case2 => simp at h
  | case3 _ hm _ hs ih => exact Nat.le_trans (ih h) (Nat.le_of_lt (rest_lt_of_step hm hs))

end Machine

def readValue (mode : Mode) (s : List Char) : Reading Value :=
  Machine.run mode ⟨[], .wanted, s⟩

theorem length_lt_of_readValue {mode : Mode} {s rest : List Char} {v : Value}
    (h : readValue mode s = .ok (v, rest)) : rest.length < s.length := by
  unfold readValue Machine.run at h
  split at h
  · next hm => simp [Machine.result?] at hm
  · split at h
    · simp at h
    · next hs =>
      exact Nat.lt_of_le_of_lt (Machine.rest_le_of_run h) (Machine.rest_lt_of_stepWanted hs)

/-- What a whole text holds, when only blanks follow what is read. -/
def readAll {α : Type} (read : List Char → Reading α) (text : String) : Except Error α :=
  match read text.toList with
  | .error f => .error (f.locate text.toList)
  | .ok (a, rest) =>
    match skipBlank rest with
    | [] => .ok a
    | c :: behind => .error ((Fault.peeked .trailingText (c :: behind)).locate text.toList)

def Value.parse (text : String) : Except Error Value := readAll (readValue .keep) text

end Json
end ReflectionError
