import ReflectionError.Json.Parser

/-!
# ReflectionError.Json.Record

Records straight from text: an object gives fields by name, a list gives them by place, and a field
that is not given keeps what it had. Members of other names are skipped. A field is read as soon as
it is reached, so what is wrong with it is reported before what is wrong behind it.
-/

namespace ReflectionError
namespace Json

/-- What is wrong with a text that starts with its first character, where `expected` was to come. -/
def refuse (expected : String) : List Char → Fault
  | [] => .here .endInValue []
  | c :: rest =>
    if c = '[' then .ofMismatch (.wrongType .list expected) (c :: rest)
    else if c = '\x7b' then .ofMismatch (.wrongType .object expected) (c :: rest)
    else match readScalar .keep (c :: rest) with
      | .error f => f
      | .ok (v, behind) => .ofMismatch (.wrongType v.found expected) behind

/-! ## Leaves -/

inductive Verdict (α : Type) where
  | accepted (a : α)
  | outOfRange
  | wrongType

def Verdict.map {α β : Type} (f : α → β) : Verdict α → Verdict β
  | .accepted a => .accepted (f a)
  | .outOfRange => .outOfRange
  | .wrongType => .wrongType

/-- A value that is neither a list nor an object, with the words for what is expected. -/
structure Leaf (α : Type) where
  expected : String
  judge : Value → Verdict α

namespace Leaf

def boolean : Leaf Bool where
  expected := "a boolean"
  judge
    | .boolean b => .accepted b
    | _ => .wrongType

def natural (limit : Nat) (expected : String) : Leaf Nat where
  expected
  judge
    | .number (.integer n) => if 0 ≤ n && n ≤ limit then .accepted n.toNat else .outOfRange
    | _ => .wrongType

def optional {α : Type} (leaf : Leaf α) : Leaf (Option α) where
  expected := leaf.expected
  judge
    | .null => .accepted none
    | v => (leaf.judge v).map some

def read {α : Type} (leaf : Leaf α) (s : List Char) : Reading α :=
  match skipBlank s with
  | [] => .error (.here .endInValue [])
  | c :: rest =>
    if c = '[' || c = '\x7b' then .error (refuse leaf.expected (c :: rest))
    else match readScalar .keep (c :: rest) with
      | .error f => .error f
      | .ok (v, behind) =>
        match leaf.judge v with
        | .accepted a => .ok (a, behind)
        | .outOfRange => .error (.ofMismatch (.outOfRange v.found leaf.expected) behind)
        | .wrongType => .error (.ofMismatch (.wrongType v.found leaf.expected) behind)

theorem length_lt_of_read {α : Type} {leaf : Leaf α} {s rest : List Char} {a : α}
    (h : leaf.read s = .ok (a, rest)) : rest.length < s.length := by
  unfold read at h
  split at h
  · simp at h
  · next hb =>
    split at h
    · simp at h
    · split at h
      · simp at h
      · next hv =>
        split at h
        · simp only [Except.ok.injEq, Prod.mk.injEq] at h
          rw [← h.2]
          exact Nat.lt_of_lt_of_le (length_lt_of_readScalar hv) (length_lt_of_skipBlank hb)
        · simp at h
        · simp at h

end Leaf

/-! ## Records -/

/-- A field of a record: how its value is read onto what is there. -/
structure Field (σ : Type) where
  name : String
  read : σ → List Char → Reading σ
  forward : ∀ {a b : σ} {s rest : List Char}, read a s = .ok (b, rest) → rest.length < s.length

def Field.ofLeaf {σ α : Type} (name : String) (leaf : Leaf α) (set : σ → α → σ) : Field σ where
  name
  read a s := (leaf.read s).map fun (v, rest) => (set a v, rest)
  forward {a b s rest} h := by
    obtain ⟨⟨v, next⟩, hv, he⟩ := Except.map_eq_ok_iff.1 h
    cases he
    exact Leaf.length_lt_of_read hv

/-- The fields of a record in the order of a list, with the words for what is expected. -/
structure Record (σ : Type) where
  expected : String
  fields : List (Field σ)

namespace Record

variable {σ : Type}

def closeObject (s : List Char) : List Char :=
  match skipBlank s with
  | [] => []
  | c :: rest => if c = '\x7d' then rest else c :: rest

/-- The text behind the opening quotation mark of the next key; nothing at the end of the object. -/
def nextKey (first : Bool) (s : List Char) : Reading Bool :=
  match skipBlank s with
  | [] => .error (.here .endInObject [])
  | c :: rest =>
    if c = '\x7d' then .ok (false, rest)
    else if c = ',' && !first then
      match skipBlank rest with
      | [] => .error (.here .endInValue [])
      | d :: behind =>
        if d = '"' then .ok (true, behind)
        else if d = '\x7d' then .error (.peeked .trailingComma (d :: behind))
        else .error (.peeked .keyNotString (d :: behind))
    else if !first then .error (.peeked .expectedObjectComma (c :: rest))
    else if c = '"' then .ok (true, rest)
    else .error (.peeked .keyNotString (c :: rest))

def readColon (s : List Char) : Except Fault (List Char) :=
  match skipBlank s with
  | [] => .error (.here .endInObject [])
  | c :: rest => if c = ':' then .ok rest else .error (.peeked .expectedColon (c :: rest))

/-- A key and its value. Names that have been read already are in `seen`. A repeated name is refused
before its value is looked at. -/
def readMember (r : Record σ) (seen : List String) (a : σ) (s : List Char) :
    Reading (List String × σ) :=
  match readString .keep s with
  | .error f => .error f
  | .ok (cs, rest) =>
    let key := String.ofList cs
    match r.fields.find? fun f => f.name = key with
    | none =>
      match readColon rest with
      | .error f => .error f
      | .ok rest => (readValue .skip rest).map fun (_, behind) => ((seen, a), behind)
    | some field =>
      if seen.contains key then .error (.ofMismatch (.repeatedField key) (closeObject rest))
      else
        match readColon rest with
        | .error f => .error f
        | .ok rest => (field.read a rest).map fun (b, behind) => ((key :: seen, b), behind)

theorem length_lt_of_nextKey {first found : Bool} {s rest : List Char}
    (h : nextKey first s = .ok (found, rest)) : rest.length < s.length := by
  unfold nextKey at h
  split at h
  · simp at h
  · next hb =>
    have := length_lt_of_skipBlank hb
    split at h
    · simp only [Except.ok.injEq, Prod.mk.injEq] at h
      exact h.2 ▸ this
    · split at h
      · split at h
        · simp at h
        · next hd =>
          have := length_lt_of_skipBlank hd
          split at h
          · simp only [Except.ok.injEq, Prod.mk.injEq] at h
            rw [← h.2]
            omega
          · split at h <;> simp at h
      · split at h
        · simp at h
        · split at h
          · simp only [Except.ok.injEq, Prod.mk.injEq] at h
            exact h.2 ▸ this
          · simp at h

theorem length_lt_of_readColon {s rest : List Char} (h : readColon s = .ok rest) :
    rest.length < s.length := by
  unfold readColon at h
  split at h
  · simp at h
  · next hb =>
    split at h
    · simp only [Except.ok.injEq] at h
      exact h ▸ length_lt_of_skipBlank hb
    · simp at h

theorem length_lt_of_readMember {r : Record σ} {seen : List String} {a : σ}
    {s rest : List Char} {b : List String × σ} (h : r.readMember seen a s = .ok (b, rest)) :
    rest.length < s.length := by
  unfold readMember at h
  split at h
  · simp at h
  · next hs =>
    have h1 := length_lt_of_readString hs
    dsimp only at h
    split at h
    · split at h
      · simp at h
      · next tail hc =>
        have h2 := length_lt_of_readColon hc
        obtain ⟨⟨v, next⟩, hv, he⟩ := Except.map_eq_ok_iff.1 h
        cases he
        exact Nat.lt_trans (length_lt_of_readValue hv) (Nat.lt_trans h2 h1)
    · split at h
      · simp at h
      · split at h
        · simp at h
        · next field _ _ _ tail hc =>
          have h2 := length_lt_of_readColon hc
          obtain ⟨⟨v, next⟩, hv, he⟩ := Except.map_eq_ok_iff.1 h
          cases he
          exact Nat.lt_trans (field.forward hv) (Nat.lt_trans h2 h1)

def readMembers (r : Record σ) (seen : List String) (first : Bool) (a : σ) (s : List Char) :
    Reading σ :=
  match _hk : nextKey first s with
  | .error f => .error f
  | .ok (false, rest) => .ok (a, rest)
  | .ok (true, rest) =>
    match _hm : r.readMember seen a rest with
    | .error f => .error f
    | .ok ((seen', b), behind) => readMembers r seen' false b behind
termination_by s.length
decreasing_by exact Nat.lt_trans (length_lt_of_readMember _hm) (length_lt_of_nextKey _hk)

def nextItem (first : Bool) (s : List Char) : Reading Bool :=
  match skipBlank s with
  | [] => .error (.here .endInList [])
  | c :: rest =>
    if c = ']' then .ok (false, c :: rest)
    else if c = ',' && !first then
      match skipBlank rest with
      | [] => .error (.here .endInValue [])
      | d :: behind =>
        if d = ']' then .error (.peeked .trailingComma (d :: behind))
        else .ok (true, d :: behind)
    else if first then .ok (true, c :: rest)
    else .error (.peeked .expectedListComma (c :: rest))

def closeList (s : List Char) : Except Fault (List Char) :=
  match skipBlank s with
  | [] => .error (.here .endInList [])
  | c :: rest =>
    if c = ']' then .ok rest
    else if c = ',' then
      match skipBlank rest with
      | [] => .error (.peeked .trailingText [])
      | d :: behind =>
        if d = ']' then .error (.peeked .trailingComma (d :: behind))
        else .error (.peeked .trailingText (d :: behind))
    else .error (.peeked .trailingText (c :: rest))

def readItems (first : Bool) (a : σ) : List (Field σ) → List Char → Reading σ
  | [], s => (closeList s).map fun rest => (a, rest)
  | field :: fields, s =>
    match nextItem first s with
    | .error f => .error f
    | .ok (false, rest) => (closeList rest).map fun behind => (a, behind)
    | .ok (true, rest) =>
      match field.read a rest with
      | .error f => .error f
      | .ok (b, behind) => readItems false b fields behind

def read (r : Record σ) (a : σ) (s : List Char) : Reading σ :=
  match skipBlank s with
  | [] => .error (.here .endInValue [])
  | c :: rest =>
    if c = '[' then readItems true a r.fields rest
    else if c = '\x7b' then r.readMembers [] true a rest
    else .error (refuse r.expected (c :: rest))

theorem length_le_of_nextItem {first found : Bool} {s rest : List Char}
    (h : nextItem first s = .ok (found, rest)) : rest.length ≤ s.length := by
  unfold nextItem at h
  split at h
  · simp at h
  · next hb =>
    have := length_lt_of_skipBlank hb
    split at h
    · simp only [Except.ok.injEq, Prod.mk.injEq] at h
      rw [← h.2]
      exact this
    · split at h
      · split at h
        · simp at h
        · next hd =>
          have := length_lt_of_skipBlank hd
          split at h
          · simp at h
          · simp only [Except.ok.injEq, Prod.mk.injEq] at h
            rw [← h.2, List.length_cons]
            omega
      · split at h
        · simp only [Except.ok.injEq, Prod.mk.injEq] at h
          rw [← h.2]
          exact this
        · simp at h

theorem length_lt_of_closeList {s rest : List Char} (h : closeList s = .ok rest) :
    rest.length < s.length := by
  unfold closeList at h
  split at h
  · simp at h
  · next hb =>
    split at h
    · simp only [Except.ok.injEq] at h
      exact h ▸ length_lt_of_skipBlank hb
    · split at h
      · split at h
        · simp at h
        · split at h <;> simp at h
      · simp at h

theorem length_lt_of_readItems {fields : List (Field σ)} {first : Bool} {a b : σ}
    {s rest : List Char} (h : readItems first a fields s = .ok (b, rest)) :
    rest.length < s.length := by
  have close {tail : List Char} {c : σ}
      (hc : (closeList tail).map (fun r => (c, r)) = .ok (b, rest)) :
      rest.length < tail.length := by
    obtain ⟨r, hx, he⟩ := Except.map_eq_ok_iff.1 hc
    cases he
    exact length_lt_of_closeList hx
  induction fields generalizing first a s with
  | nil => exact close h
  | cons field fields ih =>
    rw [readItems] at h
    split at h
    · simp at h
    · next hn => exact Nat.lt_of_lt_of_le (close h) (length_le_of_nextItem hn)
    · next hn =>
      split at h
      · simp at h
      · next hr =>
        have := length_le_of_nextItem hn
        have := field.forward hr
        have := ih h
        omega

theorem length_lt_of_readMembers {r : Record σ} {seen : List String} {first : Bool} {a b : σ}
    {s rest : List Char} (h : r.readMembers seen first a s = .ok (b, rest)) :
    rest.length < s.length := by
  fun_induction readMembers r seen first a s with
  | case1 => simp at h
  | case2 _ _ _ _ _ hk =>
    simp only [Except.ok.injEq, Prod.mk.injEq] at h
    exact h.2 ▸ length_lt_of_nextKey hk
  | case3 => simp at h
  | case4 _ _ _ _ _ hk _ _ _ hm ih =>
    exact Nat.lt_trans (ih h)
      (Nat.lt_trans (length_lt_of_readMember hm) (length_lt_of_nextKey hk))

theorem length_lt_of_read {r : Record σ} {a b : σ} {s rest : List Char}
    (h : r.read a s = .ok (b, rest)) : rest.length < s.length := by
  unfold read at h
  split at h
  · simp at h
  · next hb =>
    have := length_lt_of_skipBlank hb
    split at h
    · exact Nat.lt_trans (length_lt_of_readItems h) this
    · split at h
      · exact Nat.lt_trans (length_lt_of_readMembers h) this
      · simp at h

end Record

def Field.ofRecord {σ τ : Type} (name : String) (record : Record τ) (get : σ → τ)
    (set : σ → τ → σ) : Field σ where
  name
  read a s := (record.read (get a) s).map fun (v, rest) => (set a v, rest)
  forward {a b s rest} h := by
    obtain ⟨⟨v, next⟩, hv, he⟩ := Except.map_eq_ok_iff.1 h
    cases he
    exact Record.length_lt_of_read hv

end Json
end ReflectionError
