import ReflectionError.Proofs.Json.Lookup
import ReflectionError.Proofs.Json.Members
import ReflectionError.Proofs.Json.Skip

/-!
# ReflectionError.Proofs.Json.Filling

Records straight from text against records from values. What an object is as a record can be said
without its text: its members are put into the record in turn.

* `Scheme.fill`: members put in turn. `exists_fill_iff`, when none is refused: each field is there
  once at most, and its value is one that it takes. `get_of_fill`: what comes out for one field.
* `Field.Updates`: what a field does with a text of a value. `Leaf.updates`, `Record.updates`: a
  field that is a leaf, and one that is a record itself.
* `readMembers_eq_ok_iff`, `read_eq_ok_iff`: a record is read from the text of an object if its
  members can be put in, with what comes out.
-/

namespace ReflectionError
namespace Json

/-! ## Members in turn -/

/-- What a record takes: the names of its fields, and how a value of one of them changes what is
there, if it is a value for that field. -/
structure Scheme (σ : Type) where
  names : List String
  update : String → Value → Option (σ → σ)

namespace Scheme

variable {σ α : Type} {z : Scheme σ}

/-- The members put into `a` in turn. Those of other names are passed over; a name that has been
there is refused. -/
def fill (z : Scheme σ) : List String → σ → List (String × Value) → Option σ
  | _, a, [] => some a
  | seen, a, (key, v) :: members =>
    if key ∈ z.names then
      if key ∈ seen then none
      else (z.update key v).bind fun f => fill z (key :: seen) (f a) members
    else fill z seen a members

/-- The value changes the field of that name. -/
def Takes (z : Scheme σ) (key : String) (v : Value) : Prop := ∃ f, z.update key v = some f

theorem takes_iff_isSome {key : String} {v : Value} :
    z.Takes key v ↔ (z.update key v).isSome = true :=
  Option.isSome_iff_exists.symm

/-- Nothing is refused if and only if each field comes once at most, with a value that it takes, and
not at all if it has been there. By induction on the members. -/
theorem exists_fill_iff {seen : List String} {a : σ} {members : List (String × Value)} :
    (∃ b, z.fill seen a members = some b) ↔
      ∀ key ∈ z.names, (key ∈ seen → key ∉ members.map Prod.fst) ∧
        Once members key (z.Takes key) := by
  induction members generalizing seen a with
  | nil => exact ⟨fun _ _ _ => ⟨fun _ => List.not_mem_nil, once_of_notMem List.not_mem_nil⟩,
      fun _ => ⟨a, rfl⟩⟩
  | cons m members ih =>
    obtain ⟨name, v⟩ := m
    rw [fill]
    split
    · next hname =>
      split
      · next hseen =>
        refine ⟨fun ⟨_, h⟩ => (nomatch h), fun h => ?_⟩
        exact absurd (List.mem_cons_self ..) ((h name hname).1 hseen)
      · next hseen =>
        cases hu : z.update name v with
        | none =>
          refine ⟨fun ⟨_, h⟩ => (nomatch h), fun h => ?_⟩
          obtain ⟨f, hf⟩ := (once_cons_self.1 (h name hname).2).2
          rw [hu] at hf
          cases hf
        | some f =>
          rw [Option.bind_some, ih]
          refine forall₂_congr fun key hkey => ?_
          by_cases hne : name = key
          · subst hne
            rw [once_cons_self]
            constructor
            · rintro ⟨hnot, -⟩
              exact ⟨fun h => absurd h hseen, hnot (List.mem_cons_self ..), f, hu⟩
            · rintro ⟨-, hnot, -⟩
              exact ⟨fun _ => hnot, once_of_notMem hnot⟩
          · rw [once_cons_of_ne hne]
            simp [Ne.symm hne]
    · next hname =>
      rw [ih]
      refine forall₂_congr fun key hkey => ?_
      have hne : name ≠ key := by
        rintro rfl
        exact hname hkey
      rw [once_cons_of_ne hne]
      simp [hne.symm]

/-- What comes out for one field is what its member makes of it, or what was there if it has none.
The members of other fields do not change it. -/
theorem get_of_fill (get : σ → α) {key : String} {seen : List String} {a b : σ}
    {members : List (String × Value)} (hkey : key ∈ z.names)
    (hother : ∀ name v f, name ≠ key → z.update name v = some f → ∀ c, get (f c) = get c)
    (h : z.fill seen a members = some b) :
    (lookup? members key = none ∧ get b = get a) ∨
      ∃ v f c, lookup? members key = some v ∧ z.update key v = some f ∧ get b = get (f c) := by
  induction members generalizing seen a with
  | nil =>
    cases h
    exact .inl ⟨rfl, rfl⟩
  | cons m members ih =>
    obtain ⟨name, v⟩ := m
    rw [lookup?_cons]
    rw [fill] at h
    split at h
    · next hname =>
      split at h
      · cases h
      · next hseen =>
        obtain ⟨f, hf, hfill⟩ := Option.bind_eq_some_iff.1 h
        by_cases hne : name = key
        · subst hne
          have hnot : name ∉ members.map Prod.fst :=
            (exists_fill_iff.1 ⟨b, hfill⟩ name hkey).1 (List.mem_cons_self ..)
          rw [lookup?_eq_none_iff.2 hnot, if_pos rfl, Option.none_or]
          rcases ih hfill with ⟨-, hb⟩ | ⟨w, g, c, hw, -⟩
          · exact .inr ⟨v, f, a, rfl, hf, hb⟩
          · rw [lookup?_eq_none_iff.2 hnot] at hw
            cases hw
        · rw [if_neg hne, Option.or_none, ← hother name v f hne hf a]
          exact ih hfill
    · next hname =>
      have hne : name ≠ key := by
        rintro rfl
        exact hname hkey
      rw [if_neg hne, Option.or_none]
      exact ih h

end Scheme

/-! ## Fields -/

section Fields

variable {σ τ α : Type}

/-- Reading the field from a text of `v` changes the record by what is given, if anything is. -/
def Field.Updates (field : Field σ) (v : Value) (f? : Option (σ → σ)) : Prop :=
  ∀ ⦃a : σ⦄ ⦃s t : List Char⦄ ⦃result : σ × List Char⦄, readValue .keep s = .ok (v, t) →
    (field.read a s = .ok result ↔ ∃ f, f? = some f ∧ result = (f a, t))

def Verdict.accepted? : Verdict α → Option α
  | .accepted a => some a
  | _ => none

/-- Lists and objects are not accepted. -/
structure Leaf.IsPlain (leaf : Leaf α) : Prop where
  array : ∀ items, (leaf.judge (.array items)).accepted? = none
  object : ∀ members, (leaf.judge (.object members)).accepted? = none

theorem map_set_eq_ok_iff {x : Reading α} {x? : Option α} {t : List Char}
    (h : ∀ one, x = .ok one ↔ ∃ y, x? = some y ∧ one = (y, t)) (set : σ → α → σ) (a : σ)
    {result : σ × List Char} :
    (x.map fun (y, rest) => (set a y, rest)) = .ok result ↔
      ∃ f, (x?.map fun y a => set a y) = some f ∧ result = (f a, t) := by
  rw [Except.map_eq_ok_iff]
  constructor
  · rintro ⟨one, hone, rfl⟩
    obtain ⟨y, hy, rfl⟩ := (h one).1 hone
    exact ⟨_, by rw [hy]; rfl, rfl⟩
  · rintro ⟨f, hf, rfl⟩
    obtain ⟨y, hy, rfl⟩ := Option.map_eq_some_iff.1 hf
    exact ⟨(y, t), (h _).2 ⟨y, hy, rfl⟩, rfl⟩

theorem Leaf.read_eq_ok_iff {leaf : Leaf α} (plain : leaf.IsPlain) {v : Value} {s t : List Char}
    {result : α × List Char} (h : readValue .keep s = .ok (v, t)) :
    leaf.read s = .ok result ↔ ∃ x, (leaf.judge v).accepted? = some x ∧ result = (x, t) := by
  cases readAs_of_readValue h with
  | array hs =>
    rw [plain.array]
    simp [Leaf.read, hs]
  | object hs =>
    rw [plain.object]
    simp [Leaf.read, hs]
  | scalar hs hlist hobject hv =>
    simp only [Leaf.read, hs, hlist, hobject, decide_false, Bool.or_false, hv]
    cases leaf.judge v with
    | accepted x => simp [Verdict.accepted?, eq_comm]
    | outOfRange => simp [Verdict.accepted?]
    | wrongType => simp [Verdict.accepted?]

theorem Leaf.updates {leaf : Leaf α} (plain : leaf.IsPlain) (name : String) (set : σ → α → σ)
    (v : Value) : (Field.ofLeaf name leaf set).Updates v
      ((leaf.judge v).accepted?.map fun x a => set a x) := by
  intro a s t result h
  exact map_set_eq_ok_iff (fun _ => read_eq_ok_iff plain h) set a

theorem Leaf.isPlain_boolean : Leaf.boolean.IsPlain := ⟨fun _ => rfl, fun _ => rfl⟩

theorem Leaf.isPlain_natural (limit : Nat) (expected : String) :
    (Leaf.natural limit expected).IsPlain :=
  ⟨fun _ => rfl, fun _ => rfl⟩

theorem Leaf.isPlain_optional_natural (limit : Nat) (expected : String) :
    (Leaf.natural limit expected).optional.IsPlain :=
  ⟨fun _ => rfl, fun _ => rfl⟩

/-! ### What leaves accept -/

theorem Leaf.accepted?_boolean {v : Value} {b : Bool} :
    (boolean.judge v).accepted? = some b ↔ v = .boolean b := by
  cases v with
  | boolean c => simp [boolean, Verdict.accepted?]
  | null | number _ | string _ | array _ | object _ => simp [boolean, Verdict.accepted?]

theorem Leaf.accepted?_natural {limit : Nat} {expected : String} {v : Value} {n : Nat} :
    ((natural limit expected).judge v).accepted? = some n ↔
      n ≤ limit ∧ v = .number (.integer n) := by
  cases v with
  | number m =>
    cases m with
    | integer i =>
      simp only [natural]
      split
      · next hi =>
        simp only [Bool.and_eq_true, decide_eq_true_eq] at hi
        simp only [Verdict.accepted?, Option.some.injEq, Value.number.injEq, Number.integer.injEq]
        omega
      · next hi =>
        simp only [Bool.and_eq_true, decide_eq_true_eq] at hi
        simp only [Verdict.accepted?, reduceCtorEq, Value.number.injEq, Number.integer.injEq,
          false_iff]
        omega
    | float x => simp [natural, Verdict.accepted?]
  | null | boolean _ | string _ | array _ | object _ => simp [natural, Verdict.accepted?]

theorem Leaf.accepted?_optional {α : Type} (leaf : Leaf α) {v : Value} (hv : v ≠ .null) :
    (leaf.optional.judge v).accepted? = (leaf.judge v).accepted?.map some := by
  have hjudge : leaf.optional.judge v = (leaf.judge v).map some := by
    cases v with
    | null => exact absurd rfl hv
    | boolean _ | number _ | string _ | array _ | object _ => rfl
  rw [hjudge]
  cases leaf.judge v with
  | accepted a => rfl
  | outOfRange => rfl
  | wrongType => rfl

theorem Leaf.accepted?_optional_natural {limit : Nat} {expected : String} {v : Value}
    {n? : Option Nat} :
    ((natural limit expected).optional.judge v).accepted? = some n? ↔
      (v = .null ∧ n? = none) ∨ ∃ n ≤ limit, v = .number (.integer n) ∧ n? = some n := by
  by_cases hv : v = .null
  · subst hv
    simp [optional, Verdict.accepted?, eq_comm]
  · rw [accepted?_optional _ hv, Option.map_eq_some_iff]
    simp only [accepted?_natural, hv, false_and, false_or, and_assoc, eq_comm (a := n?)]

end Fields

/-! ## Records -/

namespace Record

variable {σ τ : Type} {r : Record σ} {z : Scheme σ}

/-- The fields of the record are those of the scheme, and do what it says with the members. -/
structure Follows (r : Record σ) (z : Scheme σ) (members : List (String × Value)) : Prop where
  names : r.fields.map Field.name = z.names
  updates : ∀ m ∈ members, ∀ field ∈ r.fields, field.name = m.1 →
    field.Updates m.2 (z.update m.1 m.2)

theorem Follows.tail {m : String × Value} {members : List (String × Value)}
    (h : r.Follows z (m :: members)) : r.Follows z members :=
  ⟨h.names, fun m' hm => h.updates m' (List.mem_cons_of_mem m hm)⟩

theorem find?_fields_cases (r : Record σ) (key : String) :
    (key ∉ r.fields.map Field.name ∧ (r.fields.find? fun f => f.name = key) = none) ∨
      ∃ field ∈ r.fields, field.name = key ∧
        (r.fields.find? fun f => f.name = key) = some field := by
  cases h : r.fields.find? fun f => f.name = key with
  | none =>
    refine .inl ⟨fun hmem => ?_, rfl⟩
    obtain ⟨field, hfield, hname⟩ := List.mem_map.1 hmem
    exact List.find?_eq_none.1 h field hfield (decide_eq_true hname)
  | some field =>
    have hname : field.name = key := by simpa using List.find?_some h
    exact .inr ⟨field, List.mem_of_find?_eq_some h, hname, rfl⟩

theorem readColon_of_readKey {s rest : List Char} {key : String}
    (h : readKey .keep s = .ok (key, rest)) :
    ∃ cs behind, readString .keep s = .ok (cs, behind) ∧ String.ofList cs = key ∧
      readColon behind = .ok rest := by
  unfold readKey at h
  split at h
  · cases h
  · next cs behind hs =>
    split at h
    · cases h
    · next c tail hb =>
      split at h
      · next hc =>
        cases h
        exact ⟨cs, behind, hs, rfl, by rw [readColon, hb]; exact if_pos hc⟩
      · cases h

section Member

variable {seen : List String} {a : σ} {key : String} {v : Value} {s atValue behind : List Char}
  (hkey : readKey .keep s = .ok (key, atValue)) (hv : readValue .keep atValue = .ok (v, behind))
include hkey hv

theorem readMember_of_other (hother : key ∉ r.fields.map Field.name) :
    r.readMember seen a s = .ok ((seen, a), behind) := by
  obtain ⟨cs, tail, hs, rfl, hcolon⟩ := readColon_of_readKey hkey
  obtain ⟨w, hw⟩ := readValue_skip hv
  rcases r.find?_fields_cases (String.ofList cs) with ⟨-, hfind⟩ | ⟨field, hfield, hname, -⟩
  · simp only [readMember, hs, hfind, hcolon, hw]
    rfl
  · exact absurd (List.mem_map.2 ⟨field, hfield, hname⟩) hother

theorem readMember_eq_ok_iff {f? : Option (σ → σ)} {result : (List String × σ) × List Char}
    (hname : key ∈ r.fields.map Field.name)
    (hupdates : ∀ field ∈ r.fields, field.name = key → field.Updates v f?) :
    r.readMember seen a s = .ok result ↔
      key ∉ seen ∧ ∃ f, f? = some f ∧ result = ((key :: seen, f a), behind) := by
  obtain ⟨cs, tail, hs, rfl, hcolon⟩ := readColon_of_readKey hkey
  rcases r.find?_fields_cases (String.ofList cs) with ⟨hnot, -⟩ | ⟨field, hfield, hname', hfind⟩
  · exact absurd hname hnot
  · simp only [readMember, hs, hfind, hcolon, List.contains_eq_mem, decide_eq_true_eq]
    by_cases hseen : String.ofList cs ∈ seen
    · simp [hseen]
    · rw [if_neg hseen, Except.map_eq_ok_iff, and_iff_right hseen]
      have hread ⦃one : σ × List Char⦄ := @hupdates field hfield hname' a atValue behind one hv
      constructor
      · rintro ⟨⟨b, t⟩, hb, rfl⟩
        obtain ⟨f, hf, he⟩ := hread.1 hb
        cases he
        exact ⟨f, hf, rfl⟩
      · rintro ⟨f, hf, rfl⟩
        exact ⟨(f a, behind), hread.2 ⟨f, hf, rfl⟩, rfl⟩

end Member

theorem readMembers_of_close {seen : List String} {first : Bool} {a : σ} {s rest : List Char}
    (h : nextKey first s = .ok (false, rest)) :
    r.readMembers seen first a s = .ok (a, rest) := by
  rw [readMembers]
  split
  · next hk => rw [h] at hk; cases hk
  · next hk => rw [h] at hk; cases hk; rfl
  · next hk => rw [h] at hk; cases hk

theorem readMembers_of_key {seen : List String} {first : Bool} {a : σ} {s atKey : List Char}
    (h : nextKey first s = .ok (true, atKey)) :
    r.readMembers seen first a s = (match r.readMember seen a atKey with
      | .error f => .error f
      | .ok ((seen', b), behind) => r.readMembers seen' false b behind) := by
  rw [readMembers]
  split
  · next hk => rw [h] at hk; cases hk
  · next hk => rw [h] at hk; cases hk
  · next hk =>
    rw [h] at hk
    cases hk
    split
    · next hm => rw [hm]
    · next hm => rw [hm]

/-- The members of an object are read as they are put in. By induction on the members. -/
theorem readMembers_eq_ok_iff {seen : List String} {first : Bool} {a : σ} {s rest : List Char}
    {members : List (String × Value)} {result : σ × List Char}
    (hs : HasMembers first s members rest) (follows : r.Follows z members) :
    r.readMembers seen first a s = .ok result ↔
      ∃ b, z.fill seen a members = some b ∧ result = (b, rest) := by
  induction hs generalizing seen a with
  | close hk =>
    rw [readMembers_of_close hk]
    simp [Scheme.fill, eq_comm]
  | @member first s atKey atValue behind rest key v members hk hkey hv hs ih =>
    rw [readMembers_of_key hk, Scheme.fill]
    by_cases hname : key ∈ z.names
    · rw [if_pos hname]
      have hfield : key ∈ r.fields.map Field.name := follows.names ▸ hname
      have hone {one : (List String × σ) × List Char} : r.readMember seen a atKey = .ok one ↔
          key ∉ seen ∧ ∃ f, z.update key v = some f ∧ one = ((key :: seen, f a), behind) :=
        readMember_eq_ok_iff hkey hv hfield (follows.updates (key, v) (List.mem_cons_self ..))
      cases hm : r.readMember seen a atKey with
      | error f =>
        refine ⟨fun h => (nomatch h), ?_⟩
        rintro ⟨b, hb, -⟩
        split at hb
        · cases hb
        · next hseen =>
          obtain ⟨f, hf, -⟩ := Option.bind_eq_some_iff.1 hb
          rw [hone.2 ⟨hseen, f, hf, rfl⟩] at hm
          cases hm
      | ok one =>
        obtain ⟨hseen, f, hf, rfl⟩ := hone.1 hm
        rw [if_neg hseen, hf, Option.bind_some]
        exact ih follows.tail
    · rw [if_neg hname, readMember_of_other hkey hv (follows.names ▸ hname)]
      exact ih follows.tail

theorem read_eq_ok_iff {a : σ} {s t : List Char} {members : List (String × Value)}
    {result : σ × List Char} (h : readValue .keep s = .ok (.object members, t))
    (follows : r.Follows z members) :
    r.read a s = .ok result ↔ ∃ b, z.fill [] a members = some b ∧ result = (b, t) := by
  cases readAs_of_readValue h with
  | scalar _ _ _ hv => cases isScalar_of_readScalar hv
  | object hs hmembers =>
    rw [read, hs]
    exact readMembers_eq_ok_iff hmembers follows

theorem updates {σ τ : Type} {inner : Record τ} {z : Scheme τ} (name : String) (start : τ)
    (set : σ → τ → σ) {members : List (String × Value)} (follows : inner.Follows z members) :
    (Field.ofRecord name inner (fun _ => start) set).Updates (.object members)
      ((z.fill [] start members).map fun x a => set a x) := by
  intro a s t result h
  exact map_set_eq_ok_iff (fun _ => read_eq_ok_iff h follows) set a

end Record

end Json
end ReflectionError
