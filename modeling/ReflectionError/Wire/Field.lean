import ReflectionError.Except
import ReflectionError.Options
import ReflectionError.Wire.Cursor

/-!
# ReflectionError.Wire.Field

Fields: a key and the value that its wire type announces. The value of a group is all that stands up
to the end key of the same number. `closeGroups` follows nested groups, one step of `passInner` at a
time, with the numbers of the open ones on a stack; `splitFields` cuts a payload into its fields. A
field that is read takes at least one byte: `rest_lt_of_readField`.
-/

namespace ReflectionError

/-- A field as it stands in a payload: the place of its key, all its bytes, and how many of them are
the key. -/
structure RawField where
  key : Key
  offset : Nat
  bytes : List UInt8
  keyLength : Nat
  deriving DecidableEq

def RawField.payload (field : RawField) : List UInt8 := field.bytes.drop field.keyLength

namespace Cursor

/-- Passes a value that is no group and closes none. -/
def skipPlain (c : Cursor) : WireType → Except Failure Cursor
  | .varint => c.readVarint.map Prod.snd
  | .fixed64 => (c.readBytes 8).map Prod.snd
  | .fixed32 => (c.readBytes 4).map Prod.snd
  | .lengthDelimited => c.readLengthDelimited.map Prod.snd
  | .startGroup => .ok c
  | .endGroup => .ok c

theorem rest_le_of_skipPlain {c d : Cursor} {wireType : WireType}
    (h : c.skipPlain wireType = .ok d) : d.rest.length ≤ c.rest.length := by
  cases wireType with
  | varint =>
    obtain ⟨⟨value, next⟩, hr, rfl⟩ := Except.map_eq_ok_iff.1 h
    exact Nat.le_of_lt (rest_lt_of_readVarint hr)
  | fixed64 =>
    obtain ⟨⟨bytes, next⟩, hr, rfl⟩ := Except.map_eq_ok_iff.1 h
    exact rest_le_of_readBytes hr
  | lengthDelimited =>
    obtain ⟨⟨bytes, next⟩, hr, rfl⟩ := Except.map_eq_ok_iff.1 h
    exact Nat.le_of_lt (rest_lt_of_readLengthDelimited hr)
  | startGroup => cases h; exact Nat.le_refl _
  | endGroup => cases h; exact Nat.le_refl _
  | fixed32 =>
    obtain ⟨⟨bytes, next⟩, hr, rfl⟩ := Except.map_eq_ok_iff.1 h
    exact rest_le_of_readBytes hr

/-- Passes what comes next inside open groups, of which `number` is the innermost: the groups that
are open behind it, and the place there. An end key closes the innermost group, a start key opens
another one unless `limit` groups are open. -/
def passInner (limit number : Nat) (outer : List Nat) (c : Cursor) : Read (List Nat) :=
  match c.readKey with
  | .error failure => .error failure
  | .ok (key, behind) =>
    match key.wireType with
    | .endGroup =>
      if key.number = number then .ok (outer, behind)
      else .error ⟨.unexpectedEndGroup c.offset key.number, behind⟩
    | .startGroup =>
      if outer.length + 1 < limit then .ok (key.number :: number :: outer, behind)
      else .error ⟨.recursionLimitExceeded limit, behind⟩
    | plain => (behind.skipPlain plain).map fun next => (number :: outer, next)

theorem rest_lt_of_passInner {limit number : Nat} {outer opened : List Nat} {c d : Cursor}
    (h : c.passInner limit number outer = .ok (opened, d)) : d.rest.length < c.rest.length := by
  unfold passInner at h
  split at h
  · simp at h
  · next key behind hk =>
    have hlt := rest_lt_of_readKey hk
    split at h
    · split at h
      · simp only [Except.ok.injEq, Prod.mk.injEq] at h
        exact h.2 ▸ hlt
      · simp at h
    · split at h
      · simp only [Except.ok.injEq, Prod.mk.injEq] at h
        exact h.2 ▸ hlt
      · simp at h
    · obtain ⟨next, hs, he⟩ := Except.map_eq_ok_iff.1 h
      cases he
      exact Nat.lt_of_le_of_lt (rest_le_of_skipPlain hs) hlt

/-- Passes everything up to the end keys of the open groups, the innermost of which comes first. -/
def closeGroups (limit : Nat) (opened : List Nat) (c : Cursor) : Except Failure Cursor :=
  match opened with
  | [] => .ok c
  | number :: outer =>
    match _h : c.passInner limit number outer with
    | .error failure => .error failure
    | .ok (opened, next) => closeGroups limit opened next
termination_by c.rest.length
decreasing_by exact rest_lt_of_passInner _h

/-- Passes the value behind `key`. An end key has no value and opens nothing that it could close. -/
def skipValue (c : Cursor) (key : Key) (limit : Nat) : Except Failure Cursor :=
  match key.wireType with
  | .startGroup =>
    if min limit maxNesting = 0 then .error ⟨.recursionLimitExceeded 0, c⟩
    else c.closeGroups (min limit maxNesting) [key.number]
  | .endGroup => .error ⟨.unexpectedEndGroup c.offset key.number, c⟩
  | plain => c.skipPlain plain

def readField (c : Cursor) (limit : Nat) : Read RawField :=
  match c.readKey with
  | .error failure => .error failure
  | .ok (key, behind) =>
    match behind.skipValue key limit with
    | .error failure => .error failure
    | .ok next => .ok (⟨key, c.offset, c.upTo next, behind.offset - c.offset⟩, next)

theorem rest_le_of_closeGroups {limit : Nat} {opened : List Nat} {c d : Cursor}
    (h : c.closeGroups limit opened = .ok d) : d.rest.length ≤ c.rest.length := by
  fun_induction closeGroups limit opened c with
  | case1 => simp only [Except.ok.injEq] at h; exact h ▸ Nat.le_refl _
  | case2 => simp at h
  | case3 _ _ _ _ _ hp ih => exact Nat.le_trans (ih h) (Nat.le_of_lt (rest_lt_of_passInner hp))

theorem rest_le_of_skipValue {c d : Cursor} {key : Key} {limit : Nat}
    (h : c.skipValue key limit = .ok d) : d.rest.length ≤ c.rest.length := by
  unfold skipValue at h
  split at h
  · split at h
    · simp at h
    · exact rest_le_of_closeGroups h
  · simp at h
  · exact rest_le_of_skipPlain h

theorem rest_lt_of_readField {c d : Cursor} {limit : Nat} {field : RawField}
    (h : c.readField limit = .ok (field, d)) : d.rest.length < c.rest.length := by
  unfold readField at h
  split at h
  · simp at h
  · next hk =>
    split at h
    · simp at h
    · next hs =>
      simp only [Except.ok.injEq, Prod.mk.injEq] at h
      rw [← h.2]
      exact Nat.lt_of_le_of_lt (rest_le_of_skipValue hs) (rest_lt_of_readKey hk)

def nextField (c : Cursor) (limit : Nat) : Read (Option RawField) :=
  if c.rest = [] then .ok (none, c)
  else (c.readField limit).map fun (field, next) => (some field, next)

/-- The complete fields from `c` on, and what ended the reading if it was not the end of the
payload. -/
def splitFields (limit : Nat) (c : Cursor) : List RawField × Option DecodeError :=
  if c.rest = [] then ([], none)
  else match _hr : c.readField limit with
    | .error failure => ([], some failure.error)
    | .ok (field, next) =>
      let (fields, stop) := splitFields limit next
      (field :: fields, stop)
termination_by c.rest.length
decreasing_by exact rest_lt_of_readField _hr

end Cursor

def readFields (payload : List UInt8) (o : Options) : Except DecodeError (List RawField) :=
  match o.checkSize payload.length with
  | .error e => .error e
  | .ok () =>
    match (Cursor.start payload).splitFields o.nestingLimit with
    | (fields, none) => .ok fields
    | (_, some e) => .error e

end ReflectionError
