import ReflectionError.Proofs.Reply.Fields
import ReflectionError.Proofs.Wire.Reader

/-!
# ReflectionError.Proofs.Reply.Resources

Time and room for whole payloads. The loops that cut a payload into fields and read a reply from it
end, whatever the payload holds: each round takes two bytes at least, so a round for each byte and
one more are enough. And of the loops for groups, no more are ever open inside each other than the
nesting limit allows, which is never more than `maxNesting`.

* `gives_collectFields`, `yields_decodeField`, `gives_decodeFields`: the two loops on a machine.
* `two_le_of_field`, `two_le_of_round`: how far a field takes a reader, and a round inside a group.
* `two_mul_length_le_of_readFields`: a payload has half as many fields as bytes at most.
* `readInBounds`: time and room that are enough for any payload and any limit.
-/

namespace ReflectionError
namespace Machine

/-- The fields up to the end of the payload. -/
def collectFields : (time room limit : Nat) → Code (List RawField)
  | 0, _, _ => stop .outOfTime
  | time + 1, room, limit => do
    match ← nextField time room limit with
    | none => return []
    | some f => (f :: ·) <$> collectFields time room limit

def readFields (time room : Nat) (o : Options) : Code (List RawField) := do
  match o.checkSize (← get).buffer.length with
  | .error e => throw e
  | .ok () => collectFields time room o.nestingLimit

/-- Reads one field into a reply. -/
def decodeField (time room : Nat) (o : Options) (r : Reply) : Code Reply := do
  let offset ← position
  let key ← readKey
  let keyLength ← sub (← position) offset
  if key = ⟨Reply.codeField, .varint⟩ then
    return { r with code := Reply.codeOfValue (← readVarint) }
  else if key = ⟨Reply.textField, .lengthDelimited⟩ then
    match Reply.decodeText o (← readLengthDelimited) with
    | .error e => throw e
    | .ok text => return { r with text }
  else
    skipValue time room key o.nestingLimit
    return r.appendUnknown [⟨key.number, key.wireType, keyLength, ← consumedSince offset⟩]

def decodeFields : (time room : Nat) → Options → Reply → Code Reply
  | 0, _, _, _ => stop .outOfTime
  | time + 1, room, o, r => do
    if (← remaining) = 0 then return r
    else decodeFields time room o (← decodeField time room o r)

/-! ## Results without the place of a failure -/

/-- From `c` on, the machine gives `x` and does not stop. Where it fails, the place is left open. -/
def Yields {α : Type} (buffer : List UInt8) (code : Code α) (c : Cursor)
    (x : Except DecodeError (α × Cursor)) : Prop :=
  ∃ y : Read α, Performs buffer code c y ∧ y.mapError Failure.error = x

/-- From `c` on, the machine gives `x` and does not stop. Where it ends is left open. -/
def Gives {α : Type} (buffer : List UInt8) (code : Code α) (c : Cursor)
    (x : Except DecodeError α) : Prop :=
  ∃ y : Except DecodeError (α × Cursor), Yields buffer code c y ∧ y.map Prod.fst = x

section Results

variable {α β : Type} {buffer : List UInt8} {code : Code α} {k : α → Code β} {a : α} {c d : Cursor}

theorem Performs.yields {x : Read α} (h : Performs buffer code c x) :
    Yields buffer code c (x.mapError Failure.error) :=
  ⟨x, h, rfl⟩

namespace Yields

variable {y : Except DecodeError (β × Cursor)}

theorem pure (a : α) : Yields buffer (pure a) c (.ok (a, c)) := (Performs.pure a).yields

theorem throw (e : DecodeError) : Yields (α := α) buffer (throw e) c (.error e) :=
  (Performs.throw e).yields

theorem bind (h : Performs buffer code c (.ok (a, d))) (hk : Yields buffer (k a) d y) :
    Yields buffer (code >>= k) c y := by
  obtain ⟨z, hz, he⟩ := hk
  exact ⟨z, h.bind hz, he⟩

theorem andThen {x : Read α} (h : Performs buffer code c x)
    (hfails : ∀ failure, x = .error failure → y = .error failure.error)
    (hk : ∀ a d, x = .ok (a, d) → Yields buffer (k a) d y) :
    Yields buffer (code >>= k) c y := by
  cases x with
  | error failure =>
    rw [hfails failure rfl]
    exact ⟨_, h.fails, rfl⟩
  | ok p => exact bind h (hk p.1 p.2 rfl)

end Yields

namespace Gives

theorem run_eq {x : Except DecodeError α} (h : Gives buffer code c x) :
    (run code ⟨buffer, c.offset⟩).map Prod.fst = .ok x := by
  obtain ⟨_, ⟨z, hz, rfl⟩, rfl⟩ := h
  unfold Performs at hz
  rw [hz]
  cases z <;> rfl

theorem pure (a : α) : Gives buffer (pure a) c (.ok a) := ⟨_, .pure a, rfl⟩

theorem throw (e : DecodeError) : Gives (α := α) buffer (throw e) c (.error e) := ⟨_, .throw e, rfl⟩

theorem map {x : Except DecodeError α} (h : Gives buffer code c x) (f : α → β) :
    Gives buffer (f <$> code) c (x.map f) := by
  obtain ⟨_, ⟨z, hz, rfl⟩, rfl⟩ := h
  refine ⟨_, (hz.map f).yields, ?_⟩
  cases z <;> rfl

variable {y : Except DecodeError β}

theorem bind (h : Performs buffer code c (.ok (a, d))) (hk : Gives buffer (k a) d y) :
    Gives buffer (code >>= k) c y := by
  obtain ⟨z, hz, he⟩ := hk
  exact ⟨z, .bind h hz, he⟩

theorem andThen {x : Except DecodeError (α × Cursor)} (h : Yields buffer code c x)
    (hfails : ∀ e, x = .error e → y = .error e)
    (hk : ∀ a d, x = .ok (a, d) → Gives buffer (k a) d y) : Gives buffer (code >>= k) c y := by
  obtain ⟨z, hz, rfl⟩ := h
  cases z with
  | error failure =>
    rw [hfails failure.error rfl]
    exact ⟨_, ⟨_, hz.fails, rfl⟩, rfl⟩
  | ok p => exact bind hz (hk p.1 p.2 rfl)

end Gives

end Results

/-! ## Loops over a payload -/

/-- The fields, if nothing stopped the reading. -/
def complete : List RawField × Option DecodeError → Except DecodeError (List RawField)
  | (fields, none) => .ok fields
  | (_, some e) => .error e

theorem complete_cons (f : RawField) (p : List RawField × Option DecodeError) :
    complete (f :: p.1, p.2) = (complete p).map (f :: ·) := by
  obtain ⟨fields, _ | e⟩ := p
  · rfl
  · rfl

section Loops

variable {buffer : List UInt8} {c : Cursor} {o : Options} {room : Nat}
  (hb : buffer.length < UInt64.size)
include hb

/-- By induction on the time. A field takes from the bytes that are left, so the time lasts. -/
theorem gives_collectFields {time limit : Nat} (hc : c.IsIn buffer) (ht : c.rest.length < time)
    (hr : min limit maxNesting ≤ room) :
    Gives buffer (collectFields time room limit) c (complete (c.splitFields limit)) := by
  induction time generalizing c with
  | zero => omega
  | succ time ih =>
    rw [collectFields, Cursor.splitFields_eq_nextField]
    refine .andThen (performs_nextField hb hc hr (Nat.le_of_lt_succ ht)).yields (fun e he => ?_) ?_
    · obtain ⟨failure, hf, rfl⟩ := Except.mapError_eq_error_iff.1 he
      rw [hf]
      rfl
    · intro found d hn
      replace hn := Except.mapError_eq_ok_iff.1 hn
      rw [hn]
      cases found with
      | none => exact .pure []
      | some f =>
        have hf := Cursor.nextField_eq_ok_iff.1 hn
        have hlt := Cursor.rest_lt_of_readField hf
        obtain ⟨_, _, hp⟩ := Cursor.readField_eq_ok_iff.1 hf
        simp only [complete_cons]
        exact (ih (hc.of_passes hp) (by omega)).map _

theorem gives_readFields {time : Nat} (ht : buffer.length < time)
    (hr : min o.nestingLimit maxNesting ≤ room) :
    Gives buffer (readFields time room o) (.start buffer)
      (ReflectionError.readFields buffer o) := by
  rw [readFields, ReflectionError.readFields]
  refine .bind .get ?_
  simp only
  cases o.checkSize buffer.length with
  | error e => exact .throw e
  | ok u => exact gives_collectFields hb (Cursor.isIn_start buffer) ht hr

theorem yields_decodeField {time : Nat} (hc : c.IsIn buffer) (ht : c.rest.length ≤ time)
    (hr : min o.nestingLimit maxNesting ≤ room) (r : Reply) :
    Yields buffer (decodeField time room o r) c (Reply.decodeField o r c) := by
  rw [decodeField, Reply.decodeField]
  refine .bind .position (.andThen (performs_readKey hb hc) (fun _ he => by rw [he]) ?_)
  intro key behind hk
  obtain ⟨header, _, hp⟩ := Cursor.readKey_eq_ok_iff.1 hk
  have hin := hc.of_passes hp
  have hlt : behind.rest.length < time := Nat.lt_of_lt_of_le (Cursor.rest_lt_of_readKey hk) ht
  simp only [hk]
  refine .bind .position (.bind (.sub hp.offset_le) ?_)
  split
  · refine .andThen (performs_readVarint hb hin) (fun _ he => by rw [he]) fun value d hv => ?_
    rw [hv]
    exact .pure _
  · split
    · refine .andThen (performs_readLengthDelimited hb hin) (fun _ he => by rw [he]) ?_
      intro content d hv
      rw [hv]
      simp only
      cases Reply.decodeText o content with
      | error e => exact .throw e
      | ok text => exact .pure _
    · refine .andThen (performs_skipValue hb hin hr hlt key) (fun failure he => ?_) ?_
      · rw [Except.map_eq_error_iff.1 he]
      · intro u d he
        obtain ⟨d, hs, he⟩ := Except.map_eq_ok_iff.1 he
        cases he
        obtain ⟨_, value, _, _, hq⟩ := Cursor.skipValue_eq_ok_iff.1 hs
        rw [hs]
        exact .bind (performs_consumedSince hc (hp.trans hq)) (.pure _)

omit hb in
theorem passes_of_decodeField {r s : Reply} {d : Cursor}
    (h : Reply.decodeField o r c = .ok (s, d)) : ∃ bytes, c.Passes bytes d := by
  rw [Reply.decodeField_eq] at h
  split at h
  · cases h
  · next f next hf =>
    obtain ⟨_, _, he⟩ := Except.map_eq_ok_iff.1 h
    cases he
    exact ⟨f.bytes, (Cursor.readField_eq_ok_iff.1 hf).2.2⟩

theorem gives_decodeFields {time : Nat} {r : Reply} (hc : c.IsIn buffer)
    (ht : c.rest.length < time) (hr : min o.nestingLimit maxNesting ≤ room) :
    Gives buffer (decodeFields time room o r) c (Reply.decodeFields o r c) := by
  induction time generalizing c r with
  | zero => omega
  | succ time ih =>
    rw [decodeFields]
    refine .bind (performs_remaining hc) ?_
    by_cases hn : c.rest = []
    · rw [if_pos (List.length_eq_zero_iff.2 hn), Reply.decodeFields, if_pos hn]
      exact .pure r
    · rw [if_neg (mt List.length_eq_zero_iff.1 hn)]
      have hfield := yields_decodeField hb hc (Nat.le_of_lt_succ ht) hr r
      refine .andThen hfield (fun _ he => Reply.decodeFields_of_error hn he) fun s d hd => ?_
      have hlt := Reply.rest_lt_of_decodeField hd
      obtain ⟨bytes, hp⟩ := passes_of_decodeField hd
      rw [Reply.decodeFields_of_ok hn hd]
      exact ih (hc.of_passes hp) (by omega)

end Loops

/-! ## How far a round goes -/

theorem two_le_of_field {r l : Reader} {limit : Nat} {f : RawField}
    (h : r.step (.field limit) = (.ok (.field f), l)) : r.position + 2 ≤ l.position := by
  obtain ⟨d, hd, rfl⟩ := Reader.step_eq_ok h
  obtain ⟨bytes, ht, hp⟩ := Reader.takes_of_answer hd
  cases ht with
  | field _ hf =>
    rw [hp.2]
    exact Nat.add_le_add_left hf.two_le_length _

/-- A round that does not end its group. Time and room for the groups in it were enough if it is
completed, so it may as well have had what is enough for any. -/
theorem two_le_of_round {r l : Reader} (hb : r.buffer.length < UInt64.size)
    (hr : r.position ≤ r.buffer.length) {time room number depth : Nat}
    (h : run (round (skipValue time room) number depth) r = .ok (.ok false, l)) :
    r.position + 2 ≤ l.position := by
  have hc := Reader.isIn_cursor hr
  have hround : Performs r.buffer
      (round (skipValue (max time r.cursor.rest.length) (max room maxNesting)) number depth)
      r.cursor (r.cursor.passRound number depth) := by
    refine performs_round hb hc fun key behind hk => ?_
    obtain ⟨header, _, hp⟩ := Cursor.readKey_eq_ok_iff.1 hk
    have hlt := Cursor.rest_lt_of_readKey hk
    exact performs_skipValue hb (hc.of_passes hp) (by omega) (by omega) key
  have hmore := within_round (within_skipValue (Nat.le_max_left time r.cursor.rest.length)
    (Nat.le_max_left room maxNesting)) number depth r _ h
  have houtcome := hround.symm.trans hmore
  cases hp : r.cursor.passRound number depth with
  | error failure =>
    rw [hp] at houtcome
    cases houtcome
  | ok p =>
    obtain ⟨ended, d⟩ := p
    rw [hp] at houtcome
    cases houtcome
    exact Cursor.two_le_of_passRound hp

theorem two_mul_length_le {limit : Nat} {fields : List RawField}
    (h : ∀ f ∈ fields, Grammar.IsField limit f.key f.keyLength f.bytes) :
    2 * fields.length ≤ (fields.flatMap RawField.bytes).length := by
  induction fields with
  | nil => exact Nat.le_refl 0
  | cons f fields ih =>
    have hf := (h f (List.mem_cons_self ..)).two_le_length
    have hrest := ih fun g hg => h g (List.mem_cons_of_mem _ hg)
    rw [List.flatMap_cons, List.length_append, List.length_cons]
    omega

theorem two_mul_length_le_of_readFields {payload : List UInt8} {o : Options}
    {fields : List RawField} (h : ReflectionError.readFields payload o = .ok fields) :
    2 * fields.length ≤ payload.length := by
  obtain ⟨hb, _, hf⟩ := Cursor.splitFields_eq_iff.1 (readFields_eq_ok_iff.1 h).2
  have hle := two_mul_length_le hf
  rw [hb] at hle
  exact hle

/-- The payload is read in bounds, whatever the limits are. Each loop ends within a round for each
byte and one more, and of the loops for groups no more than `min limit maxNesting` are open inside
each other. Each field takes two bytes at least, and so does each round that does not end its
group. -/
structure ReadInBounds (payload : List UInt8) : Prop where
  readFields_ends : ∀ o, (run (readFields (payload.length + 1) (min o.nestingLimit maxNesting) o)
    (.ofBuffer payload)).map Prod.fst = .ok (ReflectionError.readFields payload o)
  decodeFields_ends : ∀ o r,
    (run (decodeFields (payload.length + 1) (min o.nestingLimit maxNesting) o r)
      (.ofBuffer payload)).map Prod.fst = .ok (Reply.decodeFields o r (.start payload))
  step_ends : ∀ position ≤ payload.length, ∀ s,
    run (step (payload.length + 1) (roomFor s) s) ⟨payload, position⟩ =
      .ok (Reader.step ⟨payload, position⟩ s)
  open_groups : ∀ limit number c opened d, 0 < min limit maxNesting →
    Cursor.ComesBy (min limit maxNesting) [number] c opened d →
      c.closeGroups (min limit maxNesting) [number] =
          d.closeGroups (min limit maxNesting) opened ∧
        opened.length ≤ min limit maxNesting
  field_forward : ∀ position limit f l,
    Reader.step ⟨payload, position⟩ (.field limit) = (.ok (.field f), l) → position + 2 ≤ l.position
  round_forward : ∀ position ≤ payload.length, ∀ time room number depth l,
    run (round (skipValue time room) number depth) ⟨payload, position⟩ = .ok (.ok false, l) →
      position + 2 ≤ l.position
  few_fields : ∀ o fields, ReflectionError.readFields payload o = .ok fields →
    2 * fields.length ≤ payload.length

/-- Any payload that a machine can hold. -/
theorem readInBounds (payload : List UInt8) (hb : payload.length < UInt64.size) :
    ReadInBounds payload where
  readFields_ends o := (gives_readFields hb (Nat.lt_succ_self _) (Nat.le_refl _)).run_eq
  decodeFields_ends o r := by
    have hc := Cursor.isIn_start payload
    exact (gives_decodeFields hb hc (Nat.lt_succ_self _) (Nat.le_refl _)).run_eq
  step_ends position hp s := Reader.run_step (r := ⟨payload, position⟩) hp hb (Nat.le_refl _)
  open_groups limit number c opened d hl h := ⟨h.closeGroups_eq, h.length_le hl⟩
  field_forward position limit f l h := two_le_of_field h
  round_forward position hp time room number depth l h :=
    two_le_of_round (r := ⟨payload, position⟩) hb hp h
  few_fields o fields h := two_mul_length_le_of_readFields h

/-- A group in a group, and a code behind them. -/
theorem readInBounds_two_groups :
    let payload := [0x0b, 0x13, 0x14, 0x0c, 0x08, 0x05]
    let o : Options := { nestingLimit := 2 }
    let group : RawField := ⟨⟨1, .startGroup⟩, 0, [0x0b, 0x13, 0x14, 0x0c], 1⟩
    let code : RawField := ⟨⟨1, .varint⟩, 4, [0x08, 0x05], 1⟩
    (run (readFields 7 2 o) (.ofBuffer payload)).map Prod.fst = .ok (.ok [group, code]) ∧
      run (round (skipValue 5 1) 1 1) ⟨payload, 1⟩ = .ok (.ok false, ⟨payload, 3⟩) ∧
      1 + 2 ≤ 3 ∧ 2 * [group, code].length ≤ payload.length := by
  intro payload o group code
  have hb := readInBounds payload (by decide)
  have hfields : ReflectionError.readFields payload o = .ok [group, code] := by decide +kernel
  have hread := hb.readFields_ends o
  rw [hfields] at hread
  have hround : run (round (skipValue 5 1) 1 1) ⟨payload, 1⟩ = .ok (.ok false, ⟨payload, 3⟩) := by
    decide +kernel
  have hfar := hb.round_forward 1 (by decide) 5 1 1 1 _ hround
  exact ⟨hread, hround, hfar, hb.few_fields o _ hfields⟩

/-- The loop of the inner group is open inside that of the outer one, and takes room of its own. -/
example : run (readFields 7 1 { nestingLimit := 2 })
    (.ofBuffer [0x0b, 0x13, 0x14, 0x0c, 0x08, 0x05]) = .error .outOfRoom := by
  decide +kernel

end Machine
end ReflectionError
