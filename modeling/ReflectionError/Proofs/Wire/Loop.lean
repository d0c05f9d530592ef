import ReflectionError.Proofs.Wire.Descent
import ReflectionError.Proofs.Wire.Machine

/-!
# ReflectionError.Proofs.Wire.Loop

Groups and fields on a machine. Groups are passed by descent, each in a loop of its own inside the
loop of the group around it, and a machine has room for so many open loops and time for so many
rounds. There is enough of both, whatever the payload holds: room for the nesting limit, and never
for more than `maxNesting`, and time for one round more than there are bytes left.

* `performs_round`, `performs_groupLoop`: one round of the loop of a group, and all rounds.
* `performs_skipValue`, `performs_readField`, `performs_nextField`: values and fields.
* `performs_step`: any step of a reader.
* `within_groupLoop`: what is done with less time and room is done with more as well.
-/

namespace ReflectionError
namespace Machine

/-- Passes the value behind a key. What passes a group is given its number and a limit. -/
def skipValueBy (skipGroup : Nat → Nat → Code Unit) (key : Key) (limit : Nat) : Code Unit :=
  match key.wireType with
  | .varint => (fun _ => ()) <$> readVarint
  | .fixed64 => (fun _ => ()) <$> readBytes 8
  | .fixed32 => (fun _ => ()) <$> readBytes 4
  | .lengthDelimited => (fun _ => ()) <$> readLengthDelimited
  | .startGroup => skipGroup key.number (min limit maxNesting)
  | .endGroup => do throw (.unexpectedEndGroup (← position) key.number)

/-- Passes a group by its loop, if the limit allows one level at least. -/
def skipGroupBy (loop : Nat → Nat → Code Unit) (number : Nat) : (limit : Nat) → Code Unit
  | 0 => throw (.recursionLimitExceeded 0)
  | depth + 1 => loop number depth

/-- One round of the loop of group `number`: whether the group has ended. -/
def round (skip : Key → Nat → Code Unit) (number depth : Nat) : Code Bool := do
  let offset ← position
  let key ← readKey
  if key.wireType = .endGroup then
    if key.number = number then return true
    else throw (.unexpectedEndGroup offset key.number)
  else
    (skip key depth).adapt (DecodeError.withLimit (depth + 1))
    return false

/-- The loop of group `number`, in which groups may be `depth` deep. As long as it is open there is
room for one loop less in it, and each of its rounds takes from the time that is left. -/
def groupLoop : (time room : Nat) → (number depth : Nat) → Code Unit
  | 0, _, _, _ => stop .outOfTime
  | _ + 1, 0, _, _ => stop .outOfRoom
  | time + 1, room + 1, number, depth => do
    let ended ← round (skipValueBy (skipGroupBy (groupLoop time room))) number depth
    if ended then return () else groupLoop time (room + 1) number depth

section Definitions

variable (time room : Nat)

def skipValue : Key → (limit : Nat) → Code Unit := skipValueBy (skipGroupBy (groupLoop time room))

def readField (limit : Nat) : Code RawField := do
  let offset ← position
  let key ← readKey
  let keyLength ← sub (← position) offset
  skipValue time room key limit
  return ⟨key, offset, ← consumedSince offset, keyLength⟩

def nextField (limit : Nat) : Code (Option RawField) := do
  if (← remaining) = 0 then return none else some <$> readField time room limit

def step : Reader.Step → Code Reader.Answer
  | .varint => .value <$> readVarint
  | .key => .key <$> readKey
  | .bytes length => .bytes <$> readBytes length
  | .lengthDelimited => .bytes <$> readLengthDelimited
  | .skip key limit => (fun _ => .skipped) <$> skipValue time room key limit
  | .field limit => (fun f => f.elim .atEnd .field) <$> nextField time room limit

end Definitions

/-- How many loops a step may have open inside each other. -/
def roomFor : Reader.Step → Nat
  | .skip _ limit => min limit maxNesting
  | .field limit => min limit maxNesting
  | _ => 0

theorem roomFor_le (s : Reader.Step) : roomFor s ≤ maxNesting := by
  cases s with
  | skip key limit => exact Nat.min_le_right ..
  | field limit => exact Nat.min_le_right ..
  | _ => exact Nat.zero_le _

/-! ## Groups -/

theorem run_adapt {α : Type} (code : Code α) (f : DecodeError → DecodeError) (r : Reader) :
    run (code.adapt f) r = (run code r).map fun (x, next) => (x.mapError f, next) := by
  show (code r).bind _ = _
  cases h : code r with
  | error reason => simp only [run, h]; rfl
  | ok p => simp only [run, h]; rfl

theorem Performs.adapt {α : Type} {buffer : List UInt8} {code : Code α} {c : Cursor} {x : Read α}
    (h : Performs buffer code c x) (limit : Nat) :
    Performs buffer (code.adapt (DecodeError.withLimit limit)) c
      (x.mapError (Failure.withLimit limit)) := by
  unfold Performs at h
  rw [Performs, run_adapt, h]
  cases x <;> rfl

theorem Performs.discard {α : Type} {buffer : List UInt8} {code : Code α} {c : Cursor} {x : Read α}
    (h : Performs buffer code c x) :
    Performs buffer ((fun _ => ()) <$> code) c ((x.map Prod.snd).map ((), ·)) := by
  have hm := h.map fun _ => ()
  cases x <;> exact hm

section Reads

variable {buffer : List UInt8} {c : Cursor} (hb : buffer.length < UInt64.size)
  (hc : c.IsIn buffer)
include hb hc

theorem performs_skipValueBy {loop : Nat → Nat → Code Unit} {key : Key} {limit : Nat}
    (hloop : ∀ depth, depth + 1 = min limit maxNesting →
      Performs buffer (loop key.number depth) c
        ((c.closeGroups (depth + 1) [key.number]).map ((), ·))) :
    Performs buffer (skipValueBy (skipGroupBy loop) key limit) c
      ((c.skipValue key limit).map ((), ·)) := by
  obtain ⟨number, wireType⟩ := key
  rw [skipValueBy, Cursor.skipValue]
  cases wireType with
  | varint => exact (performs_readVarint hb hc).discard
  | fixed64 => exact (performs_readBytes hb hc 8).discard
  | lengthDelimited => exact (performs_readLengthDelimited hb hc).discard
  | startGroup =>
    simp only
    cases hm : min limit maxNesting with
    | zero => exact .throw _
    | succ depth =>
      rw [if_neg (Nat.succ_ne_zero depth)]
      exact hloop depth hm.symm
  | endGroup => exact .bind .position (.throw _)
  | fixed32 => exact (performs_readBytes hb hc 4).discard

theorem performs_round {skip : Key → Nat → Code Unit} {number depth : Nat}
    (hskip : ∀ key behind, c.readKey = .ok (key, behind) →
      Performs buffer (skip key depth) behind ((behind.skipValue key depth).map ((), ·))) :
    Performs buffer (round skip number depth) c (c.passRound number depth) := by
  rw [Cursor.passRound]
  refine .bind .position ((performs_readKey hb hc).andThen (fun _ he => by rw [he]) ?_)
  intro key behind hk
  simp only [hk]
  split
  · split
    · exact .pure true
    · exact .throw _
  · refine ((hskip key behind hk).adapt (depth + 1)).andThen (fun failure he => ?_) ?_
    · obtain ⟨inner, hi, rfl⟩ := Except.mapError_eq_error_iff.1 he
      rw [Except.map_eq_error_iff.1 hi]
    · intro u next he
      obtain ⟨d, hv, hd⟩ := Except.map_eq_ok_iff.1 (Except.mapError_eq_ok_iff.1 he)
      cases hd
      rw [hv]
      exact .pure false

omit hc in
/-- By induction on the time. Each round takes a byte at least, so the time that is left lasts for
what is behind it; the groups in it may be one level less deep, and have room for that. -/
theorem performs_groupLoop {time room depth : Nat} {c : Cursor} (hc : c.IsIn buffer)
    (ht : c.rest.length < time) (hr : depth < room) (hd : depth < maxNesting) (number : Nat) :
    Performs buffer (groupLoop time room number depth) c
      ((c.closeGroups (depth + 1) [number]).map ((), ·)) := by
  induction time generalizing c room depth number with
  | zero => omega
  | succ time ih =>
    cases room with
    | zero => omega
    | succ room =>
      have hround : Performs buffer
          (round (skipValueBy (skipGroupBy (groupLoop time room))) number depth) c
          (c.passRound number depth) := by
        refine performs_round hb hc fun key behind hk => ?_
        have hlt := Cursor.rest_lt_of_readKey hk
        obtain ⟨header, _, hp⟩ := Cursor.readKey_eq_ok_iff.1 hk
        refine performs_skipValueBy hb (hc.of_passes hp) fun inner hi => ?_
        exact ih (hc.of_passes hp) (by omega) (by omega) (by omega) key.number
      rw [groupLoop, Cursor.closeGroups_eq_passRound hd]
      refine hround.andThen (fun failure he => by rw [he]; rfl) fun ended next hx => ?_
      rw [hx]
      cases ended with
      | true => exact .pure ()
      | false =>
        obtain ⟨header, value, hh, _, hp⟩ := Cursor.passes_of_passRound hx
        have hlength := congrArg List.length hp.1
        simp only [List.length_append] at hlength
        exact ih (hc.of_passes hp) (by omega) hr hd number

/-! ## Values and fields -/

section Resources

variable {time room limit : Nat} (hr : min limit maxNesting ≤ room)
include hr

theorem performs_skipValue (ht : c.rest.length < time) (key : Key) :
    Performs buffer (skipValue time room key limit) c
      ((c.skipValue key limit).map ((), ·)) :=
  performs_skipValueBy hb hc fun _ hd =>
    performs_groupLoop hb hc ht (by omega) (by omega) key.number

theorem performs_readField (ht : c.rest.length ≤ time) :
    Performs buffer (readField time room limit) c (c.readField limit) := by
  rw [Cursor.readField]
  refine .bind .position ((performs_readKey hb hc).andThen (fun _ he => by rw [he]) ?_)
  intro key behind hk
  obtain ⟨header, _, hp⟩ := Cursor.readKey_eq_ok_iff.1 hk
  have hlt : behind.rest.length < time := Nat.lt_of_lt_of_le (Cursor.rest_lt_of_readKey hk) ht
  have hs := performs_skipValue hb (hc.of_passes hp) hr hlt key
  simp only [hk]
  refine .bind .position (.bind (.sub hp.offset_le) (hs.andThen (fun failure he => ?_) ?_))
  · rw [Except.map_eq_error_iff.1 he]
  · intro u next he
    obtain ⟨d, hv, hd⟩ := Except.map_eq_ok_iff.1 he
    cases hd
    obtain ⟨_, value, _, _, hp'⟩ := Cursor.skipValue_eq_ok_iff.1 hv
    rw [hv]
    exact .bind (performs_consumedSince hc (hp.trans hp')) (.pure _)

theorem performs_nextField (ht : c.rest.length ≤ time) :
    Performs buffer (nextField time room limit) c (c.nextField limit) := by
  rw [Cursor.nextField]
  refine .bind (performs_remaining hc) ?_
  by_cases hn : c.rest = []
  · rw [if_pos hn, if_pos (List.length_eq_zero_iff.2 hn)]
    exact .pure none
  · rw [if_neg hn, if_neg (fun h => hn (List.length_eq_zero_iff.1 h))]
    exact (performs_readField hb hc hr ht).map some

end Resources

theorem performs_step {time room : Nat} {s : Reader.Step} (ht : c.rest.length < time)
    (hr : roomFor s ≤ room) :
    Performs buffer (step time room s) c (Reader.answer c s) := by
  cases s with
  | varint => exact (performs_readVarint hb hc).map _
  | key => exact (performs_readKey hb hc).map _
  | bytes length => exact (performs_readBytes hb hc length).map _
  | lengthDelimited => exact (performs_readLengthDelimited hb hc).map _
  | skip key limit =>
    have h := (performs_skipValue hb hc hr ht key).map fun _ => Reader.Answer.skipped
    rw [Reader.answer]
    cases hs : c.skipValue key limit with
    | error failure =>
      rw [hs] at h
      exact h
    | ok next =>
      rw [hs] at h
      exact h
  | field limit => exact (performs_nextField hb hc hr (Nat.le_of_lt ht)).map _

end Reads

/-! ## Less time and less room -/

/-- Where `code` does not stop, `more` does the same. -/
def Within {α : Type} (code more : Code α) : Prop := ∀ r x, run code r = .ok x → run more r = .ok x

namespace Within

variable {α β : Type} {code more : Code α}

theorem refl (code : Code α) : Within code code := fun _ _ h => h

theorem stop (reason : Stop) (more : Code α) : Within (stop reason) more := by
  intro r x h
  cases h

theorem bind {k k' : α → Code β} (h : Within code more) (hk : ∀ a, Within (k a) (k' a)) :
    Within (code >>= k) (more >>= k') := by
  intro r x hx
  rw [run_bind] at hx ⊢
  cases hr : run code r with
  | error reason =>
    rw [hr] at hx
    cases hx
  | ok p =>
    obtain ⟨e | a, next⟩ := p
    · rw [hr] at hx
      rw [h r _ hr]
      exact hx
    · rw [hr] at hx
      rw [h r _ hr]
      exact hk a next x hx

theorem adapt (h : Within code more) (f : DecodeError → DecodeError) :
    Within (code.adapt f) (more.adapt f) := by
  intro r x hx
  rw [run_adapt] at hx ⊢
  obtain ⟨y, hy, rfl⟩ := Except.map_eq_ok_iff.1 hx
  rw [h r y hy]
  rfl

end Within

theorem within_skipValueBy {loop loop' : Nat → Nat → Code Unit}
    (h : ∀ number depth, Within (loop number depth) (loop' number depth)) (key : Key)
    (limit : Nat) :
    Within (skipValueBy (skipGroupBy loop) key limit)
      (skipValueBy (skipGroupBy loop') key limit) := by
  rw [skipValueBy, skipValueBy]
  cases key.wireType with
  | startGroup =>
    simp only
    cases min limit maxNesting with
    | zero => exact .refl _
    | succ depth => exact h key.number depth
  | _ => exact .refl _

theorem within_round {skip skip' : Key → Nat → Code Unit}
    (h : ∀ key limit, Within (skip key limit) (skip' key limit)) (number depth : Nat) :
    Within (round skip number depth) (round skip' number depth) := by
  refine .bind (.refl _) fun offset => .bind (.refl _) fun key => ?_
  split
  · exact .refl _
  · exact .bind ((h key depth).adapt _) fun _ => .refl _

/-- By induction on the time. -/
theorem within_groupLoop {time time' room room' : Nat} (ht : time ≤ time') (hr : room ≤ room')
    (number depth : Nat) :
    Within (groupLoop time room number depth) (groupLoop time' room' number depth) := by
  induction time generalizing time' room room' number depth with
  | zero => exact .stop .outOfTime _
  | succ time ih =>
    cases room with
    | zero => exact .stop .outOfRoom _
    | succ room =>
      obtain ⟨time', rfl⟩ := Nat.exists_eq_add_one_of_ne_zero (Nat.ne_zero_of_lt ht)
      obtain ⟨room', rfl⟩ := Nat.exists_eq_add_one_of_ne_zero (Nat.ne_zero_of_lt hr)
      have ht := Nat.le_of_succ_le_succ ht
      have hloop := ih ht (Nat.le_of_succ_le_succ hr)
      rw [groupLoop, groupLoop]
      refine .bind (within_round (within_skipValueBy hloop) number depth) fun ended => ?_
      cases ended with
      | true => exact .refl _
      | false => exact ih ht hr number depth

theorem within_skipValue {time time' room room' : Nat} (ht : time ≤ time') (hr : room ≤ room')
    (key : Key) (limit : Nat) :
    Within (skipValue time room key limit) (skipValue time' room' key limit) :=
  within_skipValueBy (within_groupLoop ht hr) key limit

end Machine
end ReflectionError
