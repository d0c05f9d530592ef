import ReflectionError.Proofs.Wire.Failure
import ReflectionError.Wire.Reader

/-!
# ReflectionError.Proofs.Wire.Machine

Reading with what a machine has. Numbers have 64 bits and the buffer is a slice, so a sum, a
difference, a shift or a part of the buffer may be out of range, and then the machine stops and
gives nothing. Later, loops may also take more room or more time than there is.

`Performs` says that the machine does not stop and gives what a read of a cursor gives. So it does
with plain reads at any place of a buffer that is shorter than `2 ^ 64` bytes.

* `Performs.andThen`: code in front of more code.
* `performs_remaining`, `performs_consumedSince`: what is behind the position, and what is before.
* `performs_readDigits`: the loop over the bytes of a varint.
* `performs_readVarint`, `performs_readKey`, `performs_readBytes`, `performs_readLengthDelimited`:
  one for each read.
-/

namespace ReflectionError
namespace Machine

/-- Why a machine stops before its code is done. -/
inductive Stop where
  | outOfRange
  | outOfRoom
  | outOfTime
  deriving DecidableEq

/-- Code that works on a reader. It gives an answer or an error, and leaves the reader where it has
come to. -/
abbrev Code (α : Type) := ExceptT DecodeError (StateT Reader (Except Stop)) α

def run {α : Type} (code : Code α) (r : Reader) : Except Stop (Except DecodeError α × Reader) :=
  code r

def stop {α : Type} (reason : Stop) : Code α := fun _ => .error reason

def position : Code Nat := return (← get).position

def moveTo (position : Nat) : Code Unit := modify fun r => { r with position }

def add (a b : Nat) : Code Nat := if a + b < UInt64.size then return a + b else stop .outOfRange

def sub (a b : Nat) : Code Nat := if b ≤ a then return a - b else stop .outOfRange

def shiftLeft (a : UInt64) (n : Nat) : Code UInt64 :=
  if n < 64 then return a <<< UInt64.ofNat n else stop .outOfRange

/-- The bytes of the buffer from `start` up to `finish`. -/
def slice (start finish : Nat) : Code (List UInt8) := do
  let r ← get
  if start ≤ finish ∧ finish ≤ r.buffer.length then
    return (r.buffer.drop start).take (finish - start)
  else stop .outOfRange

def remaining : Code Nat := do
  let r ← get
  sub r.buffer.length r.position

def consumedSince (origin : Nat) : Code (List UInt8) := do slice origin (← position)

/-- The bytes of a varint from the `i`-th on, of which there may be `allowed`. The digits in front
add up to `value`. -/
def readDigits (offset : Nat) : (allowed i : Nat) → (value : UInt64) → Code Nat
  | 0, _, _ => throw (.malformedVarint offset)
  | allowed + 1, i, value => do
    let place ← add offset i
    match (← get).buffer[place]? with
    | none => throw (.truncatedInput offset (← add i 1) i)
    | some b =>
      let digit ← shiftLeft (UInt64.ofNat (b.toNat % 128)) (7 * i)
      if b.toNat < 128 then
        moveTo (← add place 1)
        return (value ||| digit).toNat
      else readDigits offset allowed (i + 1) (value ||| digit)

def readVarint : Code Nat := do readDigits (← position) Varint.maxLength 0 0

def readKey : Code Key := do
  let offset ← position
  let value ← readVarint
  if value / 8 = 0 || Key.maxNumber < value / 8 then throw (.invalidKey offset)
  else match WireType.ofNat? (value % 8) with
    | some wireType => return ⟨value / 8, wireType⟩
    | none => throw (.invalidWireType offset (value % 8))

def readBytes (length : Nat) : Code (List UInt8) := do
  let available ← remaining
  let offset ← position
  if available < length then throw (.truncatedInput offset length available)
  else
    let finish ← add offset length
    let bytes ← slice offset finish
    moveTo finish
    return bytes

def readLengthDelimited : Code (List UInt8) := do readBytes (← readVarint)

/-! ## Code that does not stop -/

/-- What a read leaves of a reader over `buffer`. -/
def outcome {α : Type} (buffer : List UInt8) : Read α → Except DecodeError α × Reader
  | .ok (a, d) => (.ok a, ⟨buffer, d.offset⟩)
  | .error failure => (.error failure.error, ⟨buffer, failure.cursor.offset⟩)

/-- From `c` on, the machine gives what a read of `c` gives, and does not stop. -/
def Performs {α : Type} (buffer : List UInt8) (code : Code α) (c : Cursor) (x : Read α) : Prop :=
  run code ⟨buffer, c.offset⟩ = .ok (outcome buffer x)

theorem run_bind {α β : Type} (code : Code α) (k : α → Code β) (r : Reader) :
    run (code >>= k) r =
      match run code r with
      | .ok (.ok a, next) => run (k a) next
      | .ok (.error e, next) => .ok (.error e, next)
      | .error reason => .error reason := by
  show (code r).bind _ = _
  cases h : code r with
  | error reason => simp only [run, h]; rfl
  | ok p =>
    obtain ⟨e | a, next⟩ := p
    · simp only [run, h]; rfl
    · simp only [run, h]; rfl

namespace Performs

variable {α β : Type} {buffer : List UInt8} {code : Code α} {c d : Cursor}

theorem pure (a : α) : Performs buffer (pure a) c (.ok (a, c)) := rfl

theorem throw (e : DecodeError) : Performs (α := α) buffer (throw e) c (.error ⟨e, c⟩) := rfl

theorem bind {k : α → Code β} {a : α} {y : Read β} (h : Performs buffer code c (.ok (a, d)))
    (hk : Performs buffer (k a) d y) : Performs buffer (code >>= k) c y := by
  unfold Performs at h
  rw [Performs, run_bind, h]
  exact hk

theorem fails {k : α → Code β} {failure : Failure}
    (h : Performs buffer code c (.error failure)) :
    Performs buffer (code >>= k) c (.error failure) := by
  unfold Performs at h
  rw [Performs, run_bind, h]
  rfl

theorem andThen {k : α → Code β} {x : Read α} {y : Read β} (h : Performs buffer code c x)
    (hfails : ∀ failure, x = .error failure → y = .error failure)
    (hk : ∀ a d, x = .ok (a, d) → Performs buffer (k a) d y) :
    Performs buffer (code >>= k) c y := by
  cases x with
  | error failure =>
    rw [hfails failure rfl]
    exact h.fails
  | ok p => exact h.bind (hk p.1 p.2 rfl)

theorem map {x : Read α} (h : Performs buffer code c x) (f : α → β) :
    Performs buffer (f <$> code) c (x.map fun (a, d) => (f a, d)) := by
  rw [map_eq_pure_bind]
  refine h.andThen (fun failure hx => ?_) fun a d hx => ?_
  · rw [hx]
    rfl
  · rw [hx]
    exact pure _

theorem get : Performs buffer get c (.ok (⟨buffer, c.offset⟩, c)) := rfl

theorem position : Performs buffer position c (.ok (c.offset, c)) := rfl

theorem moveTo (d : Cursor) : Performs buffer (moveTo d.offset) c (.ok ((), d)) := rfl

theorem add {a b : Nat} (h : a + b < UInt64.size) :
    Performs buffer (add a b) c (.ok (a + b, c)) := by
  rw [Machine.add, if_pos h]
  exact pure _

theorem sub {a b : Nat} (h : b ≤ a) : Performs buffer (sub a b) c (.ok (a - b, c)) := by
  rw [Machine.sub, if_pos h]
  exact pure _

theorem shiftLeft {n : Nat} (h : n < 64) (a : UInt64) :
    Performs buffer (shiftLeft a n) c (.ok (a <<< UInt64.ofNat n, c)) := by
  rw [Machine.shiftLeft, if_pos h]
  exact pure _

theorem slice {start finish : Nat} (hs : start ≤ finish) (hf : finish ≤ buffer.length) :
    Performs buffer (slice start finish) c
      (.ok ((buffer.drop start).take (finish - start), c)) := by
  show (if start ≤ finish ∧ finish ≤ buffer.length then (_ : Code (List UInt8)) else _) _ = _
  rw [if_pos ⟨hs, hf⟩]
  rfl

end Performs

/-! ## Plain reads -/

theorem toNat_or_shiftLeft {value : UInt64} {n digit : Nat} (hv : value.toNat < 2 ^ n)
    (hn : n < 64) (hd : digit < UInt64.size) :
    (value ||| UInt64.ofNat digit <<< UInt64.ofNat n).toNat =
      (value.toNat + digit * 2 ^ n) % UInt64.size := by
  have h64 : n < UInt64.size := Nat.lt_trans hn (by decide)
  have hmod : value.toNat % 2 ^ 64 = value.toNat := Nat.mod_eq_of_lt value.toNat_lt
  rw [UInt64.toNat_or, UInt64.toNat_shiftLeft, UInt64.toNat_ofNat_of_lt' hd,
    UInt64.toNat_ofNat_of_lt' h64, Nat.mod_eq_of_lt hn]
  calc value.toNat ||| digit <<< n % 2 ^ 64
      = (value.toNat ||| digit <<< n) % 2 ^ 64 := by rw [Nat.or_mod_two_pow, hmod]
    _ = (digit <<< n + value.toNat) % 2 ^ 64 := by
        rw [Nat.or_comm, Nat.shiftLeft_add_eq_or_of_lt hv]
    _ = (value.toNat + digit * 2 ^ n) % UInt64.size := by
        rw [Nat.shiftLeft_eq, Nat.add_comm]
        rfl

theorem sum_digits (value low n i size : Nat) :
    ((value + low * 2 ^ (7 * i)) % size + n * 2 ^ (7 * (i + 1))) % size =
      (value + (low + 128 * n) * 2 ^ (7 * i)) % size := by
  have hn : n * 2 ^ (7 * (i + 1)) = 128 * n * 2 ^ (7 * i) := by
    rw [Nat.mul_succ, Nat.pow_add, Nat.mul_comm (2 ^ (7 * i)), ← Nat.mul_assoc, Nat.mul_comm n]
  rw [hn, Nat.mod_add_mod, Nat.add_assoc, ← Nat.add_mul]

section Reads

variable {buffer : List UInt8} {c : Cursor}

theorem performs_remaining (hc : c.IsIn buffer) :
    Performs buffer remaining c (.ok (c.rest.length, c)) := by
  have h := hc.offset_add
  have hrest : c.rest.length = buffer.length - c.offset := by omega
  have hle : c.offset ≤ buffer.length := by omega
  rw [hrest]
  exact Performs.sub hle

theorem performs_consumedSince {bytes : List UInt8} {d : Cursor} (hc : c.IsIn buffer)
    (hp : c.Passes bytes d) :
    Performs buffer (consumedSince c.offset) d (.ok (c.upTo d, d)) := by
  have hd := (hc.of_passes hp).offset_add
  rw [Cursor.upTo, ← hc.drop_eq]
  exact .bind .position (.slice hp.offset_le (by omega))

variable (hb : buffer.length < UInt64.size) (hc : c.IsIn buffer)
include hb hc

/-- By induction on the bytes that may follow. The digits in front have `7 * i` bits. -/
theorem performs_readDigits {allowed i : Nat} {value : UInt64}
    (hi : i + allowed = Varint.maxLength) (hl : i ≤ c.rest.length)
    (hv : value.toNat < 2 ^ (7 * i)) :
    Performs buffer (readDigits c.offset allowed i value) c
      (match Varint.scan allowed (c.rest.drop i) with
        | .found n length =>
          .ok ((value.toNat + n * 2 ^ (7 * i)) % UInt64.size, c.advance (i + length))
        | .cutOff length => .error ⟨.truncatedInput c.offset (i + length + 1) (i + length), c⟩
        | .endless => .error ⟨.malformedVarint c.offset, c⟩) := by
  have hlength := hc.offset_add
  have hsize : 128 < UInt64.size := by decide
  induction allowed generalizing i value with
  | zero => exact .throw _
  | succ allowed ih =>
    rw [Varint.maxLength] at hi
    refine .bind (.add (by omega)) (.bind .get ?_)
    have hget : buffer[c.offset + i]? = (c.rest.drop i).head? := by
      rw [← hc.drop_eq, List.drop_drop, List.head?_drop]
    simp only [hget]
    cases hr : c.rest.drop i with
    | nil => exact .bind (.add (by omega)) (.throw _)
    | cons b rest =>
      have hlt : i < c.rest.length := by
        by_contra hn
        rw [List.drop_eq_nil_iff.2 (Nat.not_lt.1 hn)] at hr
        cases hr
      have hrest : c.rest.drop (i + 1) = rest := by
        rw [← List.tail_drop, hr, List.tail_cons]
      have hdigit : b.toNat % 128 < UInt64.size := by omega
      have hsum := toNat_or_shiftLeft hv (by omega) hdigit
      simp only [List.head?_cons, Varint.scan]
      refine .bind (.shiftLeft (by omega) _) ?_
      split
      · next hlow =>
        rw [Nat.mod_eq_of_lt hlow] at hsum ⊢
        refine .bind (.add (by omega)) (.bind (.moveTo (c.advance (i + 1))) ?_)
        rw [hsum]
        exact .pure _
      · have hbound : (value ||| UInt64.ofNat (b.toNat % 128) <<< UInt64.ofNat (7 * i)).toNat <
            2 ^ (7 * (i + 1)) := by
          have hp := Nat.mul_le_mul_right (2 ^ (7 * i)) (show b.toNat % 128 ≤ 127 by omega)
          rw [hsum, Nat.mul_succ, Nat.pow_add]
          refine Nat.lt_of_le_of_lt (Nat.mod_le ..) ?_
          omega
        have h := ih (i := i + 1) (by rw [Varint.maxLength]; omega) hlt hbound
        rw [hrest, hsum] at h
        cases hs : Varint.scan allowed rest with
        | found n length =>
          simp only [hs, sum_digits, Nat.add_right_comm i 1 length] at h
          exact h
        | cutOff length =>
          simp only [hs, Nat.add_right_comm i 1 length] at h
          exact h
        | endless =>
          simp only [hs] at h
          exact h

theorem performs_readVarint : Performs buffer readVarint c c.readVarint := by
  have h0 : (0 : UInt64).toNat < 2 ^ (7 * 0) := by decide
  have h := performs_readDigits hb hc (Nat.zero_add _) (Nat.zero_le _) h0
  rw [Cursor.readVarint]
  refine .bind .position ?_
  rw [List.drop_zero] at h
  cases hs : Varint.scan Varint.maxLength c.rest with
  | found n length => simpa [hs] using h
  | cutOff length => simpa [hs] using h
  | endless => simpa [hs] using h

theorem performs_readKey : Performs buffer readKey c c.readKey := by
  rw [Cursor.readKey]
  refine .bind .position ((performs_readVarint hb hc).andThen (fun _ he => by rw [he]) ?_)
  intro value behind hv
  simp only [hv]
  split
  · exact .throw _
  · cases WireType.ofNat? (value % 8) with
    | some wireType => exact .pure _
    | none => exact .throw _

theorem performs_readBytes (length : Nat) :
    Performs buffer (readBytes length) c (c.readBytes length) := by
  have hlength := hc.offset_add
  rw [Cursor.readBytes]
  refine .bind (performs_remaining hc) (.bind .position ?_)
  split
  · exact .throw _
  · next hl =>
    have hs : c.offset + length - c.offset = length := by omega
    refine .bind (.add (by omega)) (.bind (.slice (Nat.le_add_right ..) (by omega)) ?_)
    rw [hs, hc.drop_eq]
    exact .bind (.moveTo (c.advance length)) (.pure _)

theorem performs_readLengthDelimited :
    Performs buffer readLengthDelimited c c.readLengthDelimited := by
  rw [Cursor.readLengthDelimited]
  refine (performs_readVarint hb hc).andThen (fun _ he => by rw [he]) fun length behind hv => ?_
  obtain ⟨bytes, _, hp⟩ := Cursor.readVarint_eq_ok_iff.1 hv
  rw [hv]
  exact performs_readBytes hb (hc.of_passes hp) length

end Reads

end Machine
end ReflectionError
