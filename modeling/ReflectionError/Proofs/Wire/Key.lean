import Mathlib.Algebra.BigOperators.Fin
import Mathlib.Algebra.BigOperators.Ring.Finset
import Mathlib.Tactic.Ring
import ReflectionError.Proofs.Wire.Cursor

/-!
# ReflectionError.Proofs.Wire.Key

Keys, and the numbers that their bytes spell. Ten digits of seven bits hold six bits more than a
reader keeps, so there are two numbers in a key of ten bytes: the one that is spelled, `digitSum`,
and the one that is left of it, modulo `2 ^ 64`. A reader judges a key by the second.

* `spells_iff`: the number that a varint spells is the sum of its digits.
* `readKey_exact`: what a key is read as, from the number that is left.
* `readKey_exact_iff`: a key is read as the number says that is spelled if and only if nothing of it
  is lost, or what is left of it is refused too.
* `readKey_drops_bits`: what is left of a number out of range may be the key of a declared field.
-/

namespace ReflectionError
namespace Varint

/-- The bytes are one varint: all but the last have the high bit. -/
def IsTerminated (bytes : List UInt8) : Prop :=
  ∃ front last, bytes = front ++ [last] ∧ (∀ b ∈ front, 128 ≤ b.toNat) ∧ last.toNat < 128

/-- The low seven bits of the byte at `i` count `2 ^ (7 * i)` times. -/
def digitSum (bytes : List UInt8) : Nat :=
  ∑ i : Fin bytes.length, bytes[i].toNat % 128 * 2 ^ (7 * i.val)

theorem digitSum_cons (b : UInt8) (rest : List UInt8) :
    digitSum (b :: rest) = b.toNat % 128 + 128 * digitSum rest := by
  have hsum : digitSum (b :: rest) = b.toNat % 128 * 2 ^ (7 * 0) +
      ∑ i : Fin rest.length, rest[i].toNat % 128 * 2 ^ (7 * (i.val + 1)) :=
    Fin.sum_univ_succ _
  have hdigit (i : Fin rest.length) :
      rest[i].toNat % 128 * 2 ^ (7 * (i.val + 1)) =
        128 * (rest[i].toNat % 128 * 2 ^ (7 * i.val)) := by
    ring
  rw [hsum, digitSum, Finset.mul_sum, Nat.mul_zero, Nat.pow_zero, Nat.mul_one]
  simp only [hdigit]

theorem isTerminated_cons {b : UInt8} {rest : List UInt8} (hr : rest ≠ []) :
    IsTerminated (b :: rest) ↔ 128 ≤ b.toNat ∧ IsTerminated rest := by
  constructor
  · rintro ⟨front, last, he, hf, hl⟩
    cases front with
    | nil =>
      cases he
      exact absurd rfl hr
    | cons b' front =>
      cases he
      exact ⟨hf b (List.mem_cons_self ..), front, last, rfl,
        fun x hx => hf x (List.mem_cons_of_mem _ hx), hl⟩
  · rintro ⟨hb, front, last, rfl, hf, hl⟩
    refine ⟨b :: front, last, rfl, fun x hx => ?_, hl⟩
    rcases List.mem_cons.1 hx with rfl | hx
    · exact hb
    · exact hf x hx

theorem isTerminated_singleton {b : UInt8} : IsTerminated [b] ↔ b.toNat < 128 := by
  constructor
  · rintro ⟨front, last, he, _, hl⟩
    cases front with
    | nil =>
      cases he
      exact hl
    | cons b' front => simp at he
  · intro hb
    exact ⟨[], b, rfl, by simp, hb⟩

theorem spells_iff {bytes : List UInt8} {n : Nat} :
    Spells bytes n ↔ IsTerminated bytes ∧ n = digitSum bytes := by
  constructor
  · intro h
    induction h with
    | @last b hb =>
      refine ⟨isTerminated_singleton.2 hb, ?_⟩
      rw [digitSum_cons, Nat.mod_eq_of_lt hb]
      rfl
    | @more b rest n hb hr ih =>
      have hne : rest ≠ [] := List.length_pos_iff.1 hr.length_pos
      refine ⟨(isTerminated_cons hne).2 ⟨hb, ih.1⟩, ?_⟩
      rw [digitSum_cons, ih.2]
  · rintro ⟨h, rfl⟩
    induction bytes with
    | nil =>
      obtain ⟨front, last, he, _, _⟩ := h
      simp at he
    | cons b rest ih =>
      by_cases hr : rest = []
      · subst hr
        have hb := isTerminated_singleton.1 h
        rw [digitSum_cons, Nat.mod_eq_of_lt hb]
        exact .last hb
      · obtain ⟨hb, ht⟩ := (isTerminated_cons hr).1 h
        rw [digitSum_cons]
        exact .more hb (ih ht)

end Varint

/-- The field number is one that a key may have. -/
def Key.InRange (number : Nat) : Prop := 0 < number ∧ number ≤ Key.maxNumber

namespace Cursor

/-- Reading a key at `c` is what the number `value` says, and ends at `d`: number and wire type are
its parts if both exist, and a number that no field has is refused as such. -/
structure ReadsKeyOf (c d : Cursor) (value : Nat) : Prop where
  accepted_iff : ∀ key e, c.readKey = .ok (key, e) ↔
    Key.InRange (value / 8) ∧ value % 8 ≤ 5 ∧
      key.number = value / 8 ∧ key.wireType.toNat = value % 8 ∧ e = d
  refused : ¬ Key.InRange (value / 8) → c.readKey = .error ⟨.invalidKey c.offset, d⟩

section Keys

variable {c d : Cursor} {value : Nat}

theorem readKey_of_not_inRange (h : c.readVarint = .ok (value, d))
    (hn : ¬ Key.InRange (value / 8)) : c.readKey = .error ⟨.invalidKey c.offset, d⟩ := by
  have hout : value / 8 = 0 ∨ Key.maxNumber < value / 8 := by
    rw [Key.InRange] at hn
    omega
  rw [readKey, h]
  simp only
  rw [if_pos (by simpa using hout)]

theorem readKey_of_inRange (h : c.readVarint = .ok (value, d)) (hn : Key.InRange (value / 8)) :
    c.readKey = match WireType.ofNat? (value % 8) with
      | some wireType => .ok (⟨value / 8, wireType⟩, d)
      | none => .error ⟨.invalidWireType c.offset (value % 8), d⟩ := by
  have hin : ¬ (value / 8 = 0 ∨ Key.maxNumber < value / 8) := by
    rw [Key.InRange] at hn
    omega
  rw [readKey, h]
  simp only
  refine (if_neg (by simpa using hin)).trans ?_
  cases WireType.ofNat? (value % 8) <;> rfl

theorem readsKeyOf_of_readVarint (h : c.readVarint = .ok (value, d)) : c.ReadsKeyOf d value := by
  refine ⟨fun key e => ?_, readKey_of_not_inRange h⟩
  by_cases hn : Key.InRange (value / 8)
  · rw [readKey_of_inRange h hn]
    cases hw : WireType.ofNat? (value % 8) with
    | none =>
      have := WireType.ofNat?_eq_none_iff.1 hw
      simp only [reduceCtorEq, false_iff]
      rintro ⟨_, hle, _⟩
      omega
    | some wireType =>
      have hle : value % 8 ≤ 5 := by
        by_contra hgt
        rw [WireType.ofNat?_eq_none_iff.2 (Nat.not_le.1 hgt)] at hw
        cases hw
      have hvalue := WireType.ofNat?_eq_some_iff.1 hw
      constructor
      · intro hk
        cases hk
        exact ⟨hn, hle, rfl, hvalue.symm, rfl⟩
      · rintro ⟨_, _, hnumber, hwire, rfl⟩
        obtain ⟨number, wireType'⟩ := key
        have : some wireType' = some wireType := by
          rw [← hw]
          exact (WireType.ofNat?_eq_some_iff.2 hwire.symm).symm
        cases this
        obtain rfl : number = value / 8 := hnumber
        rfl
  · rw [readKey_of_not_inRange h hn]
    simp [hn]

end Keys

section Spelled

variable {bytes : List UInt8} (ht : Varint.IsTerminated bytes) (hl : bytes.length ≤ Varint.maxLength)
include ht hl

theorem readVarint_of_isTerminated {c d : Cursor} (hp : c.Passes bytes d) :
    c.readVarint = .ok (Varint.digitSum bytes % 2 ^ 64, d) :=
  readVarint_eq_ok_iff.2 ⟨bytes, ⟨_, Varint.spells_iff.2 ⟨ht, rfl⟩, hl, rfl⟩, hp⟩

/-- What is left of the number in 64 bits says what the key is read as. -/
theorem readKey_exact {c d : Cursor} (hp : c.Passes bytes d) :
    c.ReadsKeyOf d (Varint.digitSum bytes % 2 ^ 64) :=
  readsKeyOf_of_readVarint (readVarint_of_isTerminated ht hl hp)

/-- The number that is spelled says what the key is read as if and only if all of it is kept, or the
field number in what is kept is out of range as well. -/
theorem readKey_exact_iff (offset : Nat) (rest : List UInt8) :
    let c : Cursor := ⟨offset, bytes ++ rest⟩
    let d : Cursor := ⟨offset + bytes.length, rest⟩
    c.ReadsKeyOf d (Varint.digitSum bytes % 2 ^ 64) ∧
      (c.ReadsKeyOf d (Varint.digitSum bytes) ↔
        Varint.digitSum bytes < 2 ^ 64 ∨ ¬ Key.InRange (Varint.digitSum bytes % 2 ^ 64 / 8)) := by
  intro c d
  have hp : c.Passes bytes d := ⟨rfl, rfl⟩
  have hkept := readKey_exact ht hl hp
  refine ⟨hkept, ?_⟩
  by_cases hlt : Varint.digitSum bytes < 2 ^ 64
  · rw [Nat.mod_eq_of_lt hlt] at hkept
    simp only [hlt, true_or, iff_true]
    exact hkept
  · -- The number that is spelled is out of range, so it has to be refused for that.
    have hout : ¬ Key.InRange (Varint.digitSum bytes / 8) := by
      rintro ⟨_, hle⟩
      rw [Key.maxNumber] at hle
      omega
    simp only [hlt, false_or]
    constructor
    · intro hspelled hin
      have hk := readKey_of_inRange (readVarint_of_isTerminated ht hl hp) hin
      rw [hspelled.refused hout] at hk
      split at hk <;> cases hk
    · intro hn
      refine ⟨fun key e => ?_, fun _ => hkept.refused hn⟩
      rw [hkept.refused hn]
      simp [hout]

end Spelled

/-- The key of the code in ten bytes, the last of which adds nothing. -/
theorem readKey_exact_iff_ten_bytes :
    let bytes := [0x88, 0x80, 0x80, 0x80, 0x80, 0x80, 0x80, 0x80, 0x80, 0x00]
    Varint.IsTerminated bytes ∧ bytes.length ≤ Varint.maxLength ∧
      ReadsKeyOf ⟨3, bytes ++ [0x05]⟩ ⟨13, [0x05]⟩ (Varint.digitSum bytes) := by
  intro bytes
  have ht : Varint.IsTerminated bytes :=
    ⟨[0x88, 0x80, 0x80, 0x80, 0x80, 0x80, 0x80, 0x80, 0x80], 0x00, rfl, by simp, by decide⟩
  have hl : bytes.length ≤ Varint.maxLength := by decide
  have hsum : Varint.digitSum bytes = 8 := by decide +kernel
  exact ⟨ht, hl, (readKey_exact_iff ht hl 3 [0x05]).2.2 (.inl (by rw [hsum]; decide))⟩

/-- Of `2 ^ 64 + 8` the key of the code is left. -/
theorem readKey_drops_bits :
    let bytes := [0x88, 0x80, 0x80, 0x80, 0x80, 0x80, 0x80, 0x80, 0x80, 0x02]
    Varint.IsTerminated bytes ∧ bytes.length ≤ Varint.maxLength ∧
      Varint.digitSum bytes = 2 ^ 64 + 8 ∧ ¬ Key.InRange (Varint.digitSum bytes / 8) ∧
      (start bytes).readKey = .ok (⟨1, .varint⟩, ⟨10, []⟩) ∧
      ¬ (start bytes).ReadsKeyOf ⟨10, []⟩ (Varint.digitSum bytes) := by
  intro bytes
  have ht : Varint.IsTerminated bytes :=
    ⟨[0x88, 0x80, 0x80, 0x80, 0x80, 0x80, 0x80, 0x80, 0x80], 0x02, rfl, by simp, by decide⟩
  have hsum : Varint.digitSum bytes = 2 ^ 64 + 8 := by decide +kernel
  have hout : ¬ Key.InRange (Varint.digitSum bytes / 8) := by
    rw [hsum, Key.InRange, Key.maxNumber]
    omega
  have hread : (start bytes).readKey = .ok (⟨1, .varint⟩, ⟨10, []⟩) := by decide +kernel
  refine ⟨ht, by decide, hsum, hout, hread, fun h => ?_⟩
  rw [h.refused hout] at hread
  cases hread

end Cursor
end ReflectionError
