import Mathlib.Tactic.IntervalCases
import ReflectionError.Wire.Varint

/-!
# ReflectionError.Proofs.Wire.Varint

Varints as a grammar. `Spells bytes n` says that `bytes` are one varint and spell `n`, in the
shortest form or with digits to spare; `Denotes bytes value` says what a reader makes of them, ten
bytes at most and 64 bits of the number.

* `scan_append`, `spells_of_scan`: a scan finds a varint exactly where one is spelled.
* `scan_eq_cutOff_iff`, `scan_eq_endless_iff`: when a scan finds none.
* `scan_append_of_not_cutOff`: unless it runs out of bytes, it does not look at what follows.
* `spells_encode`: what is written spells the number.
* `length_encode`: its length is the one that is computed from the number of bits.
* `minimal_encode`, `Minimal.eq_encode`: it is the shortest varint that spells the number, and no
  other one is as short.
* `Denotes.length_le`: nothing that is read as the number is shorter.
-/

namespace ReflectionError
namespace Varint

/-- All bytes but the last have the high bit. Each holds one digit, the lowest comes first. -/
inductive Spells : List UInt8 → Nat → Prop where
  | last {b : UInt8} : b.toNat < 128 → Spells [b] b.toNat
  | more {b : UInt8} {rest : List UInt8} {n : Nat} :
      128 ≤ b.toNat → Spells rest n → Spells (b :: rest) (b.toNat % 128 + 128 * n)

/-- What a reader takes `bytes` for, if they are a varint of a length that it accepts. -/
def Denotes (bytes : List UInt8) (value : Nat) : Prop :=
  ∃ n, Spells bytes n ∧ bytes.length ≤ maxLength ∧ n % 2 ^ 64 = value

theorem Spells.length_pos {bytes : List UInt8} {n : Nat} (h : Spells bytes n) :
    0 < bytes.length := by
  cases h with
  | last _ => simp
  | more _ _ => simp

theorem Denotes.length_pos {bytes : List UInt8} {value : Nat} (h : Denotes bytes value) :
    0 < bytes.length := by
  obtain ⟨n, hs, _, _⟩ := h
  exact hs.length_pos

/-! ## Scanning -/

theorem scan_append {bytes : List UInt8} {n : Nat} (h : Spells bytes n) (rest : List UInt8)
    {allowed : Nat} (hl : bytes.length ≤ allowed) :
    scan allowed (bytes ++ rest) = .found n bytes.length := by
  induction h generalizing allowed with
  | last hb =>
    obtain ⟨a, rfl⟩ : ∃ a, allowed = a + 1 := ⟨allowed - 1, by simp at hl; omega⟩
    rw [List.singleton_append, scan, if_pos hb]
    rfl
  | more hb _ ih =>
    obtain ⟨a, rfl⟩ : ∃ a, allowed = a + 1 := ⟨allowed - 1, by simp at hl; omega⟩
    rw [List.cons_append, scan, if_neg (by omega), ih (by simpa using hl), Scan.cons,
      List.length_cons]

theorem spells_of_scan {allowed : Nat} {bytes : List UInt8} {n length : Nat}
    (h : scan allowed bytes = .found n length) :
    Spells (bytes.take length) n ∧ length ≤ allowed ∧ length ≤ bytes.length := by
  induction allowed generalizing bytes n length with
  | zero => simp [scan] at h
  | succ allowed ih =>
    cases bytes with
    | nil => simp [scan] at h
    | cons b rest =>
      rw [scan] at h
      split at h
      · next hb =>
        simp only [Scan.found.injEq] at h
        obtain ⟨rfl, rfl⟩ := h
        exact ⟨by simpa using Spells.last hb, by omega, by simp⟩
      · next hb =>
        cases hs : scan allowed rest with
        | found v m =>
          rw [hs, Scan.cons, Scan.found.injEq] at h
          obtain ⟨rfl, rfl⟩ := h
          obtain ⟨hv, hm, hr⟩ := ih hs
          exact ⟨by simpa using Spells.more (by omega) hv, by omega, by simpa using hr⟩
        | cutOff m => rw [hs, Scan.cons] at h; cases h
        | endless => rw [hs, Scan.cons] at h; cases h

/-- A scan runs out of bytes if and only if there are too few and all of them have the high bit. -/
theorem scan_eq_cutOff_iff {allowed length : Nat} {bytes : List UInt8} :
    scan allowed bytes = .cutOff length ↔
      length = bytes.length ∧ bytes.length < allowed ∧ ∀ b ∈ bytes, 128 ≤ b.toNat := by
  induction allowed generalizing bytes length with
  | zero => simp [scan]
  | succ allowed ih =>
    cases bytes with
    | nil => simp [scan, eq_comm]
    | cons b rest =>
      rw [scan]
      split
      · next hb => simp [Nat.not_le.2 hb]
      · next hb =>
        have hc : (scan allowed rest).cons (b.toNat % 128) = .cutOff length ↔
            ∃ l, scan allowed rest = .cutOff l ∧ l + 1 = length := by
          cases scan allowed rest <;> simp [Scan.cons]
        rw [hc]
        simp only [ih, List.length_cons, List.mem_cons, forall_eq_or_imp, Nat.not_lt.1 hb, true_and,
          Nat.add_lt_add_iff_right]
        constructor
        · rintro ⟨l, ⟨rfl, h⟩, rfl⟩
          exact ⟨rfl, h⟩
        · rintro ⟨rfl, h⟩
          exact ⟨_, ⟨rfl, h⟩, rfl⟩

/-- A scan finds no end if and only if all bytes that it may look at have the high bit. -/
theorem scan_eq_endless_iff {allowed : Nat} {bytes : List UInt8} :
    scan allowed bytes = .endless ↔
      allowed ≤ bytes.length ∧ ∀ b ∈ bytes.take allowed, 128 ≤ b.toNat := by
  induction allowed generalizing bytes with
  | zero => simp [scan]
  | succ allowed ih =>
    cases bytes with
    | nil => simp [scan]
    | cons b rest =>
      rw [scan]
      split
      · next hb => simp [Nat.not_le.2 hb]
      · next hb =>
        have hc : (scan allowed rest).cons (b.toNat % 128) = .endless ↔
            scan allowed rest = .endless := by
          cases scan allowed rest <;> simp [Scan.cons]
        rw [hc]
        simp only [ih, List.length_cons, List.take_succ_cons, List.mem_cons, forall_eq_or_imp,
          Nat.not_lt.1 hb, true_and, Nat.add_le_add_iff_right]

/-- Only a varint that is cut off can turn into another one when more bytes follow. -/
theorem scan_append_of_not_cutOff (allowed : Nat) (bytes back : List UInt8) :
    (∃ length, scan allowed bytes = .cutOff length) ∨
      scan allowed (bytes ++ back) = scan allowed bytes := by
  induction allowed generalizing bytes with
  | zero => exact .inr rfl
  | succ allowed ih =>
    cases bytes with
    | nil => exact .inl ⟨0, rfl⟩
    | cons b rest =>
      rw [List.cons_append, scan, scan]
      split
      · exact .inr rfl
      · rcases ih rest with ⟨length, h⟩ | h
        · rw [h]
          exact .inl ⟨length + 1, rfl⟩
        · rw [h]
          exact .inr rfl

/-! ## Writing -/

theorem spells_encode (n : Nat) : Spells (encode n) n := by
  induction n using Nat.strongRecOn with
  | ind n ih =>
    rw [encode]
    split
    · next hn =>
      have := Spells.last (b := UInt8.ofNat n) (by rw [UInt8.toNat_ofNat']; omega)
      rwa [UInt8.toNat_ofNat', Nat.mod_eq_of_lt (by omega)] at this
    · next hn =>
      have hb : (UInt8.ofNat (n % 128 + 128)).toNat = n % 128 + 128 := by
        rw [UInt8.toNat_ofNat', Nat.mod_eq_of_lt (by omega)]
      have := Spells.more (b := UInt8.ofNat (n % 128 + 128)) (by omega) (ih (n / 128) (by omega))
      rwa [hb, show (n % 128 + 128) % 128 + 128 * (n / 128) = n by omega] at this

theorem log2_div_digit {n : Nat} (h : 128 ≤ n) : Nat.log2 n = Nat.log2 (n / 128) + 7 := by
  have hlo := Nat.log2_self_le (show n / 128 ≠ 0 by omega)
  have hhi := Nat.lt_log2_self (n := n / 128)
  rw [Nat.log2_eq_iff (by omega)]
  rw [Nat.pow_succ] at hhi
  constructor
  · rw [Nat.pow_add]
    omega
  · rw [Nat.pow_succ, Nat.pow_add]
    omega

theorem length_encode_eq_log2 (n : Nat) : (encode n).length = Nat.log2 n / 7 + 1 := by
  induction n using Nat.strongRecOn with
  | ind n ih =>
    rw [encode]
    split
    · next hn =>
      have : Nat.log2 n < 7 := by
        by_cases h0 : n = 0
        · subst h0; decide
        · exact (Nat.log2_lt h0).2 hn
      rw [List.length_singleton]
      omega
    · next hn =>
      rw [List.length_cons, ih (n / 128) (by omega), log2_div_digit (show 128 ≤ n by omega)]
      omega

theorem log2_lt_of_lt {n : Nat} (h : n < 2 ^ 64) : Nat.log2 n < 64 := by
  by_cases h0 : n = 0
  · subst h0; decide
  · exact (Nat.log2_lt h0).2 h

theorem length_encode {n : Nat} (h : n < 2 ^ 64) : (encode n).length = length n := by
  have hl := log2_lt_of_lt h
  rw [length_encode_eq_log2, length]
  generalize Nat.log2 n = l at hl
  interval_cases l <;> rfl

theorem length_le {n : Nat} (h : n < 2 ^ 64) : length n ≤ maxLength := by
  have hl := log2_lt_of_lt h
  rw [length, maxLength]
  omega

theorem denotes_encode {n : Nat} (h : n < 2 ^ 64) : Denotes (encode n) n := by
  have hl := log2_lt_of_lt h
  refine ⟨n, spells_encode n, ?_, Nat.mod_eq_of_lt h⟩
  rw [length_encode_eq_log2, maxLength]
  omega

/-! ## The shortest form -/

/-- `bytes` spell `n`, and no other varint that spells `n` is shorter. -/
def Minimal (bytes : List UInt8) (n : Nat) : Prop :=
  Spells bytes n ∧ ∀ other, Spells other n → bytes.length ≤ other.length

theorem encode_of_lt {n : Nat} (h : n < 128) : encode n = [UInt8.ofNat n] := by
  rw [encode, if_pos h]

theorem encode_of_le {n : Nat} (h : 128 ≤ n) :
    encode n = UInt8.ofNat (n % 128 + 128) :: encode (n / 128) := by
  rw [encode, if_neg (by omega)]

theorem length_encode_le {bytes : List UInt8} {n : Nat} (h : Spells bytes n) :
    (encode n).length ≤ bytes.length := by
  induction h with
  | last hb =>
    rw [encode_of_lt hb]
    exact Nat.le_refl _
  | @more b rest n hb hr ih =>
    by_cases hn : b.toNat % 128 + 128 * n < 128
    · rw [encode_of_lt hn]
      exact Nat.succ_le_succ (Nat.zero_le _)
    · have hd : (b.toNat % 128 + 128 * n) / 128 = n := by omega
      rw [encode_of_le (by omega), hd]
      exact Nat.succ_le_succ ih

/-- Of the varints that spell `n` only the one that is written has its length. -/
theorem Spells.eq_encode {bytes : List UInt8} {n : Nat} (h : Spells bytes n)
    (hl : bytes.length ≤ (encode n).length) : bytes = encode n := by
  induction h with
  | last hb => rw [encode_of_lt hb, UInt8.ofNat_toNat]
  | @more b rest n hb hr ih =>
    by_cases hn : b.toNat % 128 + 128 * n < 128
    · have := hr.length_pos
      rw [encode_of_lt hn, List.length_cons, List.length_singleton] at hl
      omega
    · have hd : (b.toNat % 128 + 128 * n) / 128 = n := by omega
      have hm : (b.toNat % 128 + 128 * n) % 128 + 128 = b.toNat := by
        have := b.toNat_lt
        omega
      rw [encode_of_le (by omega), hd] at hl
      rw [encode_of_le (by omega), hd, hm, UInt8.ofNat_toNat, ← ih (Nat.le_of_succ_le_succ hl)]

theorem minimal_encode (n : Nat) : Minimal (encode n) n :=
  ⟨spells_encode n, fun _ => length_encode_le⟩

theorem Minimal.eq_encode {bytes : List UInt8} {n : Nat} (h : Minimal bytes n) :
    bytes = encode n :=
  h.1.eq_encode (h.2 _ (spells_encode n))

theorem Denotes.lt {bytes : List UInt8} {value : Nat} (h : Denotes bytes value) :
    value < 2 ^ 64 := by
  obtain ⟨n, _, _, rfl⟩ := h
  exact Nat.mod_lt _ (by decide)

theorem log2_mono {m n : Nat} (h : m ≤ n) : Nat.log2 m ≤ Nat.log2 n := by
  by_cases h0 : m = 0
  · subst h0
    exact Nat.zero_le _
  · exact (Nat.le_log2 (by omega)).2 (Nat.le_trans (Nat.log2_self_le h0) h)

theorem length_mono {m n : Nat} (h : m ≤ n) : length m ≤ length n := by
  have := log2_mono h
  rw [length, length]
  omega

theorem length_encode_mono {m n : Nat} (h : m ≤ n) : (encode m).length ≤ (encode n).length := by
  rw [length_encode_eq_log2, length_encode_eq_log2]
  exact Nat.succ_le_succ (Nat.div_le_div_right (log2_mono h))

/-- What a reader takes for a value has no fewer bytes than are written for it, also where bits of
the number are lost. -/
theorem Denotes.length_le {bytes : List UInt8} {value : Nat} (h : Denotes bytes value) :
    length value ≤ bytes.length := by
  have hlt := h.lt
  obtain ⟨n, hs, _, rfl⟩ := h
  calc length (n % 2 ^ 64)
      = (encode (n % 2 ^ 64)).length := (length_encode hlt).symm
    _ ≤ (encode n).length := length_encode_mono (Nat.mod_le ..)
    _ ≤ bytes.length := length_encode_le hs

theorem Denotes.eq_encode_of_length_eq_one {bytes : List UInt8} {value : Nat}
    (h : Denotes bytes value) (hl : bytes.length = 1) : bytes = encode value := by
  obtain ⟨n, hs, _, rfl⟩ := h
  have hn : n < 2 ^ 64 := by
    cases hs with
    | last hb => omega
    | more _ hr =>
      have := hr.length_pos
      rw [List.length_cons] at hl
      omega
  rw [Nat.mod_eq_of_lt hn]
  exact hs.eq_encode (by rw [hl]; exact (spells_encode n).length_pos)

end Varint
end ReflectionError
