import ReflectionError.Proofs.Wire.Failure
import ReflectionError.Proofs.Wire.Key

/-!
# ReflectionError.Proofs.Wire.Codec

Varints and keys, byte for byte. Where a varint ends is told by its bytes alone: it is the first of
them without the high bit, if that is among the first ten.

* `readVarint_eq_ok_iff_endsAt`: the value is the sum of the digits up to there, in 64 bits.
* `readsVarint`: when a varint is read, truncated or malformed.
* `readVarint_encode`, `readKey_encode`: what is written is read back, whatever follows.
* `Key.length_encode`: the length of a key does not depend on its wire type.
* `varints_and_keys`: all of this, for every place, number and key.
-/

namespace ReflectionError
namespace Varint

/-- The byte at `i` is the first without the high bit. -/
def EndsAt (bytes : List UInt8) (i : Nat) : Prop :=
  (∃ b, bytes[i]? = some b ∧ b.toNat < 128) ∧ ∀ b ∈ bytes.take i, 128 ≤ b.toNat

theorem take_succ_of_endsAt {bytes : List UInt8} {i : Nat} {b : UInt8} (h : bytes[i]? = some b) :
    bytes.take (i + 1) = bytes.take i ++ [b] := by
  rw [List.take_add_one, h, Option.toList_some]

theorem endsAt_iff {bytes : List UInt8} {i : Nat} :
    EndsAt bytes i ↔ i < bytes.length ∧ IsTerminated (bytes.take (i + 1)) := by
  constructor
  · rintro ⟨⟨b, hb, hl⟩, hf⟩
    obtain ⟨hi, _⟩ := List.getElem?_eq_some_iff.1 hb
    exact ⟨hi, bytes.take i, b, take_succ_of_endsAt hb, hf, hl⟩
  · rintro ⟨hi, front, last, he, hf, hl⟩
    have hb := List.getElem?_eq_getElem hi
    rw [take_succ_of_endsAt hb] at he
    obtain ⟨rfl, hlast⟩ := List.append_inj' he rfl
    cases hlast
    exact ⟨⟨_, hb, hl⟩, hf⟩

theorem exists_endsAt {bytes : List UInt8} {i : Nat} {b : UInt8} (hb : bytes[i]? = some b)
    (hl : b.toNat < 128) : ∃ j, j ≤ i ∧ EndsAt bytes j := by
  induction i using Nat.strongRecOn generalizing b with
  | ind i ih =>
    by_cases hf : ∀ x ∈ bytes.take i, 128 ≤ x.toNat
    · exact ⟨i, Nat.le_refl i, ⟨b, hb, hl⟩, hf⟩
    · simp only [not_forall, Nat.not_le] at hf
      obtain ⟨x, hx, hlt⟩ := hf
      obtain ⟨k, hk, rfl⟩ := List.mem_take_iff_getElem.1 hx
      have hki : k < i := Nat.lt_of_lt_of_le hk (Nat.min_le_left ..)
      obtain ⟨j, hj, he⟩ := ih k hki (List.getElem?_eq_getElem _) hlt
      exact ⟨j, Nat.le_trans hj (Nat.le_of_lt hki), he⟩

theorem log2_mul_eight_add {n low : Nat} (hn : 0 < n) (hl : low < 8) :
    Nat.log2 (n * 8 + low) = Nat.log2 n + 3 := by
  have hlo := Nat.log2_self_le (Nat.ne_of_gt hn)
  have hhi := Nat.lt_log2_self (n := n)
  rw [Nat.pow_succ] at hhi
  rw [Nat.log2_eq_iff (by omega)]
  constructor
  · rw [Nat.pow_add]
    omega
  · rw [Nat.pow_succ, Nat.pow_add]
    omega

end Varint

theorem Key.length_encode {key : Key} (h : key.number * 8 < 2 ^ 64) :
    key.encode.length = Key.length key.number := by
  have hw := key.wireType.toNat_lt
  rw [Key.length, ← Varint.length_encode h, Key.encode, Varint.length_encode_eq_log2,
    Varint.length_encode_eq_log2]
  by_cases hn : key.number = 0
  · rw [hn, Nat.zero_mul, Nat.zero_add]
    cases key.wireType <;> decide
  · have hpos := Nat.pos_of_ne_zero hn
    rw [Varint.log2_mul_eight_add hpos hw, ← Nat.add_zero (key.number * 8),
      Varint.log2_mul_eight_add hpos (by decide)]

namespace Cursor

open Varint

theorem readVarint_eq_ok_iff_endsAt {c d : Cursor} {value : Nat} :
    c.readVarint = .ok (value, d) ↔
      ∃ i, i < maxLength ∧ EndsAt c.rest i ∧
        value = digitSum (c.rest.take (i + 1)) % 2 ^ 64 ∧ d = c.advance (i + 1) := by
  constructor
  · intro h
    obtain ⟨bytes, ⟨n, hs, hl, rfl⟩, hp⟩ := readVarint_eq_ok_iff.1 h
    obtain ⟨ht, rfl⟩ := spells_iff.1 hs
    have hpos := hs.length_pos
    obtain ⟨i, hi⟩ : ∃ i, bytes.length = i + 1 := ⟨bytes.length - 1, by omega⟩
    have htake : c.rest.take (i + 1) = bytes := by rw [hp.1, ← hi, List.take_left]
    have hrest : c.rest.length = i + 1 + d.rest.length := by rw [hp.1, List.length_append, hi]
    refine ⟨i, by omega, endsAt_iff.2 ⟨by omega, by rwa [htake]⟩, by rw [htake], ?_⟩
    rw [hp.eq_advance, hi]
  · rintro ⟨i, hi, he, rfl, rfl⟩
    obtain ⟨hlt, ht⟩ := endsAt_iff.1 he
    refine readVarint_of_isTerminated ht ?_ (passes_advance hlt)
    rw [List.length_take]
    omega

/-- What comes of reading a varint, told by the bytes at `c`. -/
structure ReadsVarint (c : Cursor) : Prop where
  succeeds_iff : (∃ value d, c.readVarint = .ok (value, d)) ↔
    ∃ i b, i < maxLength ∧ c.rest[i]? = some b ∧ b.toNat < 128
  value_iff : ∀ value d, c.readVarint = .ok (value, d) ↔
    ∃ i, i < maxLength ∧ EndsAt c.rest i ∧
      value = digitSum (c.rest.take (i + 1)) % 2 ^ 64 ∧ d = c.advance (i + 1)
  truncated_iff :
    (∃ stood offset needed remaining,
      c.readVarint = .error ⟨.truncatedInput offset needed remaining, stood⟩) ↔
      c.rest.length < maxLength ∧ ∀ b ∈ c.rest, 128 ≤ b.toNat
  malformed_iff :
    (∃ stood offset, c.readVarint = .error ⟨.malformedVarint offset, stood⟩) ↔
      maxLength ≤ c.rest.length ∧ ∀ b ∈ c.rest.take maxLength, 128 ≤ b.toNat
  stays : ∀ failure, c.readVarint = .error failure → failure.cursor = c

theorem readsVarint (c : Cursor) : c.ReadsVarint where
  succeeds_iff := by
    constructor
    · rintro ⟨value, d, h⟩
      obtain ⟨i, hi, ⟨⟨b, hb, hl⟩, _⟩, _⟩ := readVarint_eq_ok_iff_endsAt.1 h
      exact ⟨i, b, hi, hb, hl⟩
    · rintro ⟨i, b, hi, hb, hl⟩
      obtain ⟨j, hj, he⟩ := exists_endsAt hb hl
      exact ⟨_, _, readVarint_eq_ok_iff_endsAt.2 ⟨j, by omega, he, rfl, rfl⟩⟩
  value_iff _ _ := readVarint_eq_ok_iff_endsAt
  truncated_iff := by
    constructor
    · rintro ⟨stood, offset, needed, remaining, h⟩
      obtain ⟨_, ⟨hl, hb, _⟩ | ⟨_, _, he⟩⟩ := readVarint_eq_error_iff.1 h
      · exact ⟨hl, hb⟩
      · cases he
    · rintro ⟨hl, hb⟩
      exact ⟨c, _, _, _, readVarint_eq_error_iff.2 ⟨rfl, .inl ⟨hl, hb, rfl⟩⟩⟩
  malformed_iff := by
    constructor
    · rintro ⟨stood, offset, h⟩
      obtain ⟨_, ⟨_, _, he⟩ | ⟨hl, hb, _⟩⟩ := readVarint_eq_error_iff.1 h
      · cases he
      · exact ⟨hl, hb⟩
    · rintro ⟨hl, hb⟩
      exact ⟨c, _, readVarint_eq_error_iff.2 ⟨rfl, .inr ⟨hl, hb, rfl⟩⟩⟩
  stays _ h := (readVarint_eq_error_iff.1 h).1

theorem readVarint_encode {value : Nat} (h : value < 2 ^ 64) (offset : Nat) (rest : List UInt8) :
    readVarint ⟨offset, Varint.encode value ++ rest⟩ =
      .ok (value, ⟨offset + Varint.length value, rest⟩) :=
  readVarint_eq_ok_iff.2 ⟨_, denotes_encode h, rfl, by rw [length_encode h]⟩

theorem length_le_of_readVarint {c d : Cursor} {value : Nat} (h : c.readVarint = .ok (value, d)) :
    c.offset + Varint.length value ≤ d.offset := by
  obtain ⟨bytes, hb, hp⟩ := readVarint_eq_ok_iff.1 h
  rw [hp.2]
  exact Nat.add_le_add_left hb.length_le _

/-- A key that was written is read back if its field number is one that a key may have, and refused
for its number otherwise. -/
theorem readKey_encode {key : Key} (h : key.number < 2 ^ 32) (offset : Nat) (rest : List UInt8) :
    readKey ⟨offset, key.encode ++ rest⟩ =
      if 0 < key.number ∧ key.number ≤ Key.maxNumber then
        .ok (key, ⟨offset + Key.length key.number, rest⟩)
      else .error ⟨.invalidKey offset, ⟨offset + Key.length key.number, rest⟩⟩ := by
  have hw := key.wireType.toNat_lt
  have hlength : key.encode.length = Key.length key.number := Key.length_encode (by omega)
  have hlt : key.number * 8 + key.wireType.toNat < 2 ^ 64 := by omega
  have hp : Passes ⟨offset, key.encode ++ rest⟩ key.encode
      ⟨offset + Key.length key.number, rest⟩ := ⟨rfl, by rw [hlength]⟩
  split
  · next hn => exact readKey_eq_ok_iff.2 ⟨_, ⟨hn.1, hn.2, denotes_encode hlt⟩, hp⟩
  · next hn =>
    refine readKey_of_not_inRange (readVarint_eq_ok_iff.2 ⟨_, denotes_encode hlt, hp⟩) ?_
    rw [show (key.number * 8 + key.wireType.toNat) / 8 = key.number by omega]
    exact hn

/-- Varints and keys at any place, behind any bytes and in front of any others. What is written of a
64-bit number is read back, and nothing shorter is read as that number. -/
theorem varints_and_keys (c : Cursor) (v : UInt64) (n : UInt32) (wireType : WireType)
    (offset : Nat) (rest : List UInt8) :
    c.ReadsVarint ∧
    readVarint ⟨offset, Varint.encode v.toNat ++ rest⟩ =
      .ok (v.toNat, ⟨offset + Varint.length v.toNat, rest⟩) ∧
    (∀ d, c.readVarint = .ok (v.toNat, d) → c.offset + Varint.length v.toNat ≤ d.offset) ∧
    (Key.encode ⟨n.toNat, wireType⟩).length = Key.length n.toNat ∧
    readKey ⟨offset, Key.encode ⟨n.toNat, wireType⟩ ++ rest⟩ =
      if 1 ≤ n.toNat ∧ n.toNat ≤ 2 ^ 29 - 1 then
        .ok (⟨n.toNat, wireType⟩, ⟨offset + Key.length n.toNat, rest⟩)
      else .error ⟨.invalidKey offset, ⟨offset + Key.length n.toNat, rest⟩⟩ := by
  have hv := v.toNat_lt
  have hn := n.toNat_lt
  refine ⟨c.readsVarint, readVarint_encode hv offset rest, fun d => length_le_of_readVarint,
    Key.length_encode ?_, readKey_encode hn offset rest⟩
  show n.toNat * 8 < 2 ^ 64
  omega

end Cursor
end ReflectionError
