import ReflectionError.Proofs.Wire.Varint
import ReflectionError.Wire.Cursor

/-!
# ReflectionError.Proofs.Wire.Cursor

When a read succeeds and what it takes. `Passes c bytes d` says that `bytes` stand at `c` and `d` is
the place behind them. Each read succeeds exactly on bytes of its own shape, and nothing behind them
is looked at.

* `readVarint_eq_ok_iff`, `readKey_eq_ok_iff`, `readBytes_eq_ok_iff`,
  `readLengthDelimited_eq_ok_iff`: one for each read.
* `WireType.ofNat?_eq_some_iff`: the numbers of the wire types.
-/

namespace ReflectionError

theorem WireType.ofNat?_eq_some_iff {n : Nat} {wireType : WireType} :
    WireType.ofNat? n = some wireType ↔ n = wireType.toNat := by
  constructor
  · intro h
    unfold ofNat? at h
    split at h <;> cases h <;> rfl
  · rintro rfl
    cases wireType <;> rfl

theorem WireType.ofNat?_eq_none_iff {n : Nat} : WireType.ofNat? n = none ↔ 5 < n := by
  constructor
  · intro h
    by_contra hn
    have hle : n ≤ 5 := Nat.not_lt.1 hn
    interval_cases n <;> cases h
  · intro h
    unfold ofNat?
    split
    case h_7 => rfl
    all_goals omega

theorem WireType.toNat_lt (wireType : WireType) : wireType.toNat < 8 := by
  cases wireType <;> decide

/-- `bytes` are a varint that holds `key`, and the field number is one that a reader accepts. -/
def Key.SpelledBy (key : Key) (bytes : List UInt8) : Prop :=
  0 < key.number ∧ key.number ≤ maxNumber ∧
    Varint.Denotes bytes (key.number * 8 + key.wireType.toNat)

theorem Key.SpelledBy.length_pos {key : Key} {bytes : List UInt8} (h : key.SpelledBy bytes) :
    0 < bytes.length :=
  h.2.2.length_pos

namespace Cursor

/-- `bytes` stand at `c`, and `d` is the place behind them. -/
def Passes (c : Cursor) (bytes : List UInt8) (d : Cursor) : Prop :=
  c.rest = bytes ++ d.rest ∧ d.offset = c.offset + bytes.length

namespace Passes

theorem refl (c : Cursor) : c.Passes [] c := ⟨rfl, rfl⟩

theorem trans {c d e : Cursor} {front back : List UInt8} (h₁ : c.Passes front d)
    (h₂ : d.Passes back e) : c.Passes (front ++ back) e := by
  refine ⟨by rw [h₁.1, h₂.1, List.append_assoc], ?_⟩
  rw [h₂.2, h₁.2, List.length_append, Nat.add_assoc]

theorem split {c e : Cursor} {front back : List UInt8} (h : c.Passes (front ++ back) e) :
    ∃ d, c.Passes front d ∧ d.Passes back e := by
  refine ⟨⟨c.offset + front.length, back ++ e.rest⟩, ⟨?_, rfl⟩, rfl, ?_⟩
  · rw [h.1, List.append_assoc]
  · rw [h.2, List.length_append, Nat.add_assoc]

theorem upTo_eq {c d : Cursor} {bytes : List UInt8} (h : c.Passes bytes d) : c.upTo d = bytes := by
  rw [upTo, h.1, h.2, Nat.add_sub_cancel_left, List.take_left]

theorem eq_advance {c d : Cursor} {bytes : List UInt8} (h : c.Passes bytes d) :
    d = c.advance bytes.length := by
  rw [advance, h.1, List.drop_left, ← h.2]

theorem offset_le {c d : Cursor} {bytes : List UInt8} (h : c.Passes bytes d) :
    c.offset ≤ d.offset := by
  rw [h.2]
  exact Nat.le_add_right ..

theorem bytes_unique {c d : Cursor} {bytes bytes' : List UInt8} (h : c.Passes bytes d)
    (h' : c.Passes bytes' d) : bytes = bytes' :=
  h.upTo_eq.symm.trans h'.upTo_eq

end Passes

theorem passes_advance {c : Cursor} {n : Nat} (h : n ≤ c.rest.length) :
    c.Passes (c.rest.take n) (c.advance n) := by
  refine ⟨(List.take_append_drop n c.rest).symm, ?_⟩
  rw [advance, List.length_take, Nat.min_eq_left h]

theorem passes_start (bytes rest : List UInt8) :
    (start (bytes ++ rest)).Passes bytes ⟨bytes.length, rest⟩ :=
  ⟨rfl, (Nat.zero_add _).symm⟩

theorem readVarint_eq_ok_iff {c d : Cursor} {value : Nat} :
    c.readVarint = .ok (value, d) ↔ ∃ bytes, Varint.Denotes bytes value ∧ c.Passes bytes d := by
  constructor
  · intro h
    unfold readVarint at h
    split at h
    · next n length hs =>
      simp only [Except.ok.injEq, Prod.mk.injEq] at h
      obtain ⟨hn, hl, hr⟩ := Varint.spells_of_scan hs
      refine ⟨c.rest.take length, ⟨n, hn, ?_, h.1⟩, h.2 ▸ passes_advance hr⟩
      rw [List.length_take]
      omega
    · cases h
    · cases h
  · rintro ⟨bytes, ⟨n, hn, hl, rfl⟩, hp⟩
    rw [readVarint, hp.1, Varint.scan_append hn d.rest hl, hp.eq_advance]
    rfl

theorem readKey_eq_ok_iff {c d : Cursor} {key : Key} :
    c.readKey = .ok (key, d) ↔ ∃ bytes, key.SpelledBy bytes ∧ c.Passes bytes d := by
  constructor
  · intro h
    unfold readKey at h
    split at h
    · cases h
    · next value behind hv =>
      obtain ⟨bytes, hb, hp⟩ := readVarint_eq_ok_iff.1 hv
      split at h
      · cases h
      · next hr =>
        simp only [Bool.or_eq_true, decide_eq_true_eq, not_or, Nat.not_lt] at hr
        split at h
        · next wireType hw =>
          cases h
          refine ⟨bytes, ⟨Nat.pos_of_ne_zero hr.1, hr.2, ?_⟩, hp⟩
          rw [← WireType.ofNat?_eq_some_iff.1 hw, Nat.div_add_mod' value 8]
          exact hb
        · cases h
  · rintro ⟨bytes, ⟨hpos, hmax, hb⟩, hp⟩
    have hv := readVarint_eq_ok_iff.2 ⟨bytes, hb, hp⟩
    have hw := key.wireType.toNat_lt
    have hn : (key.number * 8 + key.wireType.toNat) / 8 = key.number := by omega
    have hm : (key.number * 8 + key.wireType.toNat) % 8 = key.wireType.toNat := by omega
    rw [readKey, hv]
    simp only [hn, hm, WireType.ofNat?_eq_some_iff.2 rfl]
    rw [if_neg (by simp; omega)]

theorem readBytes_eq_ok_iff {c d : Cursor} {length : Nat} {bytes : List UInt8} :
    c.readBytes length = .ok (bytes, d) ↔ bytes.length = length ∧ c.Passes bytes d := by
  constructor
  · intro h
    unfold readBytes at h
    split at h
    · cases h
    · next hl =>
      cases h
      refine ⟨?_, passes_advance (by omega)⟩
      rw [List.length_take]
      omega
  · rintro ⟨rfl, hp⟩
    rw [readBytes, if_neg, ← hp.eq_advance, hp.1, List.take_left]
    rw [hp.1, List.length_append]
    omega

theorem readLengthDelimited_eq_ok_iff {c d : Cursor} {content : List UInt8} :
    c.readLengthDelimited = .ok (content, d) ↔
      ∃ header, Varint.Denotes header content.length ∧ c.Passes (header ++ content) d := by
  constructor
  · intro h
    unfold readLengthDelimited at h
    split at h
    · cases h
    · next length behind hv =>
      obtain ⟨header, hh, hp⟩ := readVarint_eq_ok_iff.1 hv
      obtain ⟨rfl, hc⟩ := readBytes_eq_ok_iff.1 h
      exact ⟨header, hh, hp.trans hc⟩
  · rintro ⟨header, hh, hp⟩
    obtain ⟨behind, hp, hc⟩ := hp.split
    rw [readLengthDelimited, readVarint_eq_ok_iff.2 ⟨header, hh, hp⟩]
    exact readBytes_eq_ok_iff.2 ⟨rfl, hc⟩

end Cursor
end ReflectionError
