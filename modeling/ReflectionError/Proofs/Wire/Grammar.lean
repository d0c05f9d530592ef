import ReflectionError.Proofs.Wire.Cursor

/-!
# ReflectionError.Proofs.Wire.Grammar

The wire format as a grammar: the bytes of a value that is no group (`Plain`), of any value
(`Value`), of fields one after another (`Fields`) and of one field (`IsField`). A value has a depth:
0 if it is no group, else one more than that of the deepest field in the group.

* `Value.length_pos`, `Value.wireType_ne_endGroup`: what every value has.
* `IsField.mono`: a field within a limit is one within any larger limit.
-/

namespace ReflectionError
namespace Grammar

inductive Plain : WireType → List UInt8 → Prop where
  | varint {bytes : List UInt8} {n : Nat} : Varint.Denotes bytes n → Plain .varint bytes
  | fixed64 {bytes : List UInt8} : bytes.length = 8 → Plain .fixed64 bytes
  | lengthDelimited {header content : List UInt8} :
      Varint.Denotes header content.length → Plain .lengthDelimited (header ++ content)
  | fixed32 {bytes : List UInt8} : bytes.length = 4 → Plain .fixed32 bytes

mutual

/-- The value behind a key: a group ends with the end key of the same number. -/
inductive Value : Nat → Key → List UInt8 → Prop where
  | plain {key : Key} {bytes : List UInt8} : Plain key.wireType bytes → Value 0 key bytes
  | group {depth number : Nat} {inner footer : List UInt8} :
      Fields depth inner → Key.SpelledBy ⟨number, .endGroup⟩ footer →
      Value (depth + 1) ⟨number, .startGroup⟩ (inner ++ footer)

/-- Fields one after another. The depth is that of the deepest. -/
inductive Fields : Nat → List UInt8 → Prop where
  | nil : Fields 0 []
  | cons {key : Key} {depth depth' : Nat} {header value rest : List UInt8} :
      key.SpelledBy header → Value depth key value → Fields depth' rest →
      Fields (max depth depth') (header ++ value ++ rest)

end

theorem Plain.ne_endGroup {wireType : WireType} {bytes : List UInt8} (h : Plain wireType bytes) :
    wireType ≠ .endGroup := by
  cases h <;> decide

theorem Plain.ne_startGroup {wireType : WireType} {bytes : List UInt8} (h : Plain wireType bytes) :
    wireType ≠ .startGroup := by
  cases h <;> decide

theorem Value.wireType_ne_endGroup {depth : Nat} {key : Key} {value : List UInt8}
    (h : Value depth key value) : key.wireType ≠ .endGroup := by
  cases h with
  | plain hp => exact hp.ne_endGroup
  | group _ _ => simp

theorem Value.length_pos {depth : Nat} {key : Key} {value : List UInt8}
    (h : Value depth key value) : 0 < value.length := by
  cases h with
  | plain hp =>
    generalize key.wireType = wireType at hp
    cases hp with
    | varint hd => exact hd.length_pos
    | fixed64 hl => omega
    | lengthDelimited hd =>
      have := hd.length_pos
      rw [List.length_append]
      omega
    | fixed32 hl => omega
  | group _ hk =>
    have := hk.length_pos
    rw [List.length_append]
    omega

/-- `bytes` are a field, the first `keyLength` of them its key, and its depth is at most `limit`. -/
def IsField (limit : Nat) (key : Key) (keyLength : Nat) (bytes : List UInt8) : Prop :=
  ∃ depth header value, depth ≤ limit ∧ key.SpelledBy header ∧ Value depth key value ∧
    bytes = header ++ value ∧ keyLength = header.length

theorem IsField.mono {limit limit' keyLength : Nat} {key : Key} {bytes : List UInt8}
    (h : IsField limit key keyLength bytes) (hl : limit ≤ limit') :
    IsField limit' key keyLength bytes := by
  obtain ⟨depth, header, value, hd, h⟩ := h
  exact ⟨depth, header, value, Nat.le_trans hd hl, h⟩

theorem IsField.two_le_length {limit keyLength : Nat} {key : Key} {bytes : List UInt8}
    (h : IsField limit key keyLength bytes) : 2 ≤ bytes.length := by
  obtain ⟨depth, header, value, _, hk, hv, rfl, _⟩ := h
  have := hk.length_pos
  have := hv.length_pos
  rw [List.length_append]
  omega

theorem IsField.length_pos {limit keyLength : Nat} {key : Key} {bytes : List UInt8}
    (h : IsField limit key keyLength bytes) : 0 < bytes.length :=
  Nat.lt_of_lt_of_le Nat.two_pos h.two_le_length

end Grammar
end ReflectionError
