import ReflectionError.Proofs.Reply.RoundTrip
import ReflectionError.Proofs.Status

/-!
# ReflectionError.Proofs.Reply.Status

Replies as statuses, and statuses as replies.

* `Code.int32_cases`: a number of 32 bits is the number of a code, or is not from 0 to 16.
* `toStatus_ofStatus`: a status is kept by a reply.
* `decode_encode_ofStatus`: and by its bytes.
* `ofStatus_toStatus`: what a status keeps of a reply.
* `status_and_back`: both ways, the labels of the numbers, and the way through bytes.
-/

namespace ReflectionError

namespace Code

/-- The number is that of a code. -/
def IsCanonical (n : Int32) : Prop := 0 ≤ n.toInt ∧ n.toInt ≤ 16

instance (n : Int32) : Decidable (IsCanonical n) :=
  inferInstanceAs (Decidable (0 ≤ n.toInt ∧ n.toInt ≤ 16))

theorem isCanonical_toInt32 (c : Code) : IsCanonical c.toInt32 := by
  have hle := c.toNat_le
  rw [IsCanonical, toInt_toInt32]
  omega

theorem ofInt32_toInt32 (c : Code) : ofInt32 c.toInt32 = c := by
  cases c <;> rfl

theorem describe_toInt32 (c : Code) : describe c.toInt32 = c.name := by
  cases c <;> rfl

theorem name_ne (c : Code) : c.name ≠ "non-canonical" := by
  cases c <;> decide

theorem int32_cases (n : Int32) : (∃ c : Code, n = c.toInt32) ∨ ¬ IsCanonical n := by
  by_cases h : IsCanonical n
  · obtain ⟨hlow, hhigh⟩ := h
    have hlt : n.toInt.toNat < all.length := by
      have hlength : all.length = 17 := rfl
      omega
    have hcode : n.toInt.toNat = all[n.toInt.toNat].toNat :=
      ofNat?_eq_some_iff.1 (List.getElem?_eq_getElem hlt)
    refine .inl ⟨all[n.toInt.toNat], Int32.toInt_inj.1 ?_⟩
    rw [toInt_toInt32, ← hcode, Int.toNat_of_nonneg hlow]
  · exact .inr h

theorem ofNat?_of_not_isCanonical {n : Int32} (h : ¬ IsCanonical n) (hn : ¬ n.toInt < 0) :
    ofNat? n.toInt.toNat = none := by
  cases hc : ofNat? n.toInt.toNat with
  | none => rfl
  | some c =>
    have hle := c.toNat_le
    have hnumber := ofNat?_eq_some_iff.1 hc
    refine absurd ?_ h
    constructor
    · omega
    · omega

theorem ofInt32_of_not_isCanonical {n : Int32} (h : ¬ IsCanonical n) : ofInt32 n = .unknown := by
  rw [ofInt32]
  split
  · rfl
  · next hn =>
    rw [ofNat?_of_not_isCanonical h hn]
    rfl

theorem describe_of_not_isCanonical {n : Int32} (h : ¬ IsCanonical n) :
    describe n = "non-canonical" := by
  rw [describe]
  split
  · rfl
  · next hn => rw [ofNat?_of_not_isCanonical h hn]

end Code

namespace Reply

theorem toStatus_ofStatus (s : Status) : (ofStatus s).toStatus = s := by
  obtain ⟨code, message⟩ := s
  exact congrArg (Status.mk · message) code.ofInt32_toInt32

theorem decode_encode_ofStatus {s : Status} (h : s.message.utf8ByteSize < 2 ^ 64) :
    decode (ofStatus s).encode {} = .ok (ofStatus s) := by
  have hadmits := Options.admits_of_no_limit (o := {}) rfl (ofStatus s).encodedLength
  have hmerge : ({} : Reply).mergeWith (ofStatus s).encode {} = .ok (mergeFrom {} (ofStatus s)) :=
    mergeWith_encode h nofun nofun hadmits
  rw [decode, hmerge, default_mergeFrom]

theorem statusCode_of_code {m : Reply} {c : Code} (h : m.code = c.toInt32) : m.statusCode = c := by
  rw [statusCode, h, Code.ofInt32_toInt32]

/-- A status keeps the text of a reply and its code, if that is one, and takes it for unknown
otherwise. -/
theorem ofStatus_toStatus (m : Reply) :
    ofStatus m.toStatus = new (if Code.IsCanonical m.code then m.code else 2) m.text := by
  rcases Code.int32_cases m.code with ⟨c, hc⟩ | h
  · rw [ofStatus, toStatus, ofCode, statusCode_of_code hc, hc, if_pos c.isCanonical_toInt32]
  · have hcode : m.statusCode = .unknown := Code.ofInt32_of_not_isCanonical h
    rw [ofStatus, toStatus, ofCode, hcode, if_neg h]
    rfl

/-- The way of a reply to a status and back drops its undeclared fields and makes any number 2 that
is not from 0 to 16. A second time it changes nothing. The number that comes back has the name of
the reply's code for its label, and the reply's own number has so only if it is from 0 to 16. A
status whose text is in memory comes back from the bytes of its reply. -/
theorem status_and_back (m : Reply) :
    ofStatus m.toStatus =
        { code := if 0 ≤ m.code.toInt ∧ m.code.toInt ≤ 16 then m.code else 2
          text := m.text
          unknown := [] } ∧
      ofStatus (ofStatus m.toStatus).toStatus = ofStatus m.toStatus ∧
      Code.describe (ofStatus m.toStatus).code = m.statusCode.name ∧
      (Code.describe m.code = m.statusCode.name ↔ 0 ≤ m.code.toInt ∧ m.code.toInt ≤ 16) ∧
      (¬ (0 ≤ m.code.toInt ∧ m.code.toInt ≤ 16) → Code.describe m.code = "non-canonical") ∧
      ∀ s : Status, s.message.utf8ByteSize < 2 ^ 64 →
        ∃ r, decode (ofStatus s).encode {} = .ok r ∧ r.toStatus = s := by
  refine ⟨ofStatus_toStatus m, by rw [toStatus_ofStatus], Code.describe_toInt32 m.statusCode, ?_,
    Code.describe_of_not_isCanonical, fun s hs => ?_⟩
  · rcases Code.int32_cases m.code with ⟨c, hc⟩ | h
    · rw [statusCode_of_code hc, hc, Code.describe_toInt32]
      exact iff_of_true rfl c.isCanonical_toInt32
    · rw [Code.describe_of_not_isCanonical h]
      exact iff_of_false (Code.name_ne m.statusCode).symm h
  · exact ⟨ofStatus s, decode_encode_ofStatus hs, toStatus_ofStatus s⟩

/-- The lowest number and an undeclared field, a number that has a name, the status that is encoded
as no bytes at all, and one with a code and a text. -/
theorem status_and_back_lowest_code :
    let m : Reply := { code := -2147483648, text := "é", unknown := [nestedGroup] }
    let named : Reply := { code := 5, text := "no such record" }
    ofStatus m.toStatus = new 2 "é" ∧ ¬ (0 ≤ m.code.toInt ∧ m.code.toInt ≤ 16) ∧
      Code.describe (ofStatus m.toStatus).code = "UNKNOWN" ∧
      Code.describe m.code = "non-canonical" ∧
      ofStatus named.toStatus = named ∧ Code.describe named.code = "NOT_FOUND" ∧
      ∀ s ∈ [(⟨.ok, ""⟩ : Status), ⟨.notFound, "no such record"⟩],
        s.message.utf8ByteSize < 2 ^ 64 ∧
          ∃ r, decode (ofStatus s).encode {} = .ok r ∧ r.toStatus = s := by
  intro m named
  have hcode : ¬ (0 ≤ m.code.toInt ∧ m.code.toInt ≤ 16) := by decide
  have hnamed : 0 ≤ named.code.toInt ∧ named.code.toInt ≤ 16 := by decide
  have hsize : ∀ s ∈ [(⟨.ok, ""⟩ : Status), ⟨.notFound, "no such record"⟩],
      s.message.utf8ByteSize < 2 ^ 64 := by decide
  obtain ⟨hback, -, hunknown, -, hlabel, -⟩ := status_and_back m
  obtain ⟨hsame, -, -, hname, -, hbytes⟩ := status_and_back named
  rw [if_neg hcode] at hback
  rw [if_pos hnamed] at hsame
  exact ⟨hback, hcode, hunknown, hlabel hcode, hsame, hname.2 hnamed,
    fun s hs => ⟨hsize s hs, hbytes s (hsize s hs)⟩⟩

end Reply
end ReflectionError
