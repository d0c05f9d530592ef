import ReflectionError.Proofs.Reply.Sink
import ReflectionError.Reply.Stream

/-!
# ReflectionError.Proofs.Reply.Stream

Replies in the body of a gRPC call. What the transport does is said by `Framed`: in front of every
message stand a zero and its length in four bytes.

* `Framed.message`, `Framed.unique`: a stream of messages, and that it has no other messages.
* `sendMessage_eq_ok`, `encodeStream_eq_ok`: one reply that is sent, and a list of them.
* `decodeMessage_window`: one message that is received, and what is left behind it.
* `decodeStream_append`, `decode_cases`: messages that are decoded, and the first that is not.
* `decodeStream_eq_none_iff`, `decodeStream_eq_some_iff`: a list of messages.
* `codec_laws`: both sides, and the replies that come through.
-/

namespace ReflectionError
namespace Reply

/-! ## Messages in a stream -/

/-- A stream of messages: in front of each a zero, and its length with the highest byte first. -/
inductive Framed : List (List UInt8) → List UInt8 → Prop where
  | nil : Framed [] []
  | cons {body : List UInt8} {bodies : List (List UInt8)} {stream : List UInt8} (a b c d : UInt8)
      (length_eq :
        a.toNat * 0x1000000 + b.toNat * 0x10000 + c.toNat * 0x100 + d.toNat = body.length)
      (behind : Framed bodies stream) :
      Framed (body :: bodies) (0 :: a :: b :: c :: d :: (body ++ stream))

theorem Framed.message {body : List UInt8} {bodies : List (List UInt8)} {stream : List UInt8}
    (hl : body.length < 2 ^ 32) (h : Framed bodies stream) :
    Framed (body :: bodies) (streamHeader body.length ++ body ++ stream) := by
  rw [List.append_assoc]
  refine .cons _ _ _ _ ?_ h
  simp only [UInt8.toNat_ofNat']
  omega

theorem Framed.unique {bodies others : List (List UInt8)} {stream : List UInt8}
    (h : Framed bodies stream) (h' : Framed others stream) : others = bodies := by
  generalize hs : stream = s at h'
  induction h generalizing others s with
  | nil =>
    cases h' with
    | nil => rfl
    | cons a b c d _ _ => cases hs
  | cons a b c d hl _ ih =>
    cases h' with
    | nil => cases hs
    | cons a' b' c' d' hl' behind' =>
      simp only [List.cons.injEq, true_and] at hs
      obtain ⟨rfl, rfl, rfl, rfl, hs⟩ := hs
      obtain ⟨rfl, rfl⟩ := List.append_inj hs (hl.symm.trans hl')
      rw [ih _ rfl behind']

/-! ## Sending -/

theorem length_encode_of_lt {m : Reply} (h : m.encode.length < 2 ^ 32) :
    m.encode.length = m.encodedLength :=
  length_encode (Nat.lt_of_le_of_lt m.text_size_le_length (by omega))

theorem sendMessage_eq_ok {held : List UInt8} {m : Reply} (hh : held.length < 2 ^ 63)
    (hm : m.encode.length < 2 ^ 32) :
    sendMessage held m = .ok (streamHeader m.encode.length ++ m.encode) := by
  have hroom : ¬ growingRoom (held ++ streamHeader 0).length < m.encodedLength := by
    have hheader : (streamHeader 0).length = 5 := rfl
    have hsize : UInt64.size = 2 ^ 64 := rfl
    rw [← length_encode_of_lt hm, List.length_append, hheader, growingRoom, hsize]
    omega
  have hput : m.encodeMessage (held ++ streamHeader 0) =
      .ok (held ++ streamHeader 0 ++ m.encode) := by
    rw [encodeMessage, encodeOnto, if_neg hroom]
    rfl
  rw [sendMessage, hput, ← List.length_append]
  simp [Except.map]

theorem encodeStream_eq_ok {held : List UInt8 → List UInt8}
    (hh : ∀ sent, (held sent).length < 2 ^ 63) {ms : List Reply}
    (hm : ∀ m ∈ ms, m.encode.length < 2 ^ 32) (sent : List UInt8) :
    encodeStream held sent ms =
      .ok (sent ++ ms.flatMap fun m => streamHeader m.encode.length ++ m.encode) := by
  induction ms generalizing sent with
  | nil => rw [encodeStream, List.flatMap_nil, List.append_nil]
  | cons m ms ih =>
    have hfirst := sendMessage_eq_ok (hh sent) (hm m (List.mem_cons_self ..))
    have hrest := ih fun m h => hm m (List.mem_cons_of_mem _ h)
    simp only [encodeStream, hfirst, hrest, List.flatMap_cons, List.append_assoc]

theorem framed_messages {ms : List Reply} (hm : ∀ m ∈ ms, m.encode.length < 2 ^ 32) :
    Framed (ms.map encode) (ms.flatMap fun m => streamHeader m.encode.length ++ m.encode) := by
  induction ms with
  | nil => exact .nil
  | cons m ms ih =>
    rw [List.map_cons, List.flatMap_cons]
    exact .message (hm m (List.mem_cons_self ..)) (ih fun m h => hm m (List.mem_cons_of_mem _ h))

/-! ## Receiving -/

/-- A message is decoded as a payload is, and all of it is taken, whatever stands behind it. -/
theorem decodeMessage_window (o : Options) (body rest : List UInt8) :
    decodeMessage o ⟨body ++ rest, body.length⟩ =
      ((decode body o).mapError decodeFailure, ⟨rest, 0⟩) := by
  simp [decodeMessage, Window.take]

theorem decodeMessage_whole (o : Options) (body : List UInt8) :
    decodeMessage o ⟨body, body.length⟩ = ((decode body o).mapError decodeFailure, ⟨[], 0⟩) := by
  have h := decodeMessage_window o body []
  rwa [List.append_nil] at h

section Cons

variable {o : Options} {body : List UInt8} (bodies : List (List UInt8))

theorem decodeStream_cons_ok {r : Reply} (h : decode body o = .ok r) :
    decodeStream o (body :: bodies) =
      (r :: (decodeStream o bodies).1, (decodeStream o bodies).2) := by
  rw [decodeStream, decodeMessage_whole, h]
  rfl

theorem decodeStream_cons_error {e : DecodeError} (h : decode body o = .error e) :
    decodeStream o (body :: bodies) = ([], some (decodeFailure e)) := by
  rw [decodeStream, decodeMessage_whole, h]
  rfl

end Cons

theorem decodeStream_append {o : Options} {front : List (List UInt8)} {replies : List Reply}
    (h : front.map (decode · o) = replies.map .ok) (bodies : List (List UInt8)) :
    decodeStream o (front ++ bodies) =
      (replies ++ (decodeStream o bodies).1, (decodeStream o bodies).2) := by
  induction front generalizing replies with
  | nil =>
    obtain rfl : replies = [] := List.map_eq_nil_iff.1 h.symm
    rfl
  | cons body front ih =>
    cases replies with
    | nil => cases h
    | cons r replies =>
      rw [List.map_cons, List.map_cons, List.cons.injEq] at h
      rw [List.cons_append, decodeStream_cons_ok _ h.1, ih h.2]
      rfl

theorem decodeStream_of_ok {o : Options} {bodies : List (List UInt8)} {replies : List Reply}
    (h : bodies.map (decode · o) = replies.map .ok) : decodeStream o bodies = (replies, none) := by
  have ha := decodeStream_append h []
  rwa [List.append_nil, decodeStream, List.append_nil] at ha

theorem decodeStream_of_error {o : Options} {front back : List (List UInt8)} {body : List UInt8}
    {replies : List Reply} {e : DecodeError} (hf : front.map (decode · o) = replies.map .ok)
    (he : decode body o = .error e) :
    decodeStream o (front ++ body :: back) = (replies, some (decodeFailure e)) := by
  rw [decodeStream_append hf, decodeStream_cons_error back he, List.append_nil]

/-- Either all messages are decoded, or there is a first one that is not. -/
theorem decode_cases (o : Options) (bodies : List (List UInt8)) :
    (∃ replies : List Reply, bodies.map (decode · o) = replies.map .ok) ∨
    ∃ front body back e, ∃ replies : List Reply, bodies = front ++ body :: back ∧
      front.map (decode · o) = replies.map .ok ∧ decode body o = .error e := by
  induction bodies with
  | nil => exact .inl ⟨[], rfl⟩
  | cons body bodies ih =>
    cases h : decode body o with
    | error e => exact .inr ⟨[], body, bodies, e, [], rfl, rfl, h⟩
    | ok r =>
      rcases ih with ⟨replies, hs⟩ | ⟨front, body', back, e, replies, rfl, hf, he⟩
      · exact .inl ⟨r :: replies, by rw [List.map_cons, h, hs]; rfl⟩
      · exact .inr ⟨body :: front, body', back, e, r :: replies, rfl,
          by rw [List.map_cons, h, hf]; rfl, he⟩

theorem decodeStream_eq_none_iff {o : Options} {bodies : List (List UInt8)} {replies : List Reply} :
    decodeStream o bodies = (replies, none) ↔ bodies.map (decode · o) = replies.map .ok := by
  refine ⟨fun h => ?_, decodeStream_of_ok⟩
  rcases decode_cases o bodies with ⟨replies', hs⟩ | ⟨front, body, back, e, replies', rfl, hf, he⟩
  · rw [decodeStream_of_ok hs] at h
    cases h
    exact hs
  · rw [decodeStream_of_error hf he] at h
    cases h

theorem decodeStream_eq_some_iff {o : Options} {bodies : List (List UInt8)} {replies : List Reply}
    {status : Status} :
    decodeStream o bodies = (replies, some status) ↔
      ∃ front body back e, bodies = front ++ body :: back ∧
        front.map (decode · o) = replies.map .ok ∧ decode body o = .error e ∧
        status = decodeFailure e := by
  constructor
  · intro h
    rcases decode_cases o bodies with ⟨replies', hs⟩ | ⟨front, body, back, e, replies', rfl, hf, he⟩
    · rw [decodeStream_of_ok hs] at h
      cases h
    · rw [decodeStream_of_error hf he] at h
      cases h
      exact ⟨front, body, back, e, rfl, hf, he, rfl⟩
  · rintro ⟨front, body, back, e, rfl, hf, he, rfl⟩
    exact decodeStream_of_error hf he

theorem decode_nil (o : Options) : decode [] o = .ok {} := by
  have ha : o.checkSize 0 = .ok () := Options.checkSize_eq_ok_iff.2 fun _ _ => Nat.zero_le _
  rw [decode, mergeWith, List.length_nil, ha]
  simp only
  rw [decodeFields]
  rfl

/-! ## The codec -/

/-- A list of replies is sent as one stream of their messages. A list of messages is received as the
replies that they are decoded as, up to the first that is none; each is taken whole. So replies that
came out of payloads are received as they were sent. -/
theorem codec_laws (o : Options) (held : List UInt8 → List UInt8)
    (hh : ∀ sent, (held sent).length < 2 ^ 63) :
    (∀ ms : List Reply, (∀ m ∈ ms, m.encode.length < 2 ^ 32) →
      ∃ stream, encodeStream held [] ms = .ok stream ∧
        stream = ms.flatMap (fun m => 0 :: (bigEndian32 m.encode.length ++ m.encode)) ∧
        ∀ bodies, Framed bodies stream ↔ bodies = ms.map encode) ∧
    (∀ body rest, decodeMessage o ⟨body ++ rest, body.length⟩ =
      ((decode body o).mapError decodeFailure, ⟨rest, 0⟩)) ∧
    decode [] o = .ok {} ∧
    (∀ bodies replies, decodeStream o bodies = (replies, none) ↔
      bodies.map (decode · o) = replies.map .ok) ∧
    (∀ bodies replies status, decodeStream o bodies = (replies, some status) ↔
      ∃ front body back e, bodies = front ++ body :: back ∧
        front.map (decode · o) = replies.map .ok ∧ decode body o = .error e ∧
        status = ⟨.internal, "Failed to decode ErrorResponse: " ++ e.message⟩) ∧
    (∀ ms : List Reply, (∀ m ∈ ms, m.FromWire o.nestingLimit) →
      (∀ m ∈ ms, o.Admits m.encodedLength) → (∀ m ∈ ms, m.encode.length < 2 ^ 32) →
      ∃ stream, encodeStream held [] ms = .ok stream ∧
        ∀ bodies, Framed bodies stream → decodeStream o bodies = (ms, none)) := by
  have hsend {ms : List Reply} (hm : ∀ m ∈ ms, m.encode.length < 2 ^ 32) :=
    encodeStream_eq_ok hh hm []
  refine ⟨fun ms hm => ⟨_, hsend hm, rfl, fun bodies => ?_⟩, decodeMessage_window o, decode_nil o,
    fun _ _ => decodeStream_eq_none_iff, fun _ _ _ => decodeStream_eq_some_iff,
    fun ms hw ha hm => ⟨_, hsend hm, fun bodies hb => ?_⟩⟩
  · constructor
    · exact (framed_messages hm).unique
    · rintro rfl
      exact framed_messages hm
  · rw [(framed_messages hm).unique hb, decodeStream_eq_none_iff, List.map_map]
    apply List.map_congr_left
    intro m hmem
    exact (hw m hmem).decode_encode (Nat.le_refl _) (ha m hmem)

/-- An empty message stands between two others; the last of three more is no reply. -/
theorem codec_around_empty :
    let m : Reply := { text := "é", unknown := [nestedGroup] }
    let o : Options := { nestingLimit := 2, sizeLimit := some 11 }
    let ms : List Reply := [{ code := -1 }, {}, m]
    (∃ stream, encodeStream (fun sent => sent.drop (sent.length - 7)) [] ms = .ok stream ∧
      ∀ bodies, Framed bodies stream → decodeStream o bodies = (ms, none)) ∧
    decodeStream o [[0x08, 0x05], [], [0x12, 0x05, 0x61]] =
      ([{ code := 5 }, {}], some ⟨.internal, "Failed to decode ErrorResponse: " ++
        "Truncated input at offset 2: needed 5 byte(s) but only 1 remain"⟩) := by
  intro m o ms
  have hu : ∀ r ∈ ms, ∀ u ∈ r.unknown, u = nestedGroup := by decide
  have hl : ∀ r ∈ ms, r.encodedLength ≤ 11 := by decide +kernel
  have he : ∀ r ∈ ms, r.encode.length ≤ 11 := by decide +kernel
  have hw : ∀ r ∈ ms, r.FromWire 2 := by
    intro r hr
    exact .of_nestedGroup (hu r hr) (Nat.lt_of_le_of_lt (hl r hr) (by decide))
  have ha : ∀ r ∈ ms, o.Admits r.encodedLength := by
    intro r hr limit h
    cases h
    exact hl r hr
  have hheld : ∀ sent : List UInt8, (sent.drop (sent.length - 7)).length < 2 ^ 63 := by
    intro sent
    rw [List.length_drop]
    omega
  have h5 : [[0x08, 0x05], []].map (decode · o) = [{ code := 5 }, {}].map .ok := by
    decide +kernel
  have hcut : decode [0x12, 0x05, 0x61] o = .error (.truncatedInput 2 5 1) := by decide +kernel
  obtain ⟨_, _, _, _, hstop, hcodec⟩ := codec_laws o _ hheld
  exact ⟨hcodec ms hw ha fun r hr => Nat.lt_of_le_of_lt (he r hr) (by decide),
    (hstop _ _ _).2 ⟨[[0x08, 0x05], []], _, [], _, rfl, h5, hcut, rfl⟩⟩

end Reply
end ReflectionError
