import ReflectionError.Proofs.Reply.RoundTrip
import ReflectionError.Proofs.Wire.Cut

/-!
# ReflectionError.Proofs.Reply.Frames

Replies on a stream, each behind its length. A frame is read from the front of the stream, which
then begins behind it; a frame that cannot be read is left where it is. `takeFrames` reads so many
frames in turn.

* `readFrames_eq_takeFrames`: reading until the end is reading so many frames in turn.
* `takeFrame_frame`, `takeFrame_eq_ok_iff`: one frame of any bytes, whatever stands behind it.
* `takeFrames_ends`: reading frames comes to an end.
* `takeFrame_take`: a frame that is cut off.
* `takeFrame_laws`: what reading a frame does to any stream.
* `decodeDelimited_encodeDelimited`: the frame that a reply is written as.
* `takeFrames_encodeDelimited`: all frames, in order, and nothing of what stands behind them.
-/

namespace ReflectionError
namespace Reply

/-- What reading a frame from the front of a stream gives, and the stream after it. -/
def takeFrame (o : Options) (stream : List UInt8) : Except DecodeError Reply × List UInt8 :=
  match decodeDelimited stream o with
  | .ok (r, rest) => (.ok r, rest)
  | .error e => (.error e, stream)

/-- What reading so many frames in turn gives, and the stream after the last of them. -/
def takeFrames (o : Options) : Nat → List UInt8 → List (Except DecodeError Reply) × List UInt8
  | 0, stream => ([], stream)
  | count + 1, stream =>
    ((takeFrame o stream).1 :: (takeFrames o count (takeFrame o stream).2).1,
      (takeFrames o count (takeFrame o stream).2).2)

/-- Reading frames until nothing is left or one fails is reading so many frames in turn. -/
theorem readFrames_eq_takeFrames (o : Options) (stream : List UInt8) :
    (readFrames stream o).map Prod.fst = (takeFrames o (readFrames stream o).length stream).1 := by
  fun_induction readFrames stream o with
  | case1 stream e h => simp [takeFrames, takeFrame, h]
  | case2 stream r rest h ih =>
    have hf : takeFrame o stream = (.ok r, rest) := by rw [takeFrame, h]
    rw [List.map_cons, List.length_cons, takeFrames, hf]
    split
    · rfl
    · rw [ih]

/-! ## Frames of any bytes -/

theorem decodeDelimited_frame (o : Options) {header body : List UInt8}
    (h : Varint.Denotes header body.length) (rest : List UInt8) :
    decodeDelimited (header ++ body ++ rest) o = (decode body o).map fun r => (r, rest) := by
  have hp := Cursor.passes_start (header ++ body) rest
  rw [decodeDelimited, Cursor.readLengthDelimited_eq_ok_iff.2 ⟨header, h, hp⟩]

theorem takeFrame_frame (o : Options) {header body : List UInt8}
    (h : Varint.Denotes header body.length) (rest : List UInt8) :
    takeFrame o (header ++ body ++ rest) =
      match decode body o with
      | .ok m => (.ok m, rest)
      | .error e => (.error e, header ++ body ++ rest) := by
  rw [takeFrame, decodeDelimited_frame o h]
  cases decode body o <;> rfl

theorem takeFrame_of_error {o : Options} {stream : List UInt8} {e : DecodeError}
    (h : (takeFrame o stream).1 = .error e) : (takeFrame o stream).2 = stream := by
  unfold takeFrame at h ⊢
  split
  · next hd =>
    rw [hd] at h
    cases h
  · rfl

theorem takeFrame_eq_ok_iff {o : Options} {stream rest : List UInt8} {m : Reply} :
    takeFrame o stream = (.ok m, rest) ↔
      ∃ header body, Varint.Denotes header body.length ∧ stream = header ++ body ++ rest ∧
        decode body o = .ok m := by
  constructor
  · intro h
    unfold takeFrame decodeDelimited at h
    cases hr : (Cursor.start stream).readLengthDelimited with
    | error failure =>
      rw [hr] at h
      cases h
    | ok r =>
      obtain ⟨body, next⟩ := r
      obtain ⟨header, hh, hp⟩ := Cursor.readLengthDelimited_eq_ok_iff.1 hr
      simp only [hr] at h
      cases hd : decode body o with
      | error e =>
        rw [hd] at h
        cases h
      | ok m =>
        rw [hd] at h
        cases h
        exact ⟨header, body, hh, hp.1, hd⟩
  · rintro ⟨header, body, hh, rfl, hd⟩
    rw [takeFrame_frame o hh, hd]

/-- The size limit is looked at before a payload is read, and for nothing else. -/
theorem decode_eq_checkSize (payload : List UInt8) (o : Options) :
    decode payload o =
      (o.checkSize payload.length).bind fun _ => decode payload { o with sizeLimit := none } := by
  rw [decode, decode, mergeWith_eq_map, mergeWith_eq_map, acceptFields, acceptFields]
  cases o.checkSize payload.length <;> rfl

theorem length_lt_of_takeFrame {o : Options} {stream rest : List UInt8} {m : Reply}
    (h : takeFrame o stream = (.ok m, rest)) : rest.length < stream.length := by
  obtain ⟨header, body, hh, rfl, _⟩ := takeFrame_eq_ok_iff.1 h
  have := hh.length_pos
  simp only [List.length_append]
  omega

/-- By induction on the stream, which each frame that is read makes shorter. -/
theorem takeFrames_ends (o : Options) (stream : List UInt8) :
    ∃ count ≤ stream.length,
      (∀ x ∈ (takeFrames o count stream).1, ∃ m, x = .ok m) ∧
      ((takeFrames o count stream).2 = [] ∨
        ∃ e, (takeFrame o (takeFrames o count stream).2).1 = .error e) := by
  fun_induction readFrames stream o with
  | case1 stream e h =>
    have hf : takeFrame o stream = (.error e, stream) := by rw [takeFrame, h]
    exact ⟨0, Nat.zero_le _, nofun, .inr ⟨e, congrArg Prod.fst hf⟩⟩
  | case2 stream r rest h ih =>
    have hf : takeFrame o stream = (.ok r, rest) := by rw [takeFrame, h]
    obtain ⟨count, hc, hok, hend⟩ := ih
    have hl := length_lt_of_takeFrame hf
    refine ⟨count + 1, by omega, ?_, ?_⟩
    · rw [takeFrames, hf]
      intro x hx
      rcases List.mem_cons.1 hx with rfl | hx
      · exact ⟨r, rfl⟩
      · exact hok x hx
    · rw [takeFrames, hf]
      exact hend

theorem takeFrame_take {o : Options} {stream : List UInt8} {m : Reply}
    (h : takeFrame o stream = (.ok m, [])) {k : Nat} (hk : k < stream.length) :
    ∃ e, e.IsTruncation ∧ takeFrame o (stream.take k) = (.error e, stream.take k) := by
  obtain ⟨header, body, hh, hs, _⟩ := takeFrame_eq_ok_iff.1 h
  have hp := Cursor.passes_start (header ++ body) []
  rw [← hs] at hp
  have hr := Cursor.readLengthDelimited_eq_ok_iff.2 ⟨header, hh, hp⟩
  obtain ⟨failure, he, ht⟩ := Cursor.cutOff_take Cursor.readLengthDelimited_append hr rfl hk
  have hc : (Cursor.start (stream.take k)).readLengthDelimited = .error failure := he
  refine ⟨failure.error, ht, ?_⟩
  rw [takeFrame, decodeDelimited, hc]

/-- A frame that cannot be read leaves the stream as it was. One that can be is a length and a body
of that length in front of whatever follows, and the body is decoded as if it stood alone, with its
own offsets; only its own size counts. Reading frames ends, and a frame that is cut off anywhere is
truncated. -/
theorem takeFrame_laws (o : Options) (stream : List UInt8) :
    (∀ e, (takeFrame o stream).1 = .error e → (takeFrame o stream).2 = stream) ∧
    (∀ m rest, takeFrame o stream = (.ok m, rest) ↔
      ∃ header body, Varint.Denotes header body.length ∧ stream = header ++ body ++ rest ∧
        decode body o = .ok m) ∧
    (∀ header body rest, Varint.Denotes header body.length → stream = header ++ body ++ rest →
      (takeFrame o stream).1 = decode body o ∧
      (takeFrame o stream).1 =
        (o.checkSize body.length).bind fun _ => decode body { o with sizeLimit := none }) ∧
    (∀ m rest, takeFrame o stream = (.ok m, rest) → rest.length < stream.length) ∧
    (∃ count ≤ stream.length,
      (∀ x ∈ (takeFrames o count stream).1, ∃ m, x = .ok m) ∧
      ((takeFrames o count stream).2 = [] ∨
        ∃ e, (takeFrame o (takeFrames o count stream).2).1 = .error e)) ∧
    (∀ m, takeFrame o stream = (.ok m, []) → ∀ k < stream.length,
      ∃ e, e.IsTruncation ∧ takeFrame o (stream.take k) = (.error e, stream.take k)) := by
  refine ⟨fun _ => takeFrame_of_error, fun _ _ => takeFrame_eq_ok_iff, ?_,
    fun _ _ => length_lt_of_takeFrame, takeFrames_ends o stream,
    fun _ h _ => takeFrame_take h⟩
  rintro header body rest hh rfl
  rw [← decode_eq_checkSize, takeFrame_frame o hh]
  cases decode body o <;> exact ⟨rfl, rfl⟩

/-- The length has a byte more than it needs, and the body is as large as it may be. -/
theorem takeFrame_long_length :
    let o : Options := { sizeLimit := some 2 }
    let frame := [0x82, 0x00, 0x08, 0x05]
    takeFrame o (frame ++ [0xff]) = (.ok { code := 5 }, [0xff]) ∧
      ∀ k < 4, ∃ e, e.IsTruncation ∧ takeFrame o (frame.take k) = (.error e, frame.take k) := by
  intro o frame
  have hh : Varint.Denotes [0x82, 0x00] 2 :=
    ⟨2, .more (by decide) (.last (by decide)), by decide, by decide⟩
  have hd : decode [0x08, 0x05] o = .ok { code := 5 } := by decide +kernel
  have hf (rest : List UInt8) : takeFrame o (frame ++ rest) = (.ok { code := 5 }, rest) :=
    ((takeFrame_laws o (frame ++ rest)).2.1 _ _).2 ⟨[0x82, 0x00], [0x08, 0x05], hh, rfl, hd⟩
  exact ⟨hf [0xff], (takeFrame_laws o frame).2.2.2.2.2 _ (hf [])⟩

/-! ## The frames of replies -/

theorem encodeDelimited_eq (m : Reply) :
    m.encodeDelimited = Varint.encode m.encodedLength ++ m.encode := rfl

theorem decodeDelimited_encodeDelimited {m : Reply} {o : Options} (h : m.FromWire o.nestingLimit)
    (ha : o.Admits m.encodedLength) (rest : List UInt8) :
    decodeDelimited (m.encodeDelimited ++ rest) o = .ok (m, rest) := by
  have hd : Varint.Denotes (Varint.encode m.encodedLength) m.encode.length := by
    rw [length_encode h.text_lt]
    exact Varint.denotes_encode h.length_lt
  rw [encodeDelimited_eq, decodeDelimited_frame o hd, h.decode_encode (Nat.le_refl _) ha]
  rfl

theorem takeFrame_encodeDelimited {m : Reply} {o : Options} (h : m.FromWire o.nestingLimit)
    (ha : o.Admits m.encodedLength) (rest : List UInt8) :
    takeFrame o (m.encodeDelimited ++ rest) = (.ok m, rest) := by
  rw [takeFrame, decodeDelimited_encodeDelimited h ha]

/-- Replies that came out of payloads, empty ones too, are read back from their frames one by one,
and the stream then begins with what was put behind the last frame. -/
theorem takeFrames_encodeDelimited (ms : List Reply) (o : Options) (rest : List UInt8)
    (h : ∀ m ∈ ms, m.FromWire o.nestingLimit) (ha : ∀ m ∈ ms, o.Admits m.encodedLength) :
    takeFrames o ms.length (ms.flatMap encodeDelimited ++ rest) = (ms.map .ok, rest) := by
  induction ms with
  | nil => rfl
  | cons m ms ih =>
    have hm := takeFrame_encodeDelimited (h m (List.mem_cons_self ..))
      (ha m (List.mem_cons_self ..)) (ms.flatMap encodeDelimited ++ rest)
    have hs := ih (fun m hm => h m (List.mem_cons_of_mem _ hm))
      (fun m hm => ha m (List.mem_cons_of_mem _ hm))
    rw [List.flatMap_cons, List.append_assoc, List.length_cons, takeFrames, hm, hs]
    rfl

/-- An empty frame stands between two others, and behind them a length that is cut off. -/
theorem takeFrames_around_empty :
    let m : Reply := { text := "é", unknown := [nestedGroup] }
    let o : Options := { nestingLimit := 2, sizeLimit := some 11 }
    (∀ r ∈ [{ code := -1 }, {}, m], r.FromWire 2) ∧
      (∀ r ∈ [{ code := -1 }, {}, m], o.Admits r.encodedLength) ∧
      takeFrames o 3 ([{ code := -1 }, {}, m].flatMap encodeDelimited ++ [0x80]) =
        ([.ok { code := -1 }, .ok {}, .ok m], [0x80]) := by
  intro m o
  have hu : ∀ r ∈ [{ code := -1 }, {}, m], ∀ u ∈ r.unknown, u = nestedGroup := by decide
  have hl : ∀ r ∈ [{ code := -1 }, {}, m], r.encodedLength ≤ 11 := by decide +kernel
  have hw : ∀ r ∈ [{ code := -1 }, {}, m], r.FromWire 2 := by
    intro r hr
    exact .of_nestedGroup (hu r hr) (Nat.lt_of_le_of_lt (hl r hr) (by decide))
  have ha : ∀ r ∈ [{ code := -1 }, {}, m], o.Admits r.encodedLength := by
    intro r hr limit h
    cases h
    exact hl r hr
  exact ⟨hw, ha, takeFrames_encodeDelimited _ o [0x80] hw ha⟩

end Reply
end ReflectionError
