import ReflectionError.Proofs.CommandLine.Flags
import ReflectionError.Proofs.Text.Hex

/-!
# ReflectionError.Proofs.CommandLine.Operand

The word of a command line that is its payload. Nothing else on the line depends on it, so any other
word that stands for a payload may be in its place.

* `Progress.exchange`: a place in the reading of arguments, as it is with another word for operand.
* `Blind`: steps that neither look at the operand nor change it. Reading an option is one.
* `readArgument_tracks`: one argument is the operand, or keeps what has been made of it.
* `readArguments_exchange`, `readArguments_operandPlace`: all arguments of a command.
* `parse_operandPlace`: the whole command line.
-/

namespace ReflectionError
namespace CommandLine

def Command.withPayload (payload : Payload) : Command → Command
  | .encode code text => .encode code text
  | .decode _ => .decode payload
  | .inspect _ => .inspect payload

def Invocation.withPayload (i : Invocation) (payload : Payload) : Invocation :=
  { i with command := i.command.withPayload payload }

theorem isPlain_of_readPayload {word : String} {payload : Payload}
    (h : readPayload word = .ok payload) : IsPlain word := by
  by_cases hdash : word = "-"
  · exact .inl hdash
  · refine .inr fun hhead => ?_
    simp only [readPayload, if_neg hdash] at h
    split at h
    · next bytes hbytes =>
      obtain ⟨s, hs⟩ := List.head?_eq_some_iff.1 hhead
      have hshown : Hex.withoutBlanks word = '-' :: s.filter fun c => !Text.isBlank c := by
        rw [Hex.withoutBlanks, hs]
        rfl
      have hbare : Hex.Unmarked (Hex.withoutBlanks word) (Hex.withoutBlanks word) := by
        refine .bare fun mark rest hmark => ?_
        cases hshown.symm.trans hmark
      have hspells := (Hex.decode_eq_ok_iff hbare).1 hbytes
      have hmem := hspells.mem_digits '-' (by rw [hshown]; exact List.mem_cons_self ..)
      revert hmem
      decide
    · cases h

/-! ## What has been given -/

namespace Given

def withPayload (g : Given) (payload : Payload) : Given := { g with payload := some payload }

theorem has_withPayload (g : Given) (payload : Payload) (o : Opt) :
    (g.withPayload payload).has o = g.has o := by
  cases o <;> rfl

theorem set_withPayload {g g' : Given} {o : Opt} {value : String} (h : g.set o value = .ok g')
    (payload : Payload) :
    (g.withPayload payload).set o value = .ok (g'.withPayload payload) ∧
      g'.payload = g.payload := by
  unfold set at h ⊢
  rw [has_withPayload]
  split at h
  · cases h
  · next hunset =>
    rw [if_neg hunset]
    cases o with
    | config =>
      simp only at h ⊢
      split at h
      · cases h
      · next hvalue =>
        cases h
        exact ⟨if_neg hvalue, rfl⟩
    | nestingLimit =>
      obtain ⟨n, hn, rfl⟩ := Except.map_eq_ok_iff.1 h
      exact ⟨Except.map_eq_ok_iff.2 ⟨n, hn, rfl⟩, rfl⟩
    | sizeLimit =>
      obtain ⟨n, hn, rfl⟩ := Except.map_eq_ok_iff.1 h
      exact ⟨Except.map_eq_ok_iff.2 ⟨n, hn, rfl⟩, rfl⟩
    | code =>
      obtain ⟨n, hn, rfl⟩ := Except.map_eq_ok_iff.1 h
      exact ⟨Except.map_eq_ok_iff.2 ⟨n, hn, rfl⟩, rfl⟩
    | text =>
      cases h
      exact ⟨rfl, rfl⟩
    | help => cases h
    | version => cases h
    | lossy => cases h

theorem raise_withPayload {g g' : Given} {o : Opt} (h : g.raise o = .ok g') (payload : Payload) :
    (g.withPayload payload).raise o = .ok (g'.withPayload payload) ∧ g'.payload = g.payload := by
  unfold raise at h ⊢
  split at h
  · cases h
  · cases h
  · split at h
    · cases h
    · next hlossy =>
      cases h
      exact ⟨if_neg hlossy, rfl⟩
  · cases h

end Given

/-! ## Places in the reading of arguments -/

namespace Progress

/-- The same place if the operand is `word`, which stands for `payload`. -/
def exchange (word : String) (payload : Payload) (p : Progress) : Progress where
  given :=
    match p.pending with
    | .operand _ => p.given
    | _ => p.given.withPayload payload
  pending :=
    match p.pending with
    | .operand _ => .operand word
    | pending => pending
  operandsOnly := p.operandsOnly
  operandMet := p.operandMet

def withOperand (p : Progress) (word : String) : Progress :=
  { p with pending := .operand word, operandMet := true }

/-- What has been made of the operand: it has not been met, or it is the word, which is still to be
read or has been read. -/
inductive Tracks : Option String → Progress → Prop where
  | unmet {p : Progress} (met : p.operandMet = false) (given : p.given.payload = none)
      (pending : ∀ word, p.pending ≠ .operand word) : Tracks none p
  | pending {p : Progress} {word : String} (met : p.operandMet = true)
      (pending : p.pending = .operand word) : Tracks (some word) p
  | read {p : Progress} {word : String} {payload : Payload} (met : p.operandMet = true)
      (read : readPayload word = .ok payload) (given : p.given.payload = some payload)
      (pending : ∀ word, p.pending ≠ .operand word) : Tracks (some word) p

section Exchange

variable {word : String} {payload : Payload} {p q : Progress}

theorem exchange_of_ne (h : ∀ other, p.pending ≠ .operand other) :
    p.exchange word payload = { p with given := p.given.withPayload payload } := by
  unfold exchange
  split
  · next other hp => exact absurd hp (h other)
  · rfl

theorem exchange_of_eq {other : String} (h : p.pending = .operand other) :
    p.exchange word payload = { p with pending := .operand word } := by
  rw [exchange, h]

theorem awaited?_exchange : (p.exchange word payload).awaited? = p.awaited? := by
  unfold awaited? exchange
  cases p.pending with
  | nothing => rfl
  | option o value => rfl
  | operand other => rfl

theorem pending_of_settle (h : p.settle = .ok q) : q.pending = .nothing := by
  unfold settle at h
  split at h
  · next hp =>
    cases h
    exact hp
  · cases h
  · obtain ⟨g, -, rfl⟩ := Except.map_eq_ok_iff.1 h
    rfl
  · obtain ⟨x, -, rfl⟩ := Except.map_eq_ok_iff.1 h
    rfl

theorem pending_ne_of_settle (h : p.settle = .ok q) (other : String) :
    q.pending ≠ .operand other := by
  intro hother
  cases (pending_of_settle h).symm.trans hother

theorem exchange_of_settle (h : p.settle = .ok q) :
    q.exchange word payload = { q with given := q.given.withPayload payload } :=
  exchange_of_ne (pending_ne_of_settle h)

theorem pending_ne_of_awaited {o : Opt} (h : p.awaited? = some o) (other : String) :
    p.pending ≠ .operand other := by
  intro hother
  rw [awaited?, hother] at h
  cases h

theorem Tracks.of_unchanged {met : Option String} (hp : Tracks met p)
    (hmet : q.operandMet = p.operandMet) (hgiven : q.given.payload = p.given.payload)
    (hfrom : ∀ other, p.pending ≠ .operand other) (hto : ∀ other, q.pending ≠ .operand other) :
    Tracks met q := by
  cases hp with
  | unmet met given _ => exact .unmet (hmet.trans met) (hgiven.trans given) hto
  | @pending _ word _ pending => exact absurd pending (hfrom word)
  | read met read given _ => exact .read (hmet.trans met) read (hgiven.trans given) hto

end Exchange

/-- A step that does not look at the operand: with another one for it, it does the same, and it
keeps what has been made of it. -/
structure Blind (f : Progress → Except Refusal Progress) : Prop where
  exchange {p q : Progress} {word : String} {payload : Payload} :
    readPayload word = .ok payload → f p = .ok q →
      f (p.exchange word payload) = .ok (q.exchange word payload)
  tracks {p q : Progress} {met : Option String} : Tracks met p → f p = .ok q → Tracks met q

section Blind

variable {p q : Progress} {word : String} {payload : Payload} {met : Option String}

theorem blind_error (r : Refusal) : Blind fun _ => .error r where
  exchange _ h := by cases h
  tracks _ h := by cases h

theorem settle_exchange (hr : readPayload word = .ok payload) (h : p.settle = .ok q) :
    (p.exchange word payload).settle = .ok (q.exchange word payload) := by
  rw [exchange_of_settle h]
  unfold settle at h
  split at h
  · next hp =>
    cases h
    have hne : ∀ other, p.pending ≠ .operand other := by
      intro other hother
      cases hp.symm.trans hother
    rw [exchange_of_ne hne, settle]
    simp only [hp]
  · cases h
  · next o value hp =>
    obtain ⟨g, hg, rfl⟩ := Except.map_eq_ok_iff.1 h
    have hset := (Given.set_withPayload hg payload).1
    have hne : ∀ other, p.pending ≠ .operand other := by
      intro other hother
      cases hp.symm.trans hother
    rw [exchange_of_ne hne, settle]
    simp only [hp, hset]
    rfl
  · next other hp =>
    obtain ⟨x, -, rfl⟩ := Except.map_eq_ok_iff.1 h
    rw [exchange_of_eq hp, settle]
    simp only [hr]
    rfl

theorem tracks_settle (hp : Tracks met p) (h : p.settle = .ok q) : Tracks met q := by
  have hnone := pending_ne_of_settle h
  unfold settle at h
  split at h
  · cases h
    exact hp
  · cases h
  · next o value hpending =>
    obtain ⟨g, hg, rfl⟩ := Except.map_eq_ok_iff.1 h
    refine hp.of_unchanged rfl (Given.set_withPayload hg .stdin).2 (fun other hother => ?_) hnone
    cases hpending.symm.trans hother
  · next other hpending =>
    obtain ⟨x, hx, rfl⟩ := Except.map_eq_ok_iff.1 h
    cases hp with
    | unmet _ _ pending => exact absurd hpending (pending other)
    | pending met pending =>
      cases hpending.symm.trans pending
      exact .read met hx rfl hnone
    | read _ _ _ pending => exact absurd hpending (pending other)

theorem blind_given {f : Given → Except Refusal Given}
    (hf : ∀ {g g' : Given}, f g = .ok g' → ∀ payload,
      f (g.withPayload payload) = .ok (g'.withPayload payload) ∧ g'.payload = g.payload) :
    Blind fun p => do
      let p ← p.settle
      let given ← f p.given
      return { p with given } where
  exchange hr h := by
    obtain ⟨p', hp', h⟩ := Except.bind_eq_ok_iff.1 h
    obtain ⟨g, hg, h⟩ := Except.bind_eq_ok_iff.1 h
    cases h
    have hne := pending_ne_of_settle hp'
    have hsettle := settle_exchange hr hp'
    rw [exchange_of_ne hne] at hsettle
    rw [exchange_of_ne (p := { p' with given := g }) hne]
    exact Except.bind_eq_ok_iff.2 ⟨_, hsettle, Except.bind_eq_ok_iff.2 ⟨_, (hf hg _).1, rfl⟩⟩
  tracks hp h := by
    obtain ⟨p', hp', h⟩ := Except.bind_eq_ok_iff.1 h
    obtain ⟨g, hg, h⟩ := Except.bind_eq_ok_iff.1 h
    cases h
    have hne := pending_ne_of_settle hp'
    exact (tracks_settle hp hp').of_unchanged rfl (hf hg .stdin).2 hne hne

theorem blind_setNow (o : Opt) (value : List Char) : Blind fun p => p.setNow o value :=
  blind_given (f := fun g => g.set o (String.ofList value)) Given.set_withPayload

theorem blind_raise (o : Opt) : Blind fun p => p.raise o :=
  blind_given (f := fun g => g.raise o) Given.raise_withPayload

theorem blind_await (o : Opt) : Blind fun p => p.await o where
  exchange hr h := by
    obtain ⟨p', hp', h⟩ := Except.bind_eq_ok_iff.1 h
    cases h
    have hsettle := settle_exchange hr hp'
    rw [exchange_of_settle hp'] at hsettle
    exact Except.bind_eq_ok_iff.2 ⟨_, hsettle, rfl⟩
  tracks hp h := by
    obtain ⟨p', hp', h⟩ := Except.bind_eq_ok_iff.1 h
    cases h
    refine (tracks_settle hp hp').of_unchanged rfl rfl (pending_ne_of_settle hp') ?_
    intro other hother
    cases hother

end Blind

end Progress

open Progress

theorem blind_readLong (scope : Scope) (s : List Char) : Blind fun p => readLong scope p s := by
  unfold readLong
  simp only
  split
  · exact blind_error _
  · split
    · exact blind_await _
    · exact blind_setNow _ _
    · exact blind_raise _
    · exact blind_error _

theorem blind_readShort (scope : Scope) (letter : Char) (s : List Char) :
    Blind fun p => readShort scope p letter s := by
  unfold readShort
  split
  · exact blind_error _
  · split
    · exact blind_await _
    · exact blind_setNow _ _
    · exact blind_setNow _ _
    · exact blind_raise _

/-! ## One argument -/

section Arguments

variable {scope : Scope} {p q : Progress} {word : String}

theorem readOperand_eq_ok (h : readOperand scope p word = .ok q) :
    p.operandMet = false ∧ ∃ p' : Progress, q = p'.withOperand word ∧
      ∀ other, readOperand scope p other = .ok (p'.withOperand other) := by
  unfold readOperand at h
  split at h
  · next hmay =>
    obtain ⟨p', hp', rfl⟩ := Except.map_eq_ok_iff.1 h
    have hmet : p.operandMet = false := by simpa using (Bool.and_eq_true_iff.1 hmay).2
    refine ⟨hmet, p', rfl, fun other => ?_⟩
    rw [readOperand, if_pos hmay, hp']
    rfl
  · split at h
    · cases h
    · cases h

theorem readOperand_ne_ok (hmet : p.operandMet = true) : readOperand scope p word ≠ .ok q := by
  intro h
  cases hmet.symm.trans (readOperand_eq_ok h).1

theorem readWord_exchange (hmet : p.operandMet = true) (h : readWord scope p word = .ok q)
    (other : String) (payload : Payload) :
    readWord scope (p.exchange other payload) word = .ok (q.exchange other payload) := by
  unfold readWord at h ⊢
  rw [awaited?_exchange]
  split at h
  · next o ho =>
    cases h
    rw [exchange_of_ne (pending_ne_of_awaited ho), exchange]
  · exact absurd h (readOperand_ne_ok hmet)

/-- Once the operand has been met, an argument is read the same way whatever the operand is. -/
theorem readArgument_exchange (hmet : p.operandMet = true) (h : readArgument scope p word = .ok q)
    {other : String} {payload : Payload} (hr : readPayload other = .ok payload) :
    readArgument scope (p.exchange other payload) word = .ok (q.exchange other payload) := by
  have honly : (p.exchange other payload).operandsOnly = p.operandsOnly := rfl
  unfold readArgument at h ⊢
  rw [honly, awaited?_exchange]
  split at h
  · exact absurd h (readOperand_ne_ok hmet)
  · next honly =>
    rw [if_neg honly]
    split at h
    · cases h
      rfl
    · exact (blind_readLong scope _).exchange hr h
    · split at h
      · next hnumber =>
        rw [if_pos hnumber]
        exact readWord_exchange hmet h other payload
      · next hnumber =>
        rw [if_neg hnumber]
        exact (blind_readShort scope _ _).exchange hr h
    · exact readWord_exchange hmet h other payload

theorem readWord_tracks {met : Option String} (hp : Tracks met p)
    (h : readWord scope p word = .ok q) :
    Tracks met q ∨ (p.awaited? = none ∧ readOperand scope p word = .ok q) := by
  unfold readWord at h
  split at h
  · next o ho =>
    cases h
    refine .inl (hp.of_unchanged rfl rfl (pending_ne_of_awaited ho) ?_)
    intro other hother
    cases hother
  · next ho => exact .inr ⟨ho, h⟩

/-- An argument is the operand, and then any word that is no option could be, or it keeps what has
been made of the operand. -/
theorem readArgument_tracks {met : Option String} (hp : Tracks met p)
    (h : readArgument scope p word = .ok q) :
    Tracks met q ∨ (p.operandMet = false ∧ ∃ p' : Progress, q = p'.withOperand word ∧
      ∀ other, IsPlain other → readArgument scope p other = .ok (p'.withOperand other)) := by
  cases honly : p.operandsOnly with
  | true =>
    rw [readArgument, if_pos honly] at h
    obtain ⟨hmet, p', hq, hany⟩ := readOperand_eq_ok h
    refine .inr ⟨hmet, p', hq, fun other _ => ?_⟩
    rw [readArgument, if_pos honly]
    exact hany other
  | false =>
    have hword (h : readWord scope p word = .ok q) : Tracks met q ∨ (p.operandMet = false ∧
        ∃ p' : Progress, q = p'.withOperand word ∧
          ∀ other, IsPlain other → readArgument scope p other = .ok (p'.withOperand other)) := by
      rcases readWord_tracks hp h with hq | ⟨hawaits, h⟩
      · exact .inl hq
      · obtain ⟨hmet, p', hq, hany⟩ := readOperand_eq_ok h
        refine .inr ⟨hmet, p', hq, fun other hother => ?_⟩
        rw [readArgument_plain honly hother, readWord, hawaits]
        exact hany other
    rw [readArgument, honly, if_neg Bool.false_ne_true] at h
    split at h
    · cases h
      cases hp with
      | unmet met given pending => exact .inl (.unmet met given pending)
      | pending met pending => exact .inl (.pending met pending)
      | read met read given pending => exact .inl (.read met read given pending)
    · exact .inl ((blind_readLong scope _).tracks hp h)
    · split at h
      · exact hword h
      · exact .inl ((blind_readShort scope _ _).tracks hp h)
    · exact hword h

end Arguments

/-! ## All arguments -/

section Places

variable {scope : Scope} {p : Progress} {words : List String} {word : String} {payload : Payload}

theorem Progress.Tracks.operandMet_eq {met : Option String} (h : Tracks met p) :
    p.operandMet = met.isSome := by
  cases h with
  | unmet met _ _ => exact met
  | pending met _ => exact met
  | read met _ _ _ => exact met

/-- Behind the operand: it is what is given as payload, and another one would be. -/
theorem readArguments_exchange {g : Given} (hp : Tracks (some word) p)
    (h : readArguments scope p words = .ok g) :
    (∃ payload, readPayload word = .ok payload ∧ g.payload = some payload) ∧
      ∀ {other payload}, readPayload other = .ok payload →
        readArguments scope (p.exchange other payload) words = .ok (g.withPayload payload) := by
  induction words generalizing p with
  | nil =>
    obtain ⟨q, hq, rfl⟩ := Except.map_eq_ok_iff.1 h
    constructor
    · cases tracks_settle hp hq with
      | pending _ pending => exact absurd pending (pending_ne_of_settle hq _)
      | read _ read given _ => exact ⟨_, read, given⟩
    · intro other payload hr
      rw [readArguments, settle_exchange hr hq, exchange_of_settle hq]
      rfl
  | cons argument words ih =>
    rw [readArguments] at h
    split at h
    · cases h
    · next q hq =>
      rcases readArgument_tracks hp hq with hq' | ⟨hmet, -⟩
      · obtain ⟨hread, hexchange⟩ := ih hq' h
        refine ⟨hread, fun hr => ?_⟩
        rw [readArguments, readArgument_exchange hp.operandMet_eq hq hr]
        exact hexchange hr
      · cases hp.operandMet_eq.symm.trans hmet

theorem readArguments_operandPlace {g : Given} (hp : Tracks none p)
    (h : readArguments scope p words = .ok g) (hg : g.payload = some payload) :
    ∃ before word behind, words = before ++ word :: behind ∧ readPayload word = .ok payload ∧
      ∀ {other x}, readPayload other = .ok x →
        readArguments scope p (before ++ other :: behind) = .ok (g.withPayload x) := by
  induction words generalizing p with
  | nil =>
    obtain ⟨q, hq, rfl⟩ := Except.map_eq_ok_iff.1 h
    cases tracks_settle hp hq with
    | unmet _ given _ => cases given.symm.trans hg
  | cons argument words ih =>
    rw [readArguments] at h
    split at h
    · cases h
    · next q hq =>
      rcases readArgument_tracks hp hq with hq' | ⟨-, p', rfl, hany⟩
      · obtain ⟨before, word, behind, rfl, hread, hplace⟩ := ih hq' h
        refine ⟨argument :: before, word, behind, rfl, hread, fun hr => ?_⟩
        rw [List.cons_append, readArguments, hq]
        exact hplace hr
      · obtain ⟨⟨x, hread, hx⟩, hexchange⟩ := readArguments_exchange (.pending rfl rfl) h
        cases hg.symm.trans hx
        refine ⟨[], argument, words, rfl, hread, fun {other} x hr => ?_⟩
        rw [List.nil_append, readArguments, hany other (isPlain_of_readPayload hr)]
        exact hexchange hr

/-! ## The command line -/

theorem readCommand_operandPlace {command : Command} {g : Given}
    (h : readCommand scope words = .ok (command, g)) (hc : command.payload? = some payload) :
    ∃ before word behind, words = before ++ word :: behind ∧ readPayload word = .ok payload ∧
      ∀ {other x}, readPayload other = .ok x → readCommand scope (before ++ other :: behind) =
        .ok (command.withPayload x, g.withPayload x) := by
  rw [readCommand] at h
  split at h
  · cases h
  · next given hgiven =>
    have hstart : Tracks none {} := .unmet rfl rfl fun _ hp => by cases hp
    have hplace (hp : given.payload = some payload) :=
      readArguments_operandPlace hstart hgiven hp
    split at h
    · cases h
      cases hc
    · next payload' hp =>
      cases h
      cases hc
      obtain ⟨before, word, behind, hwords, hread, hplace⟩ := hplace hp
      refine ⟨before, word, behind, hwords, hread, fun hr => ?_⟩
      rw [readCommand, hplace hr]
      rfl
    · next payload' hp =>
      cases h
      cases hc
      obtain ⟨before, word, behind, hwords, hread, hplace⟩ := hplace hp
      refine ⟨before, word, behind, hwords, hread, fun hr => ?_⟩
      rw [readCommand, hplace hr]
      rfl
    · cases h

/-- By induction on the words: those in front of the command are read as before, and the command
finds its payload behind them. -/
theorem readProgram_operandPlace {i : Invocation} (h : readProgram p words = .ok i)
    (hc : i.command.payload? = some payload) :
    ∃ before word behind, words = before ++ word :: behind ∧ readPayload word = .ok payload ∧
      ∀ {other x}, readPayload other = .ok x →
        readProgram p (before ++ other :: behind) = .ok (i.withPayload x) := by
  induction words generalizing p with
  | nil => cases h
  | cons argument words ih =>
    simp only [readProgram] at h
    split at h
    · cases h
    · next hhelp =>
      split at h
      · next scope hscope =>
        split at h
        · cases h
        · next command behind hcommand =>
          obtain ⟨q, hq, rfl⟩ := Except.map_eq_ok_iff.1 h
          obtain ⟨before, word, rest, rfl, hread, hplace⟩ := readCommand_operandPlace hcommand hc
          refine ⟨argument :: before, word, rest, rfl, hread, fun hr => ?_⟩
          simp only [List.cons_append, readProgram, if_neg hhelp, hscope, hplace hr, hq]
          rfl
      · next hscope =>
        split at h
        · cases h
        · next q hq =>
          obtain ⟨before, word, rest, rfl, hread, hplace⟩ := ih h
          refine ⟨argument :: before, word, rest, rfl, hread, fun hr => ?_⟩
          simp only [List.cons_append, readProgram, if_neg hhelp, hscope, hq]
          exact hplace hr

end Places

/-- A command line with a payload has a word for it, and any other word that stands for a payload
may be in its place: the line is understood the same but for the payload. -/
theorem parse_operandPlace {words : List String} {i : Invocation} {payload : Payload}
    (h : parse words = .ok i) (hc : i.command.payload? = some payload) :
    ∃ before word behind, words = before ++ word :: behind ∧ readPayload word = .ok payload ∧
      ∀ {other x}, readPayload other = .ok x →
        parse (before ++ other :: behind) = .ok (i.withPayload x) :=
  readProgram_operandPlace h hc

end CommandLine
end ReflectionError
