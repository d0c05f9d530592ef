import Mathlib.Data.List.TakeWhile
import ReflectionError.CommandLine.Parser
import ReflectionError.Proofs.CommandLine.Code
import ReflectionError.Proofs.Text.Printed

/-!
# ReflectionError.Proofs.CommandLine.Flags

Command lines with flags. `Flags` are the options that may stand in front of a command and behind
it, `Interleaved` puts them between the words of a command.

* `readCode_of_namesCode`: the number of a status code, from its digits or any spelling of its name.
* `Progress.Ready`: where the reading of arguments stands once what has been read is settled.
* `Flags.advances`: flags are read in any scope, from one such place to another.
* `readCommand_encode`, `readArguments_operand`: the words of a command with flags between them.
* `parse_line`: flags, a command and its words.
-/

namespace ReflectionError
namespace CommandLine

/-! ## Status codes -/

/-- The text is the number in digits, or names the status code of that number. -/
inductive NamesCode (n : Int32) (s : String) : Prop where
  | number (h : s = toString n.toInt)
  | name (c : Code) (hn : n = c.toInt32) (h : c.SpelledBy s)

theorem readCode_of_namesCode {n : Int32} {s : String} (h : NamesCode n s) :
    readCode s = .ok n := by
  cases h with
  | number h =>
    have htrim : Text.trim s.toList = (toString n.toInt).toList := by
      rw [h, Text.trim_of_no_blank fun _ => Text.isBlank_of_mem_toString_int]
    have hread : Decimal.readInt 32 (toString n.toInt).toList = .ok n.toInt :=
      Decimal.readInt_toString n.le_toInt n.toInt_lt
    rw [← htrim] at hread
    exact readCode_of_readInt hread
  | name c hn h =>
    rw [hn]
    exact readCode_of_parse? (Code.parse?_of_spelledBy h)

/-! ## Single arguments -/

/-- The word is no option: a dash alone, or it begins with another character. -/
def IsPlain (word : String) : Prop := word = "-" ∨ word.toList.head? ≠ some '-'

namespace Progress

def settled (g : Given) (operandMet : Bool) : Progress := { given := g, operandMet }

/-- Options may come next, and settling what has been read gives `g`. -/
structure Ready (p : Progress) (g : Given) (operandMet : Bool) : Prop where
  options : p.operandsOnly = false
  awaits : p.awaited? = none
  met : p.operandMet = operandMet
  settle_eq : p.settle = .ok (settled g operandMet)

theorem ready_settled (g : Given) (operandMet : Bool) : (settled g operandMet).Ready g operandMet :=
  ⟨rfl, rfl, rfl, rfl⟩

end Progress

open Progress

section Arguments

variable {scope : Scope} {p : Progress} {g g' : Given} {met : Bool} {o : Opt}

theorem readArgument_long (hp : p.operandsOnly = false) {word : String} {s : List Char}
    (hw : word.toList = '-' :: '-' :: s) (hs : s ≠ []) :
    readArgument scope p word = readLong scope p s := by
  cases s with
  | nil => exact absurd rfl hs
  | cons c s => simp [readArgument, hp, hw]

theorem readArgument_plain (hp : p.operandsOnly = false) {word : String} (hw : IsPlain word) :
    readArgument scope p word = readWord scope p word := by
  rcases hw with rfl | hw
  · simp [readArgument, hp]
  · rw [readArgument, hp]
    cases h : word.toList with
    | nil => rfl
    | cons c s =>
      have hc : c ≠ '-' := by
        rintro rfl
        exact hw (by rw [h]; rfl)
      simp [hc]

theorem ne_equals_of_notMem {name : List Char} (hn : '=' ∉ name) :
    ∀ c ∈ name, (c != '=') = true := by
  intro c hc
  rw [bne_iff_ne]
  rintro rfl
  exact hn hc

theorem readArgument_joined (hp : p.Ready g met) {name : List Char}
    (ho : Opt.ofLong? scope name = some o) (hv : o.takesValue = true) (hn : '=' ∉ name)
    {word value : String} (hw : word.toList = '-' :: '-' :: (name ++ '=' :: value.toList))
    (hset : g.set o value = .ok g') :
    readArgument scope p word = .ok (settled g' met) := by
  have hname := ne_equals_of_notMem hn
  have htake : (name ++ '=' :: value.toList).takeWhile (fun c => c != '=') = name := by
    rw [List.takeWhile_append_of_pos hname]
    simp
  have hdrop : (name ++ '=' :: value.toList).dropWhile (fun c => c != '=') =
      '=' :: value.toList := by
    rw [List.dropWhile_append_of_pos hname]
    simp
  rw [readArgument_long hp.options hw (by simp), readLong]
  simp only [htake, hdrop, ho, hv, setNow, hp.settle_eq, String.ofList_toList]
  simp only [settled, bind, Except.bind, hset]
  rfl

theorem readLong_bare {name : List Char} (ho : Opt.ofLong? scope name = some o)
    (hn : '=' ∉ name) :
    readLong scope p name = if o.takesValue then p.await o else p.raise o := by
  have htake : name.takeWhile (fun c => c != '=') = name :=
    List.takeWhile_eq_self_iff.2 (ne_equals_of_notMem hn)
  have hdrop : name.dropWhile (fun c => c != '=') = [] :=
    List.dropWhile_eq_nil_iff.2 (ne_equals_of_notMem hn)
  simp only [readLong, htake, hdrop, ho]
  cases o.takesValue with
  | false => rfl
  | true => rfl

theorem readArgument_await (hp : p.Ready g met) {name : List Char}
    (ho : Opt.ofLong? scope name = some o) (hv : o.takesValue = true) (hn : '=' ∉ name)
    {word : String} (hw : word.toList = '-' :: '-' :: name) (hne : name ≠ []) :
    readArgument scope p word = .ok { settled g met with pending := .option o none } := by
  rw [readArgument_long hp.options hw hne, readLong_bare ho hn, if_pos hv, await, hp.settle_eq]
  rfl

theorem readArgument_value {word : String} (hw : IsPlain word) :
    readArgument scope { settled g met with pending := .option o none } word =
      .ok { settled g met with pending := .option o (some word) } := by
  rw [readArgument_plain rfl hw]
  rfl

theorem ready_value {value : String} (hset : g.set o value = .ok g') :
    ({ settled g met with pending := .option o (some value) } : Progress).Ready g' met := by
  refine ⟨rfl, rfl, rfl, ?_⟩
  simp only [settle, settled, hset]
  rfl

theorem readArgument_lossy (hp : p.Ready g met) (hg : g.lossy = false) :
    readArgument scope p "--lossy" = .ok (settled { g with lossy := true } met) := by
  have ho : Opt.ofLong? scope "lossy".toList = some .lossy := by
    cases scope <;> decide
  have hw : "--lossy".toList = '-' :: '-' :: "lossy".toList := by decide
  rw [readArgument_long hp.options hw (by decide), readLong_bare ho (by decide), if_neg (by decide),
    raise, hp.settle_eq]
  simp only [settled, bind, Except.bind, Given.raise, hg]
  rfl

theorem readArgument_operand (hs : scope.hasOperand = true) (hp : p.Ready g false) {word : String}
    (hw : IsPlain word) :
    readArgument scope p word =
      .ok { settled g true with pending := .operand word } := by
  rw [readArgument_plain hp.options hw, readWord, hp.awaits]
  simp only [readOperand, hs, hp.met, hp.settle_eq]
  rfl

end Arguments

/-! ## Arguments in turn -/

/-- Arguments are read in turn. None of the program's is a command, unless it is a value. -/
inductive Advances (scope : Scope) : Progress → List String → Progress → Prop where
  | refl (p : Progress) : Advances scope p [] p
  | step {p q r : Progress} {word : String} {words : List String}
      (one : readArgument scope p word = .ok q)
      (plain : scope = .program → p.awaited? = none → isCommandWord word = false)
      (behind : Advances scope q words r) : Advances scope p (word :: words) r

namespace Advances

variable {scope : Scope} {p q r : Progress} {words : List String}

theorem trans {more : List String} (h : Advances scope p words q) (h' : Advances scope q more r) :
    Advances scope p (words ++ more) r := by
  induction h with
  | refl _ => exact h'
  | step one plain _ ih => exact .step one plain (ih h')

theorem readArguments_eq (h : Advances scope p words q) (more : List String) :
    readArguments scope p (words ++ more) = readArguments scope q more := by
  induction h with
  | refl _ => rfl
  | step one _ _ ih => rw [List.cons_append, readArguments, one, ← ih]

theorem readProgram_eq (h : Advances .program p words q) (more : List String) :
    readProgram p (words ++ more) = readProgram q more := by
  induction h with
  | refl _ => rfl
  | @step p q r word words one plain _ ih =>
    rw [List.cons_append, ← ih]
    cases ha : p.awaited? with
    | none =>
      obtain ⟨hhelp, hcommand⟩ : word ≠ "help" ∧ Scope.command? word = none := by
        simpa [isCommandWord] using plain rfl ha
      simp [readProgram, ha, hhelp, hcommand, one]
    | some o => simp [readProgram, ha, one]

theorem readArguments_eq_ok {g : Given} {met : Bool} (h : Advances scope p words q)
    (hq : q.Ready g met) : readArguments scope p words = .ok g := by
  have he := h.readArguments_eq []
  rw [List.append_nil] at he
  rw [he, readArguments, hq.settle_eq]
  rfl

end Advances

/-! ## Flags -/

/-- The flags that have a value, and their names. -/
def valueFlags : List (Opt × String) :=
  [(.config, "config"), (.nestingLimit, "recursion-limit"), (.sizeLimit, "max-size")]

/-- The words are flags, each given once and with a value that is one; what has been given before
them, and what has been given then. -/
inductive Flags : Given → List String → Given → Prop where
  | none (g : Given) : Flags g [] g
  | lossy {g g' : Given} {words : List String} (unset : g.lossy = false)
      (behind : Flags { g with lossy := true } words g') : Flags g ("--lossy" :: words) g'
  | joined {g g₁ g' : Given} {words : List String} {flag : Opt × String} (known : flag ∈ valueFlags)
      (value : String) (read : g.set flag.1 value = .ok g₁) (behind : Flags g₁ words g') :
      Flags g (("--" ++ flag.2 ++ "=" ++ value) :: words) g'
  | apart {g g₁ g' : Given} {words : List String} {flag : Opt × String} (known : flag ∈ valueFlags)
      {value : String} (plain : IsPlain value) (read : g.set flag.1 value = .ok g₁)
      (behind : Flags g₁ words g') : Flags g (("--" ++ flag.2) :: value :: words) g'

theorem of_mem_valueFlags (scope : Scope) : ∀ flag ∈ valueFlags,
    Opt.ofLong? scope flag.2.toList = some flag.1 ∧ flag.1.takesValue = true ∧
      '=' ∉ flag.2.toList ∧ flag.2.toList ≠ [] := by
  cases scope <;> decide

theorem toList_joined (name value : String) :
    ("--" ++ name ++ "=" ++ value).toList = '-' :: '-' :: (name.toList ++ '=' :: value.toList) := by
  simp

theorem isCommandWord_of_dash {word : String} {s : List Char} (h : word.toList = '-' :: s) :
    isCommandWord word = false := by
  have hne {w : String} (ho : w.toList.head? ≠ some '-') : word ≠ w := by
    rintro rfl
    rw [h] at ho
    exact ho rfl
  simp [isCommandWord, Scope.command?, hne (w := "help") (by decide),
    hne (w := "encode") (by decide), hne (w := "decode") (by decide),
    hne (w := "inspect") (by decide)]

theorem Flags.advances (scope : Scope) {p : Progress} {g g' : Given} {met : Bool}
    {words : List String} (h : Flags g words g') (hp : p.Ready g met) :
    ∃ q, Advances scope p words q ∧ q.Ready g' met := by
  induction h generalizing p with
  | none g => exact ⟨p, .refl p, hp⟩
  | lossy unset _ ih =>
    obtain ⟨q, hq, hr⟩ := ih (ready_settled _ met)
    exact ⟨q, .step (readArgument_lossy hp unset) (fun _ _ => by decide) hq, hr⟩
  | @joined _ _ _ _ flag known value read _ ih =>
    obtain ⟨ho, hv, hn, -⟩ := of_mem_valueFlags scope flag known
    have hw := toList_joined flag.2 value
    obtain ⟨q, hq, hr⟩ := ih (ready_settled _ met)
    exact ⟨q, .step (readArgument_joined hp ho hv hn hw read)
      (fun _ _ => isCommandWord_of_dash hw) hq, hr⟩
  | @apart _ _ _ _ flag known value plain read _ ih =>
    obtain ⟨ho, hv, hn, hne⟩ := of_mem_valueFlags scope flag known
    have hw : ("--" ++ flag.2).toList = '-' :: '-' :: flag.2.toList := by simp
    obtain ⟨q, hq, hr⟩ := ih (ready_value read)
    exact ⟨q, .step (readArgument_await hp ho hv hn hw hne) (fun _ _ => isCommandWord_of_dash hw)
      (.step (readArgument_value plain) (fun _ ha => nomatch ha) hq), hr⟩

/-! ## Flags between the words of a command -/

/-- What has been given, with the code, the text and the payload of `e`. -/
def Given.adding (g e : Given) : Given :=
  { g with code := e.code, text := e.text, payload := e.payload }

theorem has_adding (g e : Given) : ∀ flag ∈ valueFlags,
    (g.adding e).has flag.1 = g.has flag.1 := by
  simp [valueFlags, Given.has, Given.adding]

theorem set_adding {g g' : Given} {value : String} {flag : Opt × String} (hf : flag ∈ valueFlags)
    (h : g.set flag.1 value = .ok g') (e : Given) :
    (g.adding e).set flag.1 value = .ok (g'.adding e) := by
  unfold Given.set at h ⊢
  rw [has_adding g e flag hf]
  split at h
  · cases h
  · next hunset =>
    rw [if_neg hunset]
    simp only [valueFlags, List.mem_cons, List.not_mem_nil, or_false] at hf
    rcases hf with rfl | rfl | rfl
    · simp only at h
      split at h
      · cases h
      · next hvalue =>
        cases h
        exact if_neg hvalue
    · obtain ⟨n, hn, rfl⟩ := Except.map_eq_ok_iff.1 h
      exact Except.map_eq_ok_iff.2 ⟨n, hn, rfl⟩
    · obtain ⟨n, hn, rfl⟩ := Except.map_eq_ok_iff.1 h
      exact Except.map_eq_ok_iff.2 ⟨n, hn, rfl⟩

theorem Flags.adding {g g' : Given} {words : List String} (h : Flags g words g') (e : Given) :
    Flags (g.adding e) words (g'.adding e) := by
  induction h with
  | none g => exact .none _
  | lossy unset _ ih => exact .lossy unset ih
  | joined known value read _ ih => exact .joined known value (set_adding known read e) ih
  | apart known plain read _ ih => exact .apart known plain (set_adding known read e) ih

/-- The words of a command, `core`, with flags in front of them, between them and behind them. -/
inductive Interleaved : Given → List String → List String → Given → Prop where
  | flags {g g' : Given} {words : List String} (h : Flags g words g') : Interleaved g [] words g'
  | word {g g₁ g' : Given} {core front back : List String} (word : String) (h : Flags g front g₁)
      (behind : Interleaved g₁ core back g') :
      Interleaved g (word :: core) (front ++ word :: back) g'

/-! ## Commands -/

section Commands

variable {p : Progress} {g e : Given}

theorem advances_code {C : String} {c : Int32} (hp : p.Ready (g.adding e) false)
    (he : e.code = none) (hc : readCode C = .ok c) :
    Advances .encode p ["--code=" ++ C] (settled (g.adding { e with code := some c }) false) := by
  have hw : ("--code=" ++ C).toList = '-' :: '-' :: ("code".toList ++ '=' :: C.toList) := by simp
  have hset : (g.adding e).set .code C = .ok (g.adding { e with code := some c }) := by
    simp [Given.set, Given.has, Given.adding, he, hc, Except.map]
  exact .step (readArgument_joined hp (by decide) rfl (by decide) hw hset) nofun (.refl _)

theorem advances_text {s : String} (hp : p.Ready (g.adding e) false) (he : e.text = none) :
    Advances .encode p ["--message=" ++ s]
      (settled (g.adding { e with text := some s }) false) := by
  have hw : ("--message=" ++ s).toList = '-' :: '-' :: ("message".toList ++ '=' :: s.toList) := by
    simp
  have hset : (g.adding e).set .text s = .ok (g.adding { e with text := some s }) := by
    simp [Given.set, Given.has, Given.adding, he]
  exact .step (readArgument_joined hp (by decide) rfl (by decide) hw hset) nofun (.refl _)

theorem ready_operand {word : String} {payload : Payload} (hr : readPayload word = .ok payload) :
    ({ settled (g.adding {}) true with pending := .operand word } : Progress).Ready
      (g.adding { payload := some payload }) true := by
  refine ⟨rfl, rfl, rfl, ?_⟩
  simp only [settle, settled, hr]
  rfl

end Commands

/-- The words of `encode`, in either order. -/
def EncodeWords (C s : String) (core : List String) : Prop :=
  core = ["--code=" ++ C, "--message=" ++ s] ∨ core = ["--message=" ++ s, "--code=" ++ C]

theorem readArguments_encode {C s : String} {c : Int32} {core words : List String} {g : Given}
    (hc : readCode C = .ok c) (hcore : EncodeWords C s core) (h : Interleaved {} core words g) :
    readArguments .encode {} words = .ok (g.adding { code := some c, text := some s }) := by
  rcases hcore with rfl | rfl
  · obtain _ | ⟨_, h₁, _ | ⟨_, h₂, h₃ | _⟩⟩ := h
    obtain ⟨q₁, a₁, r₁⟩ := (h₁.adding {}).advances .encode (ready_settled {} false)
    obtain ⟨q₂, a₂, r₂⟩ := (h₂.adding { code := some c }).advances .encode (ready_settled _ false)
    obtain ⟨q₃, a₃, r₃⟩ :=
      (h₃.adding { code := some c, text := some s }).advances .encode (ready_settled _ false)
    exact (a₁.trans ((advances_code r₁ rfl hc).trans
      (a₂.trans ((advances_text r₂ rfl).trans a₃)))).readArguments_eq_ok r₃
  · obtain _ | ⟨_, h₁, _ | ⟨_, h₂, h₃ | _⟩⟩ := h
    obtain ⟨q₁, a₁, r₁⟩ := (h₁.adding {}).advances .encode (ready_settled {} false)
    obtain ⟨q₂, a₂, r₂⟩ := (h₂.adding { text := some s }).advances .encode (ready_settled _ false)
    obtain ⟨q₃, a₃, r₃⟩ :=
      (h₃.adding { code := some c, text := some s }).advances .encode (ready_settled _ false)
    exact (a₁.trans ((advances_text r₁ rfl).trans
      (a₂.trans ((advances_code r₂ rfl hc).trans a₃)))).readArguments_eq_ok r₃

theorem readCommand_encode {C s : String} {c : Int32} {core words : List String} {g : Given}
    (hc : readCode C = .ok c) (hcore : EncodeWords C s core) (h : Interleaved {} core words g) :
    readCommand .encode words =
      .ok (.encode c s, g.adding { code := some c, text := some s }) := by
  rw [readCommand, readArguments_encode hc hcore h]
  rfl

theorem readArguments_operand {scope : Scope} (hs : scope.hasOperand = true) {word : String}
    {words : List String} {payload : Payload} {g : Given} (hw : IsPlain word)
    (hr : readPayload word = .ok payload) (h : Interleaved {} [word] words g) :
    readArguments scope {} words = .ok (g.adding { payload := some payload }) := by
  obtain _ | ⟨_, h₁, h₂ | _⟩ := h
  obtain ⟨q₁, a₁, r₁⟩ := (h₁.adding {}).advances scope (ready_settled {} false)
  have a : Advances scope q₁ [word] _ :=
    .step (readArgument_operand hs r₁ hw) (fun hp => by rw [hp] at hs; cases hs) (.refl _)
  obtain ⟨q₂, a₂, r₂⟩ :=
    (h₂.adding { payload := some payload }).advances scope (ready_operand hr)
  exact (a₁.trans (a.trans a₂)).readArguments_eq_ok r₂

section Reading

variable {word : String} {words : List String} {payload : Payload} {g : Given}

theorem readCommand_decode (hw : IsPlain word) (hr : readPayload word = .ok payload)
    (h : Interleaved {} [word] words g) :
    readCommand .decode words = .ok (.decode payload, g.adding { payload := some payload }) := by
  rw [readCommand, readArguments_operand rfl hw hr h]
  rfl

theorem readCommand_inspect (hw : IsPlain word) (hr : readPayload word = .ok payload)
    (h : Interleaved {} [word] words g) :
    readCommand .inspect words = .ok (.inspect payload, g.adding { payload := some payload }) := by
  rw [readCommand, readArguments_operand rfl hw hr h]
  rfl

end Reading

theorem parse_line {scope : Scope} {word : String} (hw : Scope.command? word = some scope)
    {before words : List String} {g e behind : Given} {command : Command}
    (hb : Flags {} before g) (hr : readCommand scope words = .ok (command, behind.adding e)) :
    parse (before ++ word :: words) = .ok (invocation g command behind) := by
  have hhelp : word ≠ "help" := by
    rintro rfl
    cases hw
  obtain ⟨q, a, r⟩ := hb.advances .program (ready_settled {} false)
  have hstart : parse (before ++ word :: words) = readProgram q (word :: words) :=
    a.readProgram_eq (word :: words)
  rw [hstart, readProgram]
  simp [r.options, r.awaits, hhelp, hw, hr, r.settle_eq, Except.map]
  rfl

end CommandLine
end ReflectionError
