import ReflectionError.Proofs.CommandLine.Operand
import ReflectionError.Proofs.Settings

/-!
# ReflectionError.Proofs.CommandLine.Outcome

How a run ends whose command line is understood: with a result, or with a report of the first of its
problems.

* `Resolves`: the options of a run.
* `Arises`: the problems that a run meets, each by itself.
* `Problem.stage`: the order they are met in.
* `execute_eq_ok_iff`, `arises_of_execute`, `execute_of_arises`: what comes out of a run.
* `execute_exchange`: a payload in an argument and the same text as the input.
* `outcome_of_accepted`: the outcome of a run.
-/

namespace ReflectionError
namespace CommandLine

/-! ## What a run has to do -/

/-- The settings file is not there or holds settings, and these and the flags come to the
options. -/
inductive Resolves (around : Surroundings) (i : Invocation) : Options → Prop where
  | default (missing : ∀ path, settingsPath around i = some path → around.file path = .missing) :
      Resolves around i (Settings.options {} i.overrides)
  | file {path text : String} {settings : Settings} (named : settingsPath around i = some path)
      (content : around.file path = .content (Utf8.encode text))
      (valid : Settings.parse text = .ok settings) :
      Resolves around i (settings.options i.overrides)

/-! ## What it may meet -/

/-- A problem of the run, whether or not another one comes before it. What a payload is refused for
is known only if there are options and bytes. -/
inductive Arises (around : Surroundings) (i : Invocation) : Problem → Prop where
  | unreadable {path : String} {fault : File.Fault} (named : settingsPath around i = some path)
      (found : around.file path = .unreadable fault) :
      Arises around i (.settings path (.unreadable fault))
  | settingsNotText {path : String} {bytes : List UInt8} (named : settingsPath around i = some path)
      (content : around.file path = .content bytes) (fault : ∀ text, bytes ≠ Utf8.encode text) :
      Arises around i (.settings path .notText)
  | settingsInvalid {path text : String} {e : Json.Error}
      (named : settingsPath around i = some path)
      (content : around.file path = .content (Utf8.encode text))
      (invalid : Settings.parse text = .error e) : Arises around i (.settings path (.invalid e))
  | inputNotText (piped : i.command.payload? = some .stdin)
      (fault : ∀ text, around.stdin ≠ Utf8.encode text) : Arises around i .inputNotText
  | inputNotHex {text : String} {fault : Hex.Fault} (piped : i.command.payload? = some .stdin)
      (input : around.stdin = Utf8.encode text) (invalid : Hex.decode text = .error fault) :
      Arises around i (.inputNotHex fault)
  | decode {payload : Payload} {o : Options} {bytes : List UInt8} {e : DecodeError}
      (command : i.command = .decode payload) (options : Resolves around i o)
      (holds : payload.Holds around bytes) (refused : Reply.decode bytes o = .error e) :
      Arises around i (.payload e)
  | inspect {payload : Payload} {o : Options} {bytes : List UInt8} {e : DecodeError}
      (command : i.command = .inspect payload) (options : Resolves around i o)
      (holds : payload.Holds around bytes) (refused : readFields bytes o = .error e) :
      Arises around i (.payload e)

/-- Settings come first, then the input as a text, its digits, and the payload. -/
def Problem.stage : Problem → Nat
  | .settings _ _ => 0
  | .inputNotText => 1
  | .inputNotHex _ => 2
  | .payload _ => 3

section Stages

variable {around : Surroundings} {i : Invocation} {o : Options} {problem : Problem}

/-! ## Settings -/

theorem resolves_of_loadSettings {settings : Settings} (h : loadSettings around i = .ok settings) :
    Resolves around i (settings.options i.overrides) := by
  cases hpath : settingsPath around i with
  | none =>
    rw [loadSettings, hpath] at h
    cases h
    refine .default fun path hsome => ?_
    cases hpath.symm.trans hsome
  | some path =>
    have hloads := Settings.loads_iff.2 ((loadSettings_eq_ok_iff hpath).1 h)
    generalize hfile : around.file path = file at hloads
    cases hloads with
    | missing =>
      refine .default fun path' hpath' => ?_
      cases hpath.symm.trans hpath'
      exact hfile
    | valid read => exact .file hpath hfile read

theorem exists_loadSettings_of_resolves (h : Resolves around i o) :
    ∃ settings, loadSettings around i = .ok settings ∧ settings.options i.overrides = o := by
  cases h with
  | default missing => exact ⟨{}, loadSettings_of_missing missing, rfl⟩
  | @file path text settings named content valid =>
    refine ⟨settings, (loadSettings_eq_ok_iff named).2 ?_, rfl⟩
    rw [content]
    exact Settings.loads_iff.1 (.valid valid)

theorem loadSettings_of_loads {path : String} {file : File} {e : Settings.LoadError}
    (named : settingsPath around i = some path) (found : around.file path = file)
    (h : Settings.Loads file (.error e)) : loadSettings around i = .error (.settings path e) := by
  rw [loadSettings, named]
  exact Except.mapError_eq_error_iff.2 ⟨e, Settings.loads_iff.1 (found ▸ h), rfl⟩

theorem loadSettings_eq_error_iff :
    loadSettings around i = .error problem ↔ Arises around i problem ∧ problem.stage = 0 := by
  constructor
  · intro h
    rw [loadSettings] at h
    split at h
    · cases h
    · next path hpath =>
      obtain ⟨e, he, rfl⟩ := Except.mapError_eq_error_iff.1 h
      refine ⟨?_, rfl⟩
      have hloads := Settings.loads_iff.2 he
      generalize hfile : around.file path = file at hloads
      cases hloads with
      | unreadable fault => exact .unreadable hpath hfile
      | notText fault => exact .settingsNotText hpath hfile fault
      | invalid refused => exact .settingsInvalid hpath hfile refused
  · rintro ⟨harises, hstage⟩
    cases harises with
    | unreadable named found => exact loadSettings_of_loads named found (.unreadable _)
    | settingsNotText named content fault =>
      exact loadSettings_of_loads named content (.notText fault)
    | settingsInvalid named content invalid =>
      exact loadSettings_of_loads named content (.invalid invalid)
    | inputNotText => cases hstage
    | inputNotHex => cases hstage
    | decode => cases hstage
    | inspect => cases hstage

/-! ## The payload -/

theorem arises_of_loadPayload {payload : Payload} (hp : i.command.payload? = some payload)
    (h : loadPayload around payload = .error problem) : Arises around i problem := by
  cases payload with
  | bytes bytes => cases h
  | stdin =>
    rw [loadPayload] at h
    split at h
    · next fault hfault =>
      cases h
      exact .inputNotText hp (Utf8.decode_eq_error_iff.1 ⟨fault, hfault⟩)
    · next text htext =>
      obtain ⟨fault, hfault, rfl⟩ := Except.mapError_eq_error_iff.1 h
      exact .inputNotHex hp (Utf8.encode_of_decode htext).symm hfault

theorem loadPayload_of_inputNotText (h : ∀ text, around.stdin ≠ Utf8.encode text) :
    loadPayload around .stdin = .error .inputNotText := by
  obtain ⟨fault, hfault⟩ := Utf8.decode_eq_error_iff.2 h
  simp only [loadPayload, hfault]

theorem loadPayload_of_inputNotHex {text : String} {fault : Hex.Fault}
    (hinput : around.stdin = Utf8.encode text) (hfault : Hex.decode text = .error fault) :
    loadPayload around .stdin = .error (.inputNotHex fault) := by
  simp only [loadPayload, hinput, Utf8.decode_encode, hfault]
  rfl

theorem arises_of_perform (hoptions : Resolves around i o)
    (h : perform around o i.command = .error problem) : Arises around i problem := by
  cases hcommand : i.command with
  | encode code text =>
    rw [hcommand] at h
    cases h
  | decode payload =>
    rw [hcommand, perform_decode, shown_eq_error_iff] at h
    rcases h with h | ⟨bytes, e, hbytes, he, rfl⟩
    · exact arises_of_loadPayload (by rw [hcommand]; rfl) h
    · exact .decode hcommand hoptions hbytes he
  | inspect payload =>
    rw [hcommand, perform_inspect, shown_eq_error_iff] at h
    rcases h with h | ⟨bytes, e, hbytes, he, rfl⟩
    · exact arises_of_loadPayload (by rw [hcommand]; rfl) h
    · exact .inspect hcommand hoptions hbytes he

theorem perform_of_loadPayload {payload : Payload} (hp : i.command.payload? = some payload)
    (h : loadPayload around payload = .error problem) :
    perform around o i.command = .error problem := by
  cases hcommand : i.command with
  | encode code text =>
    rw [hcommand] at hp
    cases hp
  | decode payload' =>
    rw [hcommand] at hp
    cases hp
    exact shown_eq_error_iff.2 (.inl h)
  | inspect payload' =>
    rw [hcommand] at hp
    cases hp
    exact shown_eq_error_iff.2 (.inl h)

/-! ## The run -/

theorem execute_eq_ok_iff {result : String} :
    execute around i = .ok result ↔
      ∃ o, Resolves around i o ∧ Prints around o i.command result := by
  rw [execute, Except.bind_eq_ok_iff]
  constructor
  · rintro ⟨settings, hload, h⟩
    exact ⟨_, resolves_of_loadSettings hload, perform_eq_ok_iff.1 h⟩
  · rintro ⟨o, hoptions, h⟩
    obtain ⟨settings, hload, rfl⟩ := exists_loadSettings_of_resolves hoptions
    exact ⟨settings, hload, perform_eq_ok_iff.2 h⟩

theorem arises_of_execute (h : execute around i = .error problem) : Arises around i problem := by
  rcases Except.bind_eq_error_iff.1 h with h | ⟨settings, hload, h⟩
  · exact (loadSettings_eq_error_iff.1 h).1
  · exact arises_of_perform (resolves_of_loadSettings hload) h

/-- A problem is reported, unless one of an earlier stage is. -/
theorem execute_of_arises (h : Arises around i problem) :
    ∃ first, execute around i = .error first ∧
      (first.stage < problem.stage ∨ problem = first) := by
  cases hload : loadSettings around i with
  | error first =>
    refine ⟨first, Except.bind_eq_error_iff.2 (.inl hload), ?_⟩
    have hfirst := (loadSettings_eq_error_iff.1 hload).2
    by_cases hstage : problem.stage = 0
    · have hsame := loadSettings_eq_error_iff.2 ⟨h, hstage⟩
      cases hload.symm.trans hsame
      exact .inr rfl
    · exact .inl (by omega)
  | ok settings =>
    have hresolves {o : Options} (ho : Resolves around i o) :
        o = settings.options i.overrides := by
      obtain ⟨settings', hload', rfl⟩ := exists_loadSettings_of_resolves ho
      cases hload.symm.trans hload'
      rfl
    have hsettings (hstage : problem.stage = 0) : False := by
      cases hload.symm.trans (loadSettings_eq_error_iff.2 ⟨h, hstage⟩)
    refine ⟨problem, ?_, .inr rfl⟩
    rw [execute_of_loadSettings hload]
    cases h with
    | unreadable => exact (hsettings rfl).elim
    | settingsNotText => exact (hsettings rfl).elim
    | settingsInvalid => exact (hsettings rfl).elim
    | inputNotText piped fault =>
      exact perform_of_loadPayload piped (loadPayload_of_inputNotText fault)
    | inputNotHex piped input invalid =>
      exact perform_of_loadPayload piped (loadPayload_of_inputNotHex input invalid)
    | decode command options holds refused =>
      rw [command, ← hresolves options]
      exact shown_eq_error_iff.2 (.inr ⟨_, _, holds, refused, rfl⟩)
    | inspect command options holds refused =>
      rw [command, ← hresolves options]
      exact shown_eq_error_iff.2 (.inr ⟨_, _, holds, refused, rfl⟩)

/-- A run has a result and meets no problem, or it reports the first that it meets. -/
theorem execute_cases (around : Surroundings) (i : Invocation) :
    (∃ result, execute around i = .ok result ∧ ∀ problem, ¬ Arises around i problem) ∨
      ∃ problem, execute around i = .error problem ∧ Arises around i problem ∧
        ∀ other, Arises around i other → problem.stage < other.stage ∨ other = problem := by
  cases he : execute around i with
  | ok result =>
    refine .inl ⟨result, rfl, fun problem harises => ?_⟩
    obtain ⟨first, hfirst, -⟩ := execute_of_arises harises
    cases he.symm.trans hfirst
  | error problem =>
    refine .inr ⟨problem, rfl, arises_of_execute he, fun other hother => ?_⟩
    obtain ⟨first, hfirst, horder⟩ := execute_of_arises hother
    cases he.symm.trans hfirst
    exact horder

end Stages

/-! ## A payload as argument and as input -/

theorem perform_withPayload {around around' : Surroundings} {payload payload' : Payload}
    (hload : loadPayload around payload = loadPayload around' payload')
    (hcolor : around.color = around'.color) (o : Options) (command : Command) :
    perform around o (command.withPayload payload) =
      perform around' o (command.withPayload payload') := by
  cases command with
  | encode code text => rfl
  | decode _ => simp only [Command.withPayload, perform, hload, hcolor]
  | inspect _ => simp only [Command.withPayload, perform, hload, hcolor]

theorem readPayload_of_decode {t : String} {bytes : List UInt8} (h : Hex.decode t = .ok bytes) :
    readPayload t = .ok (.bytes bytes) := by
  have hdash : t ≠ "-" := by
    rintro rfl
    cases h
  rw [readPayload, if_neg hdash, h]

theorem execute_exchange {around : Surroundings} {t : String} {bytes : List UInt8}
    (ht : Hex.decode t = .ok bytes) (i : Invocation) :
    execute around (i.withPayload (.bytes bytes)) =
      execute { around with stdin := Utf8.encode t } (i.withPayload .stdin) := by
  have hload : loadPayload around (.bytes bytes) =
      loadPayload { around with stdin := Utf8.encode t } .stdin := by
    simp only [loadPayload, Utf8.decode_encode, ht]
    rfl
  have hperform := perform_withPayload hload rfl
  rw [execute, execute]
  simp only [Invocation.withPayload, hperform]
  rfl

/-- A run whose command line is understood ends with 0 and its result if it meets no problem. It
ends with 1 if it meets any, and reports the first: one of the settings, then input that is no text,
then input that is not hexadecimal, then a payload that is refused. The report is the title of the
problem, an empty line, and its message. A payload may stand in an argument or come as the input,
with the same outcome. -/
theorem outcome_of_accepted {words : List String} {i : Invocation} (h : parse words = .ok i)
    (around : Surroundings) :
    ((∃ o result, Resolves around i o ∧ Prints around o i.command result ∧
          (∀ problem, ¬ Arises around i problem) ∧
          run around words = ⟨0, result ++ "\n", ""⟩) ∨
        ∃ problem, Arises around i problem ∧
          (∀ other, Arises around i other → problem.stage < other.stage ∨ other = problem) ∧
          run around words =
            ⟨1, "", "\n" ++ problem.title around.color ++ "\n\n'" ++ problem.message ++
              "'\n\n"⟩) ∧
      ((run around words).exit = 1 ↔ ∃ problem, Arises around i problem) ∧
      ∀ payload, i.command.payload? = some payload →
        ∃ before word behind, words = before ++ word :: behind ∧
          readPayload word = .ok payload ∧
          ∀ t bytes, Hex.decode t = .ok bytes →
            parse (before ++ t :: behind) = .ok (i.withPayload (.bytes bytes)) ∧
            parse (before ++ "-" :: behind) = .ok (i.withPayload .stdin) ∧
            run around (before ++ t :: behind) =
              run { around with stdin := Utf8.encode t } (before ++ "-" :: behind) := by
  refine ⟨?_, ?_, ?_⟩
  · rcases execute_cases around i with ⟨result, he, hnone⟩ | ⟨problem, he, harises, hfirst⟩
    · obtain ⟨o, hoptions, hprints⟩ := execute_eq_ok_iff.1 he
      exact .inl ⟨o, result, hoptions, hprints, hnone, run_of_execute_ok h he⟩
    · exact .inr ⟨problem, harises, hfirst, run_of_execute_error h he⟩
  · rcases execute_cases around i with ⟨result, he, hnone⟩ | ⟨problem, he, harises, -⟩
    · rw [run_of_execute_ok h he]
      exact iff_of_false Nat.zero_ne_one fun ⟨problem, harises⟩ => hnone problem harises
    · rw [run_of_execute_error h he]
      exact iff_of_true rfl ⟨problem, harises⟩
  · intro payload hpayload
    obtain ⟨before, word, behind, hwords, hread, hplace⟩ := parse_operandPlace h hpayload
    refine ⟨before, word, behind, hwords, hread, fun t bytes ht => ?_⟩
    have hargument := hplace (readPayload_of_decode ht)
    have hinput := hplace (rfl : readPayload "-" = .ok .stdin)
    exact ⟨hargument, hinput, run_congr hargument hinput (execute_exchange ht i) rfl⟩

/-- One problem after the other is taken away from a run, until it has a result. The other two
commands have theirs next to it. The dash is the name of the settings file, too, but only the second
dash may be the digits. -/
theorem outcome_of_accepted_problem_by_problem :
    let words := ["--config", "-", "decode", "--", "-"]
    let i : Invocation := ⟨.decode .stdin, some "-", {}⟩
    let around (file : File) (stdin : List UInt8) : Surroundings :=
      { file := fun _ => file, homePath := none, stdin := stdin, color := false }
    let both := around (.content [0xff]) [0xff]
    parse words = .ok i ∧
      Arises both i (.settings "-" .notText) ∧ Arises both i .inputNotText ∧
      run both words =
        ⟨1, "", "\nConfiguration Error:\n\n'Failed to read config file '-': " ++
          "stream did not contain valid UTF-8'\n\n"⟩ ∧
      run (around (.content [0x7b]) [0xff]) words =
        ⟨1, "", "\nConfiguration Error:\n\n'Invalid config file '-': " ++
          "EOF while parsing an object at line 1 column 1'\n\n"⟩ ∧
      run { around .missing [0xff] with color := true } words =
        ⟨1, "", "\n\x1b[1;31mFailed to read input:\x1b[0m\n\n" ++
          "'stream did not contain valid UTF-8'\n\n"⟩ ∧
      run (around .missing (Utf8.encode "0g")) words =
        ⟨1, "", "\nInvalid input:\n\n'Invalid hex payload: " ++
          "Invalid character 'g' at position 1'\n\n"⟩ ∧
      run (around .missing (Utf8.encode "08")) words =
        ⟨1, "", "\nDecode Failed:\n\n'Truncated input at offset 1: " ++
          "needed 1 byte(s) but only 0 remain'\n\n"⟩ ∧
      run (around .missing (Utf8.encode "08051801")) words =
        ⟨0, "\n\x7b\n  \"errorCode\": 5\n\x7d\n\nstatus: NOT_FOUND (5)\n" ++
          "unknown fields: 1\n  - #3 varint (2 bytes)\n\n", ""⟩ ∧
      run (around .missing []) ["inspect", "08051801"] =
        ⟨0, "\n@0    #1 varint error_code = 5 (NOT_FOUND)\n@2    #3 varint unknown = 1\n\n", ""⟩ ∧
      run (around .missing []) ["encode", "--code=5"] = ⟨0, "0805\n", ""⟩ ∧
      i.command.payload? = some .stdin ∧ Hex.decode "0X08 05" = .ok [0x08, 0x05] ∧
      ∃ before behind,
        parse (before ++ "0X08 05" :: behind) = .ok ⟨.decode (.bytes [0x08, 0x05]), some "-", {}⟩ ∧
        run both (before ++ "0X08 05" :: behind) =
          run { both with stdin := Utf8.encode "0X08 05" } (before ++ "-" :: behind) := by
  intro words i around both
  have hparse : parse words = .ok i := by rfl
  have hinput : Utf8.decode [0xff] = .error ⟨0, some 1⟩ := by
    rw [Utf8.decode, Utf8.decodeFrom]
    rfl
  have hnone := Utf8.decode_eq_error_iff.1 ⟨_, hinput⟩
  have hsettings : Arises both i (.settings "-" .notText) := .settingsNotText rfl rfl hnone
  have htext : Arises both i .inputNotText := .inputNotText rfl hnone
  have hhex : Hex.decode "0X08 05" = .ok [0x08, 0x05] := by rfl
  have hreports {around' : Surroundings} {problem : Problem} (harises : Arises around' i problem)
      (hfirst : ∀ other, Arises around' i other → problem.stage ≤ other.stage) :
      run around' words = ⟨1, "", "\n" ++ problem.title around'.color ++ "\n\n'" ++
        problem.message ++ "'\n\n"⟩ := by
    obtain ⟨hends, -, -⟩ := outcome_of_accepted hparse around'
    rcases hends with ⟨_, _, _, _, hnever, _⟩ | ⟨first, hmeets, horder, hrun⟩
    · exact absurd harises (hnever _)
    · rcases horder _ harises with hstage | rfl
      · exact absurd (hfirst first hmeets) (Nat.not_le.2 hstage)
      · exact hrun
  obtain ⟨-, -, hplace⟩ := outcome_of_accepted hparse both
  obtain ⟨before, -, behind, -, -, hexchange⟩ := hplace .stdin rfl
  obtain ⟨hargument, -, hsame⟩ := hexchange _ _ hhex
  refine ⟨hparse, hsettings, htext, hreports hsettings fun _ _ => Nat.zero_le _,
    by decide +kernel, ?_, by decide +kernel, by decide +kernel, by decide +kernel,
    by decide +kernel, by decide +kernel, rfl, hhex, before, behind, hargument, hsame⟩
  refine hreports (.inputNotText rfl hnone) fun other hother => ?_
  cases hother with
  | unreadable named found => cases found
  | settingsNotText named content fault => cases content
  | settingsInvalid named content invalid => cases content
  | inputNotText => exact Nat.le_refl 1
  | inputNotHex => exact Nat.le_succ 1
  | decode => exact Nat.le_add_right 1 2
  | inspect => exact Nat.le_add_right 1 2

end CommandLine
end ReflectionError
