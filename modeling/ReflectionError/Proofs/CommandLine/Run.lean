import ReflectionError.CommandLine.Run
import ReflectionError.Proofs.Report.Wording
import ReflectionError.Proofs.Text.Utf8

/-!
# ReflectionError.Proofs.CommandLine.Run

The stages of a run one by one.

* `Payload.Holds`, `Prints`: the bytes of a payload, and the result of a command.
* `Problem.title`, `Problem.message`, `Problem.report_eq`: the words that a problem is reported in.
* `loadPayload_eq_ok_iff`, `perform_eq_ok_iff`: these are what comes out.
* `shown_eq_error_iff`: what a command with a payload fails with.
* `run_of_execute_ok`, `run_of_execute_error`: what a run leaves behind.
-/

namespace ReflectionError
namespace CommandLine

/-- The bytes of a payload: those of the argument, or those that the input spells. -/
inductive Payload.Holds (around : Surroundings) : Payload → List UInt8 → Prop where
  | bytes (bytes : List UInt8) : Holds around (.bytes bytes) bytes
  | stdin {text : String} {bytes : List UInt8} (input : around.stdin = Utf8.encode text)
      (hex : Hex.decode text = .ok bytes) : Holds around .stdin bytes

/-- The result of a command, without the end of its last line. -/
inductive Prints (around : Surroundings) (o : Options) : Command → String → Prop where
  | encode (code : Int32) (text : String) :
      Prints around o (.encode code text) (Hex.encode (Reply.new code text).encode)
  | decode {payload : Payload} {bytes : List UInt8} {r : Reply} (holds : payload.Holds around bytes)
      (read : Reply.decode bytes o = .ok r) :
      Prints around o (.decode payload) ("\n" ++ Report.reply around.color r ++ "\n")
  | inspect {payload : Payload} {bytes : List UInt8} {fs : List RawField}
      (holds : payload.Holds around bytes) (read : readFields bytes o = .ok fs) :
      Prints around o (.inspect payload) ("\n" ++ Report.fields around.color fs ++ "\n")

/-! ## Problems -/

def Problem.title (color : Bool) : Problem → String
  | .settings _ _ => Report.styled color "1;31" "Configuration Error" ++ ":"
  | .inputNotText => Report.styled color "1;31" "Failed to read input:"
  | .inputNotHex _ => Report.styled color "1;31" "Invalid input" ++ ":"
  | .payload _ => Report.styled color "1;31" "Decode Failed:"

def Problem.message : Problem → String
  | .settings path (.unreadable fault) =>
    "Failed to read config file '" ++ path ++ "': " ++ fault.message
  | .settings path .notText =>
    "Failed to read config file '" ++ path ++ "': " ++ "stream did not contain valid UTF-8"
  | .settings path (.invalid error) => "Invalid config file '" ++ path ++ "': " ++ error.message
  | .inputNotText => "stream did not contain valid UTF-8"
  | .inputNotHex fault => fault.message
  | .payload error => error.message

theorem Problem.message_settings (path : String) (e : Settings.LoadError) :
    (Problem.settings path e).message = e.context path ++ ": " ++ e.cause := by
  have hmark (front cause : String) :
      front ++ path ++ "': " ++ cause = front ++ path ++ "'" ++ ": " ++ cause := by
    have hmarks : "': " = "'" ++ ": " := rfl
    rw [hmarks, ← String.append_assoc]
  cases e with
  | unreadable fault => exact hmark _ _
  | notText => exact hmark _ _
  | invalid error => exact hmark _ _

/-- A report is a title, an empty line, and a message between marks. -/
theorem Problem.report_eq (color : Bool) (problem : Problem) :
    problem.report color = problem.title color ++ "\n\n'" ++ problem.message ++ "'" := by
  have hquoted : problem.title color ++ "\n\n'" ++ problem.message ++ "'" =
      problem.title color ++ Report.quoted problem.message := by
    rw [Report.quoted]
    simp only [String.append_assoc]
  rw [hquoted]
  cases problem with
  | settings path e =>
    rw [message_settings]
    rfl
  | inputNotText => rfl
  | inputNotHex fault => rfl
  | payload e => rfl

section Stages

variable {around : Surroundings} {i : Invocation} {o : Options} {problem : Problem}

/-! ## The payload -/

theorem loadPayload_eq_ok_iff {payload : Payload} {bytes : List UInt8} :
    loadPayload around payload = .ok bytes ↔ payload.Holds around bytes := by
  constructor
  · intro h
    cases payload with
    | bytes bytes' =>
      cases h
      exact .bytes bytes
    | stdin =>
      rw [loadPayload] at h
      split at h
      · cases h
      · next text htext =>
        exact .stdin (Utf8.encode_of_decode htext).symm (Except.mapError_eq_ok_iff.1 h)
  · intro h
    cases h with
    | bytes => rfl
    | stdin input hex =>
      simp only [loadPayload, input, Utf8.decode_encode]
      exact Except.mapError_eq_ok_iff.2 hex

/-! ## The command -/

def shown {α : Type} (around : Surroundings) (payload : Payload)
    (read : List UInt8 → Except DecodeError α) (render : α → String) : Except Problem String := do
  let bytes ← loadPayload around payload
  let a ← (read bytes).mapError .payload
  return render a

section Shown

variable {α : Type} {payload : Payload} {read : List UInt8 → Except DecodeError α}
  {render : α → String}

theorem shown_eq_ok_iff {result : String} :
    shown around payload read render = .ok result ↔
      ∃ bytes a, payload.Holds around bytes ∧ read bytes = .ok a ∧ render a = result := by
  rw [shown, Except.bind_eq_ok_iff]
  constructor
  · rintro ⟨bytes, hbytes, h⟩
    obtain ⟨a, ha, h⟩ := Except.bind_eq_ok_iff.1 h
    cases h
    exact ⟨bytes, a, loadPayload_eq_ok_iff.1 hbytes, Except.mapError_eq_ok_iff.1 ha, rfl⟩
  · rintro ⟨bytes, a, hbytes, ha, rfl⟩
    exact ⟨bytes, loadPayload_eq_ok_iff.2 hbytes,
      Except.bind_eq_ok_iff.2 ⟨a, Except.mapError_eq_ok_iff.2 ha, rfl⟩⟩

theorem shown_eq_error_iff :
    shown around payload read render = .error problem ↔
      loadPayload around payload = .error problem ∨
        ∃ bytes e, payload.Holds around bytes ∧ read bytes = .error e ∧ .payload e = problem := by
  rw [shown, Except.bind_eq_error_iff]
  refine or_congr Iff.rfl ⟨?_, ?_⟩
  · rintro ⟨bytes, hbytes, h⟩
    rcases Except.bind_eq_error_iff.1 h with h | ⟨a, -, h⟩
    · obtain ⟨e, he, heq⟩ := Except.mapError_eq_error_iff.1 h
      exact ⟨bytes, e, loadPayload_eq_ok_iff.1 hbytes, he, heq⟩
    · cases h
  · rintro ⟨bytes, e, hbytes, he, heq⟩
    exact ⟨bytes, loadPayload_eq_ok_iff.2 hbytes,
      Except.bind_eq_error_iff.2 (.inl (Except.mapError_eq_error_iff.2 ⟨e, he, heq⟩))⟩

end Shown

theorem perform_decode (payload : Payload) : perform around o (.decode payload) =
    shown around payload (Reply.decode · o) fun r =>
      "\n" ++ Report.reply around.color r ++ "\n" := rfl

theorem perform_inspect (payload : Payload) : perform around o (.inspect payload) =
    shown around payload (readFields · o) fun fs =>
      "\n" ++ Report.fields around.color fs ++ "\n" := rfl

theorem perform_eq_ok_iff {command : Command} {result : String} :
    perform around o command = .ok result ↔ Prints around o command result := by
  cases command with
  | encode code text =>
    constructor
    · intro h
      cases h
      exact .encode code text
    · intro h
      cases h
      rfl
  | decode payload =>
    rw [perform_decode, shown_eq_ok_iff]
    constructor
    · rintro ⟨bytes, r, hbytes, hr, rfl⟩
      exact .decode hbytes hr
    · intro h
      cases h with
      | decode holds read => exact ⟨_, _, holds, read, rfl⟩
  | inspect payload =>
    rw [perform_inspect, shown_eq_ok_iff]
    constructor
    · rintro ⟨bytes, fs, hbytes, hfs, rfl⟩
      exact .inspect hbytes hfs
    · intro h
      cases h with
      | inspect holds read => exact ⟨_, _, holds, read, rfl⟩

/-! ## The run -/

theorem execute_of_loadSettings {settings : Settings} (h : loadSettings around i = .ok settings) :
    execute around i = perform around (settings.options i.overrides) i.command := by
  rw [execute, h]
  rfl

variable {words : List String}

theorem run_of_execute_ok {result : String} (h : parse words = .ok i)
    (he : execute around i = .ok result) : run around words = ⟨0, result ++ "\n", ""⟩ := by
  simp only [run, h, he]

theorem run_of_execute_error (h : parse words = .ok i) (he : execute around i = .error problem) :
    run around words =
      ⟨1, "", "\n" ++ problem.title around.color ++ "\n\n'" ++ problem.message ++ "'\n\n"⟩ := by
  have hend : "'\n\n" = "'" ++ "\n\n" := rfl
  have hreport : Report.page (problem.report around.color) ++ "\n" =
      "\n" ++ problem.title around.color ++ "\n\n'" ++ problem.message ++ "'\n\n" := by
    rw [Report.page, Report.append_newlines, problem.report_eq, hend]
    simp only [String.append_assoc]
  simp only [run, h, he, hreport]

theorem run_congr {around' : Surroundings} {words' : List String} {i' : Invocation}
    (h : parse words = .ok i) (h' : parse words' = .ok i')
    (he : execute around i = execute around' i') (hcolor : around.color = around'.color) :
    run around words = run around' words' := by
  simp only [run, h, h', he, hcolor]

end Stages

end CommandLine
end ReflectionError
