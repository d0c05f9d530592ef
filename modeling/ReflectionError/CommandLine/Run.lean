import ReflectionError.CommandLine.Parser
import ReflectionError.Report

/-!
# ReflectionError.CommandLine.Run

The program as a function of what it is started with. It goes through four stages, each of which may
end it with a report on the error output: settings, input text, hexadecimal digits, payload. A
command line that is not understood ends it before that.
-/

namespace ReflectionError
namespace CommandLine

structure Surroundings where
  file : String → File
  /-- The path of the settings file that is used when none is named. -/
  homePath : Option String
  stdin : List UInt8
  color : Bool

structure Outcome where
  exit : Nat
  stdout : String
  stderr : String
  deriving DecidableEq

inductive Problem where
  | settings (path : String) (error : Settings.LoadError)
  | inputNotText
  | inputNotHex (fault : Hex.Fault)
  | payload (error : DecodeError)

def Problem.report (color : Bool) : Problem → String
  | .settings path e =>
    Report.failure color "Configuration Error" (e.context path ++ ": " ++ e.cause)
  | .inputNotText => Report.inputError color "stream did not contain valid UTF-8"
  | .inputNotHex fault => Report.failure color "Invalid input" fault.message
  | .payload e => Report.decodeError color e

def settingsPath (around : Surroundings) (i : Invocation) : Option String :=
  i.config.or around.homePath

def loadSettings (around : Surroundings) (i : Invocation) : Except Problem Settings :=
  match settingsPath around i with
  | none => .ok {}
  | some path => (Settings.load (around.file path)).mapError (.settings path)

def loadPayload (around : Surroundings) : Payload → Except Problem (List UInt8)
  | .bytes bytes => .ok bytes
  | .stdin =>
    match Utf8.decode around.stdin with
    | .error _ => .error .inputNotText
    | .ok text => (Hex.decode text).mapError .inputNotHex

/-- The result of a command, without the end of its last line. -/
def perform (around : Surroundings) (o : Options) : Command → Except Problem String
  | .encode code text => .ok (Hex.encode (Reply.new code text).encode)
  | .decode payload => do
    let bytes ← loadPayload around payload
    let r ← (Reply.decode bytes o).mapError .payload
    return Report.page (Report.reply around.color r)
  | .inspect payload => do
    let bytes ← loadPayload around payload
    let fs ← (readFields bytes o).mapError .payload
    return Report.page (Report.fields around.color fs)

def execute (around : Surroundings) (i : Invocation) : Except Problem String := do
  let settings ← loadSettings around i
  perform around (settings.options i.overrides) i.command

def versionText : String := "refwire 0.1.0\n"

/-- What a refusal leaves behind: the version if it was asked for, and no text otherwise. -/
def Refusal.outcome : Refusal → Outcome
  | .versionWanted => ⟨0, versionText, ""⟩
  | .helpWanted => ⟨0, "", ""⟩
  | _ => ⟨2, "", ""⟩

def run (around : Surroundings) (words : List String) : Outcome :=
  match parse words with
  | .error r => r.outcome
  | .ok i =>
    match execute around i with
    | .ok result => ⟨0, result ++ "\n", ""⟩
    | .error problem => ⟨1, "", Report.page (problem.report around.color) ++ "\n"⟩

end CommandLine
end ReflectionError
