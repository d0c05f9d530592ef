import ReflectionError.CommandLine.Run

/-!
# ReflectionError.Main

The program. It looks up what the run needs in its surroundings, lets `CommandLine.run` decide
everything, and prints what the run leaves behind.
-/

namespace ReflectionError
namespace CommandLine

/-- The directory for settings: the one of the environment if it is absolute, or else `.config` in
the home directory. -/
def settingsDirectory? (configHome home : Option String) : Option String :=
  match configHome with
  | some directory =>
    if directory.startsWith "/" then some directory else home.map (· ++ "/.config")
  | none => home.map (· ++ "/.config")

def isOn (switch : String) : Bool := switch != "0"

/-- Colours can be forced, they can be forbidden, and else they are for terminals. -/
def wantsColor (force forbid allow : Option String) (terminal : Bool) : Bool :=
  if force.any isOn then true
  else if forbid.isSome then false
  else terminal && allow.all isOn

partial def readToEnd (stream : IO.FS.Stream) (bytes : ByteArray) : IO ByteArray := do
  let more ← stream.read 65536
  if more.isEmpty then return bytes else readToEnd stream (bytes ++ more)

/-- What an attempt to read a path means when the system refuses it; `none` if it says nothing about
the file. A path that cannot be followed to its end leads nowhere. -/
def fileOfError? : IO.Error → Option File
  | .noFileOrDirectory .. | .invalidArgument .. => some .missing
  | .inappropriateType _ number _ =>
    some (if number = 21 then .unreadable .isDirectory else .missing)
  | .permissionDenied .. => some (.unreadable .notPermitted)
  | _ => none

def readFile (path : String) : IO File := do
  try
    let content ← IO.FS.readBinFile path
    return .content content.data.toList
  catch error =>
    match fileOfError? error with
    | some file => return file
    | none => throw error

def gather (arguments : List String) : IO Surroundings := do
  let directory := settingsDirectory? (← IO.getEnv "XDG_CONFIG_HOME") (← IO.getEnv "HOME")
  let homePath := directory.map (· ++ "/refwire/config.json")
  let stdout ← IO.getStdout
  let color := wantsColor (← IO.getEnv "CLICOLOR_FORCE") (← IO.getEnv "NO_COLOR")
    (← IO.getEnv "CLICOLOR") (← stdout.isTty)
  match parse arguments with
  | .error _ => return ⟨fun _ => .missing, homePath, [], color⟩
  | .ok invocation =>
    let path? := invocation.config.or homePath
    let file ← match path? with
      | some path => readFile path
      | none => pure .missing
    let input ← if invocation.command.payload? = some .stdin then
        readToEnd (← IO.getStdin) ByteArray.empty
      else pure ByteArray.empty
    return ⟨fun path => if some path = path? then file else .missing, homePath,
      input.data.toList, color⟩

end CommandLine
end ReflectionError

def main (arguments : List String) : IO UInt32 := do
  let surroundings ← ReflectionError.CommandLine.gather arguments
  let outcome := ReflectionError.CommandLine.run surroundings arguments
  (← IO.getStdout).putStr outcome.stdout
  (← IO.getStderr).putStr outcome.stderr
  return UInt32.ofNat outcome.exit
