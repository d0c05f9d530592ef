import ReflectionError.Json.Record
import ReflectionError.Options

/-!
# ReflectionError.Settings

Settings that stay from one run to the next: the options for reading payloads, as a JSON text in a
file. What the text leaves out has its default, and so has everything if there is no file. Flags of
a run override single options. What a path leads to is nothing, a file with its content, or
something that has no content to give.
-/

namespace ReflectionError

open Json

/-! ## Files -/

inductive File.Fault where
  | isDirectory
  | notPermitted
  deriving DecidableEq

def File.Fault.message : File.Fault → String
  | .isDirectory => "Is a directory (os error 21)"
  | .notPermitted => "Permission denied (os error 13)"

/-- What stands at a path. -/
inductive File where
  | missing
  | unreadable (fault : File.Fault)
  | content (bytes : List UInt8)
  deriving DecidableEq

/-! ## The settings file -/

def Options.record : Record Options where
  expected := "struct DecodeOptions"
  fields :=
    [.ofLeaf "strict_utf8" .boolean fun o strictText => { o with strictText },
     .ofLeaf "recursion_limit" (.natural (UInt32.size - 1) "u32") fun o nestingLimit =>
       { o with nestingLimit },
     .ofLeaf "max_message_size" (.optional (.natural (UInt64.size - 1) "usize")) fun o sizeLimit =>
       { o with sizeLimit }]

def Options.parse (text : String) : Except Json.Error Options := readAll (record.read {}) text

structure Settings where
  decode : Options := {}
  deriving DecidableEq, Repr

namespace Settings

/-- Settings as a record. The options are read onto the defaults. -/
def record : Record Settings where
  expected := "struct AppConfig"
  fields := [.ofRecord "decode" Options.record (fun _ => {}) fun _ decode => { decode }]

def parse (text : String) : Except Json.Error Settings := readAll (record.read {}) text

inductive LoadError where
  | unreadable (fault : File.Fault)
  | notText
  | invalid (error : Json.Error)

/-- What failed, the file being at `path`. -/
def LoadError.context (path : String) : LoadError → String
  | .unreadable _ | .notText => "Failed to read config file '" ++ path ++ "'"
  | .invalid _ => "Invalid config file '" ++ path ++ "'"

def LoadError.cause : LoadError → String
  | .unreadable fault => fault.message
  | .notText => "stream did not contain valid UTF-8"
  | .invalid error => error.message

def load : File → Except LoadError Settings
  | .missing => .ok {}
  | .unreadable fault => .error (.unreadable fault)
  | .content bytes =>
    match Utf8.decode bytes with
    | .error _ => .error .notText
    | .ok text =>
      match parse text with
      | .ok settings => .ok settings
      | .error e => .error (.invalid e)

end Settings

structure Overrides where
  lossy : Bool := false
  nestingLimit : Option Nat := none
  sizeLimit : Option Nat := none
  deriving DecidableEq, Repr

def Settings.options (settings : Settings) (flags : Overrides) : Options where
  strictText := settings.decode.strictText && !flags.lossy
  nestingLimit := flags.nestingLimit.getD settings.decode.nestingLimit
  sizeLimit := flags.sizeLimit.or settings.decode.sizeLimit

end ReflectionError
