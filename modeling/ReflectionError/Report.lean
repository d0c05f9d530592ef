import ReflectionError.Json.Value
import ReflectionError.Reply.Decode
import ReflectionError.Reply.Json
import ReflectionError.Status
import ReflectionError.Text.Hex

/-!
# ReflectionError.Report

What is shown to people: a decoded reply, the fields of a payload one to a line, and errors. Colours
are escape sequences around single words and are left out where the terminal does not take them.
-/

namespace ReflectionError
namespace Report

inductive Colour where
  | cyan
  | green
  | yellow
  | boldRed
  deriving DecidableEq

def Colour.parameters : Colour → String
  | .cyan => "36"
  | .green => "32"
  | .yellow => "33"
  | .boldRed => "1;31"

def paint (color : Bool) (c : Colour) (s : String) : String :=
  if color then "\x1b[" ++ c.parameters ++ "m" ++ s ++ "\x1b[0m" else s

/-- A report with an empty line before it and the end of its last line. -/
def page (report : String) : String := "\n" ++ report ++ "\n"

/-! ## Replies -/

def unknownLine (field : UnknownField) : String :=
  s!"\n  - #{field.number} " ++ field.wireType.name ++ s!" ({field.raw.length} bytes)"

/-- How many undeclared fields there are, and one line for each; nothing if there are none. -/
def unknownSummary (color : Bool) (fields : List UnknownField) : String :=
  if fields = [] then ""
  else "\n" ++ paint color .cyan "unknown fields:" ++ " " ++
    paint color .yellow (toString fields.length) ++ String.join (fields.map unknownLine)

def statusLine (color : Bool) (code : Int32) : String :=
  paint color .cyan "status:" ++ " " ++ paint color .green (Code.describe code) ++
    s!" ({code.toInt})"

def reply (color : Bool) (r : Reply) : String :=
  r.toJson.pretty ++ "\n\n" ++ statusLine color r.code ++ unknownSummary color r.unknown

/-! ## Fields -/

/-- What a read of a field's payload found, or the error that it met. -/
def found {α : Type} (read : Read α) (describe : α → String) : String :=
  match read with
  | .ok (a, _) => describe a
  | .error failure => failure.error.message

def describeCode (value : Nat) : String :=
  let code := Reply.codeOfValue value
  s!"{code.toInt} (" ++ Code.describe code ++ ")"

def describeBytes (bytes : List UInt8) : String := s!"[{bytes.length} bytes] " ++ Hex.encode bytes

def describeValue (field : RawField) : String :=
  let c := Cursor.start field.payload
  match field.key.wireType with
  | .varint =>
    found c.readVarint fun value =>
      if field.key.number = Reply.codeField then describeCode value else toString value
  | .lengthDelimited =>
    found c.readLengthDelimited fun bytes =>
      if field.key.number = Reply.textField then Quoted.string (Utf8.repair bytes)
      else describeBytes bytes
  | .fixed32 | .fixed64 => Hex.encode field.payload
  | .startGroup | .endGroup => s!"group [{field.payload.length} bytes]"

def label (color : Bool) (key : Key) : String :=
  if key = ⟨Reply.codeField, .varint⟩ then paint color .green "error_code"
  else if key = ⟨Reply.textField, .lengthDelimited⟩ then paint color .green "error_message"
  else paint color .yellow "unknown"

/-- A number with blanks behind it up to four characters. -/
def padded (n : Nat) : String :=
  let digits := toString n
  digits ++ String.ofList (List.replicate (4 - digits.length) ' ')

def fieldLine (color : Bool) (field : RawField) : String :=
  "@" ++ padded field.offset ++ s!" #{field.key.number} " ++
    paint color .cyan field.key.wireType.name ++ " " ++ label color field.key ++ " = " ++
    describeValue field ++ "\n"

/-- The fields of a payload, one to a line, without the blanks at the end of the last line. -/
def fields (color : Bool) (fs : List RawField) : String :=
  if fs = [] then paint color .yellow "Empty payload (all fields at their defaults)."
  else String.ofList (Text.trimEnd (String.join (fs.map (fieldLine color))).toList)

/-! ## Errors -/

def quoted (message : String) : String := "\n\n'" ++ message ++ "'"

def decodeError (color : Bool) (e : DecodeError) : String :=
  paint color .boldRed "Decode Failed:" ++ quoted e.message

def inputError (color : Bool) (message : String) : String :=
  paint color .boldRed "Failed to read input:" ++ quoted message

def failure (color : Bool) (title message : String) : String :=
  paint color .boldRed title ++ ":" ++ quoted message

end Report
end ReflectionError
