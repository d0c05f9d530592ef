import ReflectionError.Json.Value
import ReflectionError.Text.Printable

/-!
# ReflectionError.Json.Error

What can be wrong with a JSON text. A `Flaw` is a breach of the format, a `Mismatch` a well-formed
value that is not what was asked for. A `Fault` is either, with the place in the text where it was
noticed, and `Fault.locate` turns that place into a line and a column, which counts bytes.
-/

namespace ReflectionError
namespace Json

inductive Flaw where
  | endInList
  | endInObject
  | endInString
  | endInValue
  | expectedColon
  | expectedListComma
  | expectedObjectComma
  | expectedWord
  | expectedValue
  | invalidEscape
  | invalidNumber
  | numberOutOfRange
  | controlCharacter
  | keyNotString
  | loneSurrogate
  | missingSurrogate
  | trailingComma
  | trailingText
  | tooDeep
  deriving DecidableEq

namespace Flaw

def isEnd : Flaw → Bool
  | endInList | endInObject | endInString | endInValue => true
  | _ => false

def message : Flaw → String
  | endInList => "EOF while parsing a list"
  | endInObject => "EOF while parsing an object"
  | endInString => "EOF while parsing a string"
  | endInValue => "EOF while parsing a value"
  | expectedColon => "expected `:`"
  | expectedListComma => "expected `,` or `]`"
  | expectedObjectComma => "expected `,` or `\x7d`"
  | expectedWord => "expected ident"
  | expectedValue => "expected value"
  | invalidEscape => "invalid escape"
  | invalidNumber => "invalid number"
  | numberOutOfRange => "number out of range"
  | controlCharacter => "control character (\\u0000-\\u001F) found while parsing a string"
  | keyNotString => "key must be a string"
  | loneSurrogate => "lone leading surrogate in hex escape"
  | missingSurrogate => "unexpected end of hex escape"
  | trailingComma => "trailing comma"
  | trailingText => "trailing characters"
  | tooDeep => "recursion limit exceeded"

end Flaw

inductive Found where
  | null
  | boolean (b : Bool)
  | number (n : Number)
  | string (s : String)
  | list
  | object

def Value.found : Value → Found
  | .null => .null
  | .boolean b => .boolean b
  | .number n => .number n
  | .string s => .string s
  | .array _ => .list
  | .object _ => .object

def Found.message : Found → String
  | .null => "null"
  | .boolean b => if b then "boolean `true`" else "boolean `false`"
  | .number (.integer n) => s!"integer `{n}`"
  | .number (.float x) => "floating point `" ++ Decimal.floatText x.toBits ++ "`"
  | .string s => "string " ++ Quoted.string s
  | .list => "sequence"
  | .object => "map"

inductive Mismatch where
  | wrongType (found : Found) (expected : String)
  | outOfRange (found : Found) (expected : String)
  | repeatedField (name : String)
  /-- A code that is neither a 32-bit number nor a text. -/
  | notCode
  | notInt32 (text : String)
  /-- A list of more items than there are fields. -/
  | tooManyItems (length : Nat)

def Mismatch.message : Mismatch → String
  | .wrongType found expected => "invalid type: " ++ found.message ++ ", expected " ++ expected
  | .outOfRange found expected => "invalid value: " ++ found.message ++ ", expected " ++ expected
  | .repeatedField name => "duplicate field `" ++ name ++ "`"
  | .notCode => "data did not match any variant of untagged enum Int32Value"
  | .notInt32 text => "invalid int32 value: " ++ Quoted.string text
  | .tooManyItems length => s!"invalid length {length}, expected fewer elements in array"

inductive Cause where
  | flaw (flaw : Flaw)
  | mismatch (mismatch : Mismatch)

def Cause.message : Cause → String
  | .flaw f => f.message
  | .mismatch m => m.message

/-- A cause, and the place where it was noticed: `ahead` bytes behind the start of `rest`, or the
end of the text if that is nearer. -/
structure Fault where
  cause : Cause
  rest : List Char
  ahead : Nat := 0

namespace Fault

/-- A flaw noticed at the end of what has been read. -/
def here (flaw : Flaw) (rest : List Char) : Fault := { cause := .flaw flaw, rest }

/-- A flaw noticed by looking at the next character. -/
def peeked (flaw : Flaw) (rest : List Char) : Fault := { cause := .flaw flaw, rest, ahead := 1 }

def ofMismatch (mismatch : Mismatch) (rest : List Char) : Fault :=
  { cause := .mismatch mismatch, rest }

end Fault

structure Error where
  cause : Cause
  line : Nat
  column : Nat

def Error.message (e : Error) : String :=
  e.cause.message ++ s!" at line {e.line} column {e.column}"

def byteLength : List Char → Nat
  | [] => 0
  | c :: rest => c.utf8Size + byteLength rest

/-- The line and the column reached from a place by going on `index` bytes. -/
def position (index line column : Nat) : List Char → Nat × Nat
  | [] => (line, column)
  | c :: rest =>
    if index = 0 then (line, column)
    else if c = '\n' then position (index - 1) (line + 1) 0 rest
    else if index < c.utf8Size then (line, column + index)
    else position (index - c.utf8Size) line (column + c.utf8Size) rest

def Fault.locate (text : List Char) (f : Fault) : Error :=
  let index := byteLength text - byteLength f.rest + f.ahead
  let (line, column) := position index 1 0 text
  ⟨f.cause, line, column⟩

end Json
end ReflectionError
