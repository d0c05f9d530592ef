import ReflectionError.Decimal.Integer
import ReflectionError.Reply.Basic
import ReflectionError.Text.Printable

/-!
# ReflectionError.Status

The seventeen status codes of gRPC, their names and numbers, and the way between a reply and a
status. A number outside 0 to 16 counts as `unknown` when a code is needed and is labelled
`non-canonical` when it is shown.
-/

namespace ReflectionError

inductive Code where
  | ok
  | cancelled
  | unknown
  | invalidArgument
  | deadlineExceeded
  | notFound
  | alreadyExists
  | permissionDenied
  | resourceExhausted
  | failedPrecondition
  | aborted
  | outOfRange
  | unimplemented
  | internal
  | unavailable
  | dataLoss
  | unauthenticated
  deriving DecidableEq, Repr

namespace Code

/-- Every code, at the place of its number. -/
def all : List Code :=
  [ok, cancelled, unknown, invalidArgument, deadlineExceeded, notFound, alreadyExists,
    permissionDenied, resourceExhausted, failedPrecondition, aborted, outOfRange, unimplemented,
    internal, unavailable, dataLoss, unauthenticated]

def toNat : Code → Nat
  | ok => 0
  | cancelled => 1
  | unknown => 2
  | invalidArgument => 3
  | deadlineExceeded => 4
  | notFound => 5
  | alreadyExists => 6
  | permissionDenied => 7
  | resourceExhausted => 8
  | failedPrecondition => 9
  | aborted => 10
  | outOfRange => 11
  | unimplemented => 12
  | internal => 13
  | unavailable => 14
  | dataLoss => 15
  | unauthenticated => 16

def ofNat? (n : Nat) : Option Code := all[n]?

def toInt32 (c : Code) : Int32 := Int32.ofNat c.toNat

/-- The code of a number, `unknown` for a number that has none. -/
def ofInt32 (n : Int32) : Code :=
  if n.toInt < 0 then unknown else (ofNat? n.toInt.toNat).getD unknown

def name : Code → String
  | ok => "OK"
  | cancelled => "CANCELLED"
  | unknown => "UNKNOWN"
  | invalidArgument => "INVALID_ARGUMENT"
  | deadlineExceeded => "DEADLINE_EXCEEDED"
  | notFound => "NOT_FOUND"
  | alreadyExists => "ALREADY_EXISTS"
  | permissionDenied => "PERMISSION_DENIED"
  | resourceExhausted => "RESOURCE_EXHAUSTED"
  | failedPrecondition => "FAILED_PRECONDITION"
  | aborted => "ABORTED"
  | outOfRange => "OUT_OF_RANGE"
  | unimplemented => "UNIMPLEMENTED"
  | internal => "INTERNAL"
  | unavailable => "UNAVAILABLE"
  | dataLoss => "DATA_LOSS"
  | unauthenticated => "UNAUTHENTICATED"

def describe (n : Int32) : String :=
  if n.toInt < 0 then "non-canonical"
  else match ofNat? n.toInt.toNat with
    | some c => c.name
    | none => "non-canonical"

/-- A name as it is compared: without `_` and `-`, ASCII letters in lower case. -/
def normalize (s : List Char) : List Char :=
  (s.filter fun c => c != '_' && c != '-').map Char.toLower

/-- The code that a text names, by number or by name, blanks around it left out. A text that is a
number below `2 ^ 64` is no name. -/
def parse? (s : String) : Option Code :=
  let t := Text.trim s.toList
  match Decimal.readNat (UInt64.size - 1) t with
  | .ok n => ofNat? n
  | .error _ => all.find? fun c => normalize c.name.toList = normalize t

end Code

structure Status where
  code : Code
  message : String
  deriving DecidableEq

namespace Reply

def ofCode (code : Code) (text : String) : Reply := new code.toInt32 text

def notFound (text : String) : Reply := ofCode .notFound text

def invalidArgument (text : String) : Reply := ofCode .invalidArgument text

def unimplemented (text : String) : Reply := ofCode .unimplemented text

def statusCode (r : Reply) : Code := Code.ofInt32 r.code

def toStatus (r : Reply) : Status := ⟨r.statusCode, r.text⟩

def ofStatus (s : Status) : Reply := ofCode s.code s.message

end Reply
end ReflectionError
