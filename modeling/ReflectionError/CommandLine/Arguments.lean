import ReflectionError.Settings
import ReflectionError.Status
import ReflectionError.Text.Hex

/-!
# ReflectionError.CommandLine.Arguments

What a command line can say: the commands, the options each of them knows, and how the values of
options and operands are read.
-/

namespace ReflectionError
namespace CommandLine

inductive Payload where
  | stdin
  | bytes (bytes : List UInt8)
  deriving DecidableEq

inductive Command where
  | encode (code : Int32) (text : String)
  | decode (payload : Payload)
  | inspect (payload : Payload)
  deriving DecidableEq

def Command.payload? : Command → Option Payload
  | .encode _ _ => none
  | .decode payload => some payload
  | .inspect payload => some payload

structure Invocation where
  command : Command
  config : Option String
  overrides : Overrides
  deriving DecidableEq

inductive Refusal where
  | invalidValue (reason : String)
  | missingValue
  | unneededValue
  | repeatedOption
  | unknownArgument
  | unknownCommand
  | missingArgument
  | missingCommand
  | nothingGiven
  | helpWanted
  | versionWanted
  deriving DecidableEq

inductive Scope where
  | program
  | encode
  | decode
  | inspect
  deriving DecidableEq

def Scope.command? (word : String) : Option Scope :=
  if word = "encode" then some .encode
  else if word = "decode" then some .decode
  else if word = "inspect" then some .inspect
  else none

def isCommandWord (word : String) : Bool := word = "help" || (Scope.command? word).isSome

inductive Opt where
  | help
  | version
  | config
  | lossy
  | nestingLimit
  | sizeLimit
  | code
  | text
  deriving DecidableEq

namespace Opt

def takesValue : Opt → Bool
  | help | version | lossy => false
  | config | nestingLimit | sizeLimit | code | text => true

def ofLong? (scope : Scope) (name : List Char) : Option Opt :=
  if name = "help".toList then some help
  else if name = "config".toList then some config
  else if name = "lossy".toList then some lossy
  else if name = "recursion-limit".toList then some nestingLimit
  else if name = "max-size".toList then some sizeLimit
  else if scope = .program && name = "version".toList then some version
  else if scope = .encode && name = "code".toList then some code
  else if scope = .encode && name = "message".toList then some text
  else none

def ofShort? (scope : Scope) (letter : Char) : Option Opt :=
  if letter = 'h' then some help
  else if scope = .program && letter = 'V' then some version
  else if scope = .encode && letter = 'c' then some code
  else if scope = .encode && letter = 'm' then some text
  else none

end Opt

def Scope.hasOperand : Scope → Bool
  | .decode | .inspect => true
  | .program | .encode => false

structure Given where
  config : Option String := none
  lossy : Bool := false
  nestingLimit : Option Nat := none
  sizeLimit : Option Nat := none
  code : Option Int32 := none
  text : Option String := none
  payload : Option Payload := none
  deriving DecidableEq

/-- The number of a status code: any 32-bit number, or a code's name. -/
def readCode (s : String) : Except Refusal Int32 :=
  match Decimal.readInt 32 (Text.trim s.toList) with
  | .ok n => .ok (Int32.ofInt n)
  | .error _ =>
    match Code.parse? s with
    | some c => .ok c.toInt32
    | none => .error (.invalidValue ("Unknown status code: '" ++ s ++ "'"))

/-- A payload in hexadecimal, or a dash for one that comes from the standard input. -/
def readPayload (s : String) : Except Refusal Payload :=
  if s = "-" then .ok .stdin
  else match Hex.decode s with
    | .ok bytes => .ok (.bytes bytes)
    | .error fault => .error (.invalidValue fault.message)

def readNestingLimit (s : String) : Except Refusal Nat :=
  match Decimal.readInt 64 s.toList with
  | .error fault => .error (.invalidValue fault.message)
  | .ok n =>
    if 0 ≤ n && n < UInt32.size then .ok n.toNat
    else .error (.invalidValue s!"{n} is not in 0..=4294967295")

def readSizeLimit (s : String) : Except Refusal Nat :=
  match Decimal.readNat (UInt64.size - 1) s.toList with
  | .error fault => .error (.invalidValue fault.message)
  | .ok n => .ok n

namespace Given

def has (g : Given) : Opt → Bool
  | .help | .version => false
  | .config => g.config.isSome
  | .lossy => g.lossy
  | .nestingLimit => g.nestingLimit.isSome
  | .sizeLimit => g.sizeLimit.isSome
  | .code => g.code.isSome
  | .text => g.text.isSome

/-- Reads the value of an option. That it has been given before is looked at first. -/
def set (g : Given) (o : Opt) (s : String) : Except Refusal Given :=
  if g.has o then .error .repeatedOption
  else match o with
    | .config => if s = "" then .error .missingValue else .ok { g with config := some s }
    | .nestingLimit => (readNestingLimit s).map fun n => { g with nestingLimit := some n }
    | .sizeLimit => (readSizeLimit s).map fun n => { g with sizeLimit := some n }
    | .code => (readCode s).map fun n => { g with code := some n }
    | .text => .ok { g with text := some s }
    | .help | .version | .lossy => .error .unneededValue

def raise (g : Given) (o : Opt) : Except Refusal Given :=
  match o with
  | .help => .error .helpWanted
  | .version => .error .versionWanted
  | .lossy => if g.lossy then .error .repeatedOption else .ok { g with lossy := true }
  | _ => .error .missingValue

end Given
end CommandLine
end ReflectionError
