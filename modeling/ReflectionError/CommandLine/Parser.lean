import ReflectionError.CommandLine.Arguments

/-!
# ReflectionError.CommandLine.Parser

Command lines from arguments. The value of an option that stands in an argument of its own, and the
operand, are not read at once but when the next option, flag or operand begins or the arguments end
(`Progress.settle`); an argument that is refused for its shape is refused before that. The arguments
behind a command belong to the command and are read to their end before the last value in front of
it is.
-/

namespace ReflectionError
namespace CommandLine

/-- The option or operand that was met last and has not been read. -/
inductive Pending where
  | nothing
  | option (o : Opt) (value : Option String)
  | operand (value : String)

structure Progress where
  given : Given := {}
  pending : Pending := .nothing
  /-- Two dashes have been met, so that no argument is an option any more. -/
  operandsOnly : Bool := false
  operandMet : Bool := false

namespace Progress

def awaited? (p : Progress) : Option Opt :=
  match p.pending with
  | .option o none => some o
  | _ => none

def settle (p : Progress) : Except Refusal Progress :=
  match p.pending with
  | .nothing => .ok p
  | .option _ none => .error .missingValue
  | .option o (some value) =>
    (p.given.set o value).map fun given => { p with given, pending := .nothing }
  | .operand value =>
    (readPayload value).map fun payload =>
      { p with given := { p.given with payload := some payload }, pending := .nothing }

def setNow (p : Progress) (o : Opt) (value : List Char) : Except Refusal Progress := do
  let p ← p.settle
  let given ← p.given.set o (String.ofList value)
  return { p with given }

def await (p : Progress) (o : Opt) : Except Refusal Progress := do
  let p ← p.settle
  return { p with pending := .option o none }

def raise (p : Progress) (o : Opt) : Except Refusal Progress := do
  let p ← p.settle
  let given ← p.given.raise o
  return { p with given }

end Progress

def isDigit (c : Char) : Bool := '0' ≤ c && c ≤ '9'

def isExponentMark (c : Char) : Bool := c = 'e' || c = 'E'

/-- Digits with at most one point among them, which is not in front, and perhaps an exponent. -/
def isNumber (s : List Char) : Bool :=
  let mantissa := s.takeWhile fun c => !isExponentMark c
  (match mantissa with
    | [] => false
    | c :: _ => isDigit c) &&
  mantissa.all (fun c => isDigit c || c = '.') && mantissa.count '.' ≤ 1 &&
  (match s.dropWhile fun c => !isExponentMark c with
    | [] => true
    | _ :: exponent => exponent ≠ [] && exponent.all isDigit)

def readLong (scope : Scope) (p : Progress) (s : List Char) : Except Refusal Progress :=
  let value := s.dropWhile fun c => c != '='
  match Opt.ofLong? scope (s.takeWhile fun c => c != '=') with
  | none => .error .unknownArgument
  | some o =>
    match o.takesValue, value with
    | true, [] => p.await o
    | true, _ :: value => p.setNow o value
    | false, [] => p.raise o
    | false, _ :: _ => .error .unneededValue

def readShort (scope : Scope) (p : Progress) (letter : Char) (s : List Char) :
    Except Refusal Progress :=
  match Opt.ofShort? scope letter with
  | none => .error .unknownArgument
  | some o =>
    match o.takesValue, s with
    | true, [] => p.await o
    | true, '=' :: value => p.setNow o value
    | true, value => p.setNow o value
    | false, _ => p.raise o

def readOperand (scope : Scope) (p : Progress) (word : String) : Except Refusal Progress :=
  if scope.hasOperand && !p.operandMet then
    p.settle.map fun p => { p with pending := .operand word, operandMet := true }
  else if scope = .program && !(p.operandsOnly && isCommandWord word) then
    .error .unknownCommand
  else .error .unknownArgument

def readWord (scope : Scope) (p : Progress) (word : String) : Except Refusal Progress :=
  match p.awaited? with
  | some o => .ok { p with pending := .option o (some word) }
  | none => readOperand scope p word

/-- One argument. A negative number is a value where a status code has to come. -/
def readArgument (scope : Scope) (p : Progress) (word : String) : Except Refusal Progress :=
  if p.operandsOnly then readOperand scope p word
  else match word.toList with
    | ['-', '-'] => .ok { p with operandsOnly := true }
    | '-' :: '-' :: s => readLong scope p s
    | '-' :: letter :: s =>
      if p.awaited? = some .code && isNumber (letter :: s) then readWord scope p word
      else readShort scope p letter s
    | _ => readWord scope p word

def readArguments (scope : Scope) (p : Progress) : List String → Except Refusal Given
  | [] => p.settle.map Progress.given
  | word :: words =>
    match readArgument scope p word with
    | .error r => .error r
    | .ok p => readArguments scope p words

def readCommand (scope : Scope) (words : List String) : Except Refusal (Command × Given) :=
  match readArguments scope {} words with
  | .error r => .error r
  | .ok g =>
    match scope, g.code, g.payload with
    | .encode, some code, _ => .ok (.encode code (g.text.getD ""), g)
    | .decode, _, some payload => .ok (.decode payload, g)
    | .inspect, _, some payload => .ok (.inspect payload, g)
    | _, _, _ => .error .missingArgument

def readHelp : List String → Refusal
  | [] => .helpWanted
  | [word] => if isCommandWord word then .helpWanted else .unknownCommand
  | _ :: _ :: _ => .unknownCommand

def endWithoutCommand (p : Progress) : Refusal :=
  match p.settle with
  | .error r => r
  | .ok p => if p.given = {} then .nothingGiven else .missingCommand

/-- An option given behind the command counts, one given before it only if it is not. -/
def invocation (before : Given) (command : Command) (behind : Given) : Invocation where
  command
  config := behind.config.or before.config
  overrides :=
    { lossy := behind.lossy || before.lossy
      nestingLimit := behind.nestingLimit.or before.nestingLimit
      sizeLimit := behind.sizeLimit.or before.sizeLimit }

def readProgram (p : Progress) : List String → Except Refusal Invocation
  | [] => .error (endWithoutCommand p)
  | word :: words =>
    let mayCommand := !p.operandsOnly && p.awaited? = none
    if mayCommand && word = "help" then .error (readHelp words)
    else
      match if mayCommand then Scope.command? word else none with
      | some scope =>
        match readCommand scope words with
        | .error r => .error r
        | .ok (command, behind) =>
          p.settle.map fun p => invocation p.given command behind
      | none =>
        match readArgument .program p word with
        | .error r => .error r
        | .ok p => readProgram p words

def parse (words : List String) : Except Refusal Invocation := readProgram {} words

end CommandLine
end ReflectionError
