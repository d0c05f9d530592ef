import ReflectionError.Decimal.Shortest

/-!
# ReflectionError.Json.Value

JSON values and the text that is written for them. An object keeps its members in the order of the
text, repeated keys included; the last member of a key is the one that counts.

Values are written on one line (`compact`) or with a line for every item and member (`pretty`).
Strings are written as they are, but for quotation marks, backslashes and control characters below
U+0020.
-/

namespace ReflectionError
namespace Json

/-- A whole number from `-2 ^ 63` to `2 ^ 64 - 1` that is written without fraction and exponent, or
any other number. -/
inductive Number where
  | integer (n : Int)
  | float (x : Float)

inductive Value where
  | null
  | boolean (b : Bool)
  | number (n : Number)
  | string (s : String)
  | array (items : List Value)
  | object (members : List (String × Value))

/-- The value of the last member named `key`. -/
def lookup? (members : List (String × Value)) (key : String) : Option Value :=
  (members.reverse.find? fun m => m.1 = key).map Prod.snd

/-! ## Text -/

def hexDigit (n : Nat) : Char := if n < 10 then Char.ofNat (0x30 + n) else Char.ofNat (0x57 + n)

def escapeChar (c : Char) : List Char :=
  if c = '"' then ['\\', '"']
  else if c = '\\' then ['\\', '\\']
  else if c = '\x08' then ['\\', 'b']
  else if c = '\x0c' then ['\\', 'f']
  else if c = '\n' then ['\\', 'n']
  else if c = '\r' then ['\\', 'r']
  else if c = '\t' then ['\\', 't']
  else if c.toNat < 0x20 then
    ['\\', 'u', '0', '0', hexDigit (c.toNat / 16), hexDigit (c.toNat % 16)]
  else [c]

def printString (s : String) : List Char := '"' :: s.toList.flatMap escapeChar ++ ['"']

def Number.print : Number → List Char
  | .integer n => (toString n).toList
  | .float x => (Decimal.floatText x.toBits).toList

def printBoolean (b : Bool) : List Char :=
  if b then ['t', 'r', 'u', 'e'] else ['f', 'a', 'l', 's', 'e']

mutual

def compactValue : Value → List Char
  | .null => ['n', 'u', 'l', 'l']
  | .boolean b => printBoolean b
  | .number n => n.print
  | .string s => printString s
  | .array items => '[' :: compactItems items ++ [']']
  | .object members => '\x7b' :: compactMembers members ++ ['\x7d']

def compactItems : List Value → List Char
  | [] => []
  | [v] => compactValue v
  | v :: w :: rest => compactValue v ++ ',' :: compactItems (w :: rest)

def compactMembers : List (String × Value) → List Char
  | [] => []
  | [(k, v)] => printString k ++ ':' :: compactValue v
  | (k, v) :: m :: rest =>
    printString k ++ ':' :: compactValue v ++ ',' :: compactMembers (m :: rest)

end

def newLine (level : Nat) : List Char := '\n' :: List.replicate (2 * level) ' '

mutual

def prettyValue (level : Nat) : Value → List Char
  | .null => ['n', 'u', 'l', 'l']
  | .boolean b => printBoolean b
  | .number n => n.print
  | .string s => printString s
  | .array [] => ['[', ']']
  | .array (v :: items) =>
    '[' :: prettyItems (level + 1) (v :: items) ++ newLine level ++ [']']
  | .object [] => ['\x7b', '\x7d']
  | .object (m :: members) =>
    '\x7b' :: prettyMembers (level + 1) (m :: members) ++ newLine level ++ ['\x7d']

def prettyItems (level : Nat) : List Value → List Char
  | [] => []
  | [v] => newLine level ++ prettyValue level v
  | v :: w :: rest => newLine level ++ prettyValue level v ++ ',' :: prettyItems level (w :: rest)

def prettyMembers (level : Nat) : List (String × Value) → List Char
  | [] => []
  | [(k, v)] => newLine level ++ printString k ++ ':' :: ' ' :: prettyValue level v
  | (k, v) :: m :: rest =>
    newLine level ++ printString k ++ ':' :: ' ' :: prettyValue level v ++
      ',' :: prettyMembers level (m :: rest)

end

def Value.compact (v : Value) : String := String.ofList (compactValue v)

def Value.pretty (v : Value) : String := String.ofList (prettyValue 0 v)

end Json
end ReflectionError
