import ReflectionError.Wire.Field

/-!
# ReflectionError.Wire.Reader

A reader that is asked for one thing after another. It holds the whole payload and its position;
a step that fails leaves it at the place where reading stood, and the next step goes on from there.
-/

namespace ReflectionError

structure Reader where
  buffer : List UInt8
  position : Nat
  deriving DecidableEq

namespace Reader

def ofBuffer (buffer : List UInt8) : Reader := ⟨buffer, 0⟩

def remaining (r : Reader) : Nat := r.buffer.length - r.position

def isEmpty (r : Reader) : Bool := r.remaining = 0

def consumedSince (r : Reader) (origin : Nat) : List UInt8 :=
  (r.buffer.drop origin).take (r.position - origin)

def cursor (r : Reader) : Cursor := ⟨r.position, r.buffer.drop r.position⟩

inductive Step where
  | varint
  | key
  | bytes (length : Nat)
  | lengthDelimited
  | skip (key : Key) (limit : Nat)
  | field (limit : Nat)
  deriving DecidableEq

inductive Answer where
  | value (value : Nat)
  | key (key : Key)
  | bytes (bytes : List UInt8)
  | skipped
  | field (field : RawField)
  | atEnd
  deriving DecidableEq

/-- The answer to a step taken at a cursor, and the place behind it. -/
def answer (c : Cursor) : Step → Read Answer
  | .varint => c.readVarint.map fun (value, next) => (.value value, next)
  | .key => c.readKey.map fun (key, next) => (.key key, next)
  | .bytes length => (c.readBytes length).map fun (bytes, next) => (.bytes bytes, next)
  | .lengthDelimited => c.readLengthDelimited.map fun (bytes, next) => (.bytes bytes, next)
  | .skip key limit => (c.skipValue key limit).map fun next => (.skipped, next)
  | .field limit =>
    (c.nextField limit).map fun (field, next) => (field.elim .atEnd .field, next)

def step (r : Reader) (s : Step) : Except DecodeError Answer × Reader :=
  match answer r.cursor s with
  | .ok (a, next) => (.ok a, { r with position := next.offset })
  | .error failure => (.error failure.error, { r with position := failure.cursor.offset })

/-- Takes steps in turn: what each gives and the reader after it. -/
def run (r : Reader) : List Step → List (Except DecodeError Answer × Reader)
  | [] => []
  | s :: steps => r.step s :: run (r.step s).2 steps

end Reader
end ReflectionError
