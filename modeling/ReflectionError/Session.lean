import ReflectionError.Reply.Decode
import ReflectionError.Reply.Json
import ReflectionError.Status

/-!
# ReflectionError.Session

Work on several replies over time. A session holds a reply under every name, the empty one at first.
Each edit changes the reply of one name and may look at that of another; an edit that fails changes
nothing.
-/

namespace ReflectionError

structure Session where
  reply : String → Reply

namespace Session

def empty : Session := ⟨fun _ => {}⟩

def put (s : Session) (name : String) (r : Reply) : Session :=
  ⟨fun n => if n = name then r else s.reply n⟩

inductive Edit where
  | new (code : Int32) (text : String)
  | ofCode (code : Code) (text : String)
  | ofStatus (status : Status)
  | throughStatus
  | setCode (code : Int32)
  | setText (text : String)
  | clear
  | copy (source : String)
  | decode (payload : List UInt8) (o : Options)
  | merge (payload : List UInt8) (o : Options)
  | mergeFrom (source : String)
  /-- Appends the fields of a payload, declared ones too, to the undeclared ones. -/
  | appendFields (payload : List UInt8) (o : Options)
  /-- Appends one field of a payload, if it has so many. -/
  | appendField (payload : List UInt8) (o : Options) (index : Nat)
  | appendUnknown (source : String)
  | clearUnknown
  | throughJson

inductive EditError where
  | decode (error : DecodeError)
  | json (mismatch : Json.Mismatch)

def Edit.apply (s : Session) (r : Reply) : Edit → Except EditError Reply
  | .new code text => .ok (.new code text)
  | .ofCode code text => .ok (.ofCode code text)
  | .ofStatus status => .ok (.ofStatus status)
  | .throughStatus => .ok (.ofStatus r.toStatus)
  | .setCode code => .ok (r.setCode code)
  | .setText text => .ok (r.setText text)
  | .clear => .ok {}
  | .copy source => .ok (s.reply source)
  | .decode payload o => (Reply.decode payload o).mapError .decode
  | .merge payload o => (r.mergeWith payload o).mapError .decode
  | .mergeFrom source => .ok (r.mergeFrom (s.reply source))
  | .appendFields payload o =>
    match readFields payload o with
    | .ok fields => .ok (r.appendUnknown (fields.map UnknownField.ofRaw))
    | .error e => .error (.decode e)
  | .appendField payload o index =>
    match readFields payload o with
    | .ok fields => .ok (r.appendUnknown (fields[index]?.toList.map UnknownField.ofRaw))
    | .error e => .error (.decode e)
  | .appendUnknown source => .ok (r.appendUnknown (s.reply source).unknown)
  | .clearUnknown => .ok r.clearUnknown
  | .throughJson => (Reply.ofJson r.toJson).mapError .json

/-- Edits the reply under `name`: what went wrong, if anything, and the session after it. -/
def step (s : Session) (name : String) (e : Edit) : Option EditError × Session :=
  match e.apply s (s.reply name) with
  | .ok r => (none, s.put name r)
  | .error error => (some error, s)

def run (s : Session) : List (String × Edit) → Session
  | [] => s
  | (name, e) :: edits => run (s.step name e).2 edits

end Session
end ReflectionError
