import AccessControl.Error
import AccessControl.Text.Substring

/-!
What values consist of, and what is found in them. Not every value can be gone through, and neither
a list nor an object can be the member of a set.
-/

namespace AccessControl.Value

def parts (v : Value) : Except Error (List Value) :=
  match v with
  | .list _ | .text _ | .object _ => .ok v.items
  | _ => .error (.misuse (.goneThrough v.kind))

def member (v : Value) : Except Error Value :=
  match v with
  | .list _ | .object _ => .error (.misuse (.collected v.kind))
  | _ => .ok v

def members (v : Value) : Except Error (List Value) := do
  (← v.parts).mapM member

/-- Whether something is found in a value. A text holds every text that stands somewhere in it. -/
def holds (v x : Value) : Except Error Bool :=
  match v, x with
  | .list vs, x => .ok (vs.any (·.sameItem x))
  | .object fs, x => do return (← x.member).text?.any fun name => (fs.lookup name).isSome
  | .text s, .text t => .ok (Text.occursIn t.toList s.toList)
  | .text _, x => .error (.misuse (.soughtInText x.kind))
  | v, _ => .error (.misuse (.searched v.kind))

theorem holds_list (vs : List Value) (x : Value) :
    (Value.list vs).holds x = .ok (vs.any (·.sameItem x)) :=
  rfl

def demand (v : Value) (name : String) : Except Error Value :=
  match v with
  | .object fs => (fs.lookup name).elim (.error (.nameMissing name)) .ok
  | v => .error (.misuse (.opened v.kind))

end AccessControl.Value
