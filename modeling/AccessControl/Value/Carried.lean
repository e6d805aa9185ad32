import AccessControl.Json.Printer
import AccessControl.Json.Reader
import AccessControl.Value.Literal
import AccessControl.Value.Parts

/-!
Texts that carry values. Where a text is kept, any other value is carried by a text of its own kind.
It is given back as the value, and inside a longer text as its display.
-/

namespace AccessControl.Value

/-- Encloses what is carried. No character of it has a meaning in any text. -/
def mark : String := "\ufdef\x01"

def listMark : String := "\ufdef\x02"

def enclose (mark : String) (v : Value) : String := mark ++ Json.print v ++ mark

def enclosed? (mark s : String) : Option Value :=
  match s.splitOn mark with
  | ["", inside, ""] => Json.read? inside
  | _ => none

def carry (v : Value) : String := v.text?.getD (enclose mark v)

/-- What is carried for a field of an object; nothing when it is missing. -/
def getCarried (v : Value) (name : String) : String := (v.field? name).elim "" carry

def carryItems : Value → List String
  | .list items => items.map carry
  | v => [enclose listMark v]

def carryList : Value → List Value
  | .list items => items
  | v => [.text (enclose listMark v)]

def carriedIn (s : String) : List Value :=
  (s.splitOn mark).zipIdx.filterMap fun (part, i) => if i % 2 = 0 then none else Json.read? part

def displayed (s : String) : String :=
  String.join ((s.splitOn mark).zipIdx.map fun (part, i) =>
    if i % 2 = 0 then part else ((Json.read? part).getD .null).display)

def restoreText (s : String) : Value := (enclosed? mark s).getD (.text (displayed s))

mutual

def restore : Value → Value
  | .text s => restoreText s
  | .list [.text s] => (enclosed? listMark s).getD (.list [restoreText s])
  | .list items => .list (restoreItems items)
  | .object fields => .object (restoreFields fields)
  | v => v

def restoreItems : List Value → List Value
  | [] => []
  | v :: vs => restore v :: restoreItems vs

def restoreFields : Fields → Fields
  | [] => []
  | (k, v) :: rest => (displayed k, restore v) :: restoreFields rest

end

/-- A tag as it is kept. Numbers that are equal are one tag; a list or an object stays, as no set
takes it. -/
def carryTag (v : Value) : Value :=
  match v.member with
  | .ok v => .text (v.whole?.elim v .int).carry
  | .error _ => v

def carryTags : Value → Value
  | .list tags => .list (tags.map carryTag)
  | v => v

def holdsTag (tags tag : Value) : Except Error Bool :=
  match tags with
  | .list _ => tags.holds tag.carryTag
  | _ => tags.holds tag

def carryParts (v : Value) : Except Error (List String) := do
  return (← v.parts).map carry

def carryMembers (v : Value) : Except Error (List String) := do
  return (← v.members).map carry

end AccessControl.Value
