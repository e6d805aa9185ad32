import AccessControl.Value

/-!
Access to the fields of objects, with defaults for what is missing or of another kind.
-/

namespace AccessControl.Value

def get (v : Value) (name : String) : Value := (v.field? name).getD .null

def fields : Value → Fields
  | .object fs => fs
  | _ => []

def items : Value → List Value
  | .list vs => vs
  | .text s => s.toList.map fun c => .text c.toString
  | .object fs => fs.map fun (k, _) => .text k
  | _ => []

def getText? (v : Value) (name : String) : Option String := (v.get name).text?

def getItems (v : Value) (name : String) : List Value := (v.get name).items

def getFields (v : Value) (name : String) : Fields := (v.get name).fields

def getBool (v : Value) (name : String) (default : Bool) : Bool :=
  (v.field? name).elim default truthy

def getInt (v : Value) (name : String) (default : Int) : Int := (v.get name).int?.getD default

def withDefaults (v : Value) (defaults : Fields) : Value :=
  .object (v.fields ++ defaults.filter fun (k, _) => (v.fields.lookup k).isNone)

mutual

def mapTexts (f : String → String) : Value → Value
  | .text s => .text (f s)
  | .list vs => .list (mapItems f vs)
  | .object fs => .object (mapFields f fs)
  | v => v

def mapItems (f : String → String) : List Value → List Value
  | [] => []
  | v :: vs => mapTexts f v :: mapItems f vs

def mapFields (f : String → String) : Fields → Fields
  | [] => []
  | (k, v) :: fs => (k, mapTexts f v) :: mapFields f fs

end

end AccessControl.Value
