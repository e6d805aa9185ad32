import AccessControl.Value

/-!
Values that are used as what they are not.
-/

namespace AccessControl

def Value.Kind.name : Value.Kind → String
  | .null => "NoneType"
  | .bool => "bool"
  | .int => "int"
  | .real => "float"
  | .text => "str"
  | .list => "list"
  | .object => "dict"

open Value (Kind)

inductive Misuse where
  | goneThrough (k : Kind)
  | searched (k : Kind)
  | soughtInText (k : Kind)
  | collected (k : Kind)
  | opened (k : Kind)
  | lacks (k : Kind) (name : String)
  | added (k l : Kind)
  | compared (k l : Kind)
  | position
  | timed (k : Kind)
deriving DecidableEq

namespace Misuse

def isLack : Misuse → Bool
  | .lacks .. => true
  | _ => false

def message : Misuse → String
  | .goneThrough k => "\x27" ++ k.name ++ "\x27 object is not iterable"
  | .searched k => "argument of type \x27" ++ k.name ++ "\x27 is not iterable"
  | .soughtInText k => "\x27in <string>\x27 requires string as left operand, not " ++ k.name
  | .collected k => "unhashable type: \x27" ++ k.name ++ "\x27"
  | .opened .text => "string indices must be integers, not \x27str\x27"
  | .opened .list => "list indices must be integers or slices, not str"
  | .opened k => "\x27" ++ k.name ++ "\x27 object is not subscriptable"
  | .lacks k name =>
    "\x27" ++ k.name ++ "\x27 object has no attribute \x27" ++ name ++ "\x27"
  | .added .text l => "can only concatenate str (not \"" ++ l.name ++ "\") to str"
  | .added .list l => "can only concatenate list (not \"" ++ l.name ++ "\") to list"
  | .added k l =>
    "unsupported operand type(s) for +: \x27" ++ k.name ++ "\x27 and \x27" ++ l.name ++ "\x27"
  | .compared k l =>
    "\x27<\x27 not supported between instances of \x27" ++ k.name ++ "\x27 and \x27" ++ l.name ++
      "\x27"
  | .position => "slice indices must be integers or None or have an __index__ method"
  | .timed k => "unsupported type for timedelta seconds component: " ++ k.name

end Misuse

end AccessControl
