import AccessControl.Binary64.Text
import AccessControl.Value

/-!
The literal of a value, as messages quote it.
-/

namespace AccessControl.Value

mutual

def literal : Value → String
  | .null => "None"
  | .bool b => if b then "True" else "False"
  | .int n => toString n
  | .real x => x.text
  | .text s => Text.quoted s
  | .list items => "[" ++ ", ".intercalate (literals items) ++ "]"
  | .object fields => "\x7b" ++ ", ".intercalate (fieldLiterals fields) ++ "\x7d"

def literals : List Value → List String
  | [] => []
  | v :: vs => literal v :: literals vs

def fieldLiterals : Fields → List String
  | [] => []
  | (k, v) :: rest => (Text.quoted k ++ ": " ++ literal v) :: fieldLiterals rest

end

def display : Value → String
  | .text s => s
  | v => v.literal

end AccessControl.Value
