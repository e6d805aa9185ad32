import AccessControl.Text.Order
import AccessControl.Value.Parts

/-!
The order of values. Texts are ordered among themselves, and so are numbers; nothing else is.
-/

namespace AccessControl.Value

def size? : Value → Option Int
  | .real (.finite negative units) => some (if negative then -(units : Int) else units)
  | .real _ => none
  | v => v.integer?.map (· * (Binary64.one : Int))

def distinct (vs : List Value) : List Value :=
  vs.foldl (fun seen v => if seen.any (·.sameItem v) then seen else seen ++ [v]) []

def sortedMembers (vs : List Value) : Except Error (List Value) := do
  match distinct (← vs.mapM member) with
  | v :: w :: rest =>
    let vs := v :: w :: rest
    match vs.mapM text?, vs.mapM size? with
    | some names, _ => return (Text.sorted names).map .text
    | _, some sizes => return ((vs.zip sizes).mergeSort fun x y => decide (x.2 ≤ y.2)).map Prod.fst
    | none, none => .error (.misuse (.compared v.kind w.kind))
  | vs => return vs

end AccessControl.Value
