import AccessControl.Value.Identity

/-!
The account and the request that log lines are attributed to. A block binds one, both or neither of
them; what it bound is undone when it is left.
-/

namespace AccessControl.Log

inductive Variable where
  | account
  | request
deriving DecidableEq

/-- An identifier is a text as a rule, but any value can be bound. -/
structure Correlation where
  account : Option Value := none
  request : Option Value := none
deriving DecidableEq

/-- What a block binds; `none` leaves a variable alone. -/
abbrev Binding := Correlation

abbrev Undo := Variable × Option Value

namespace Correlation

def value (c : Correlation) : Variable → Option Value
  | .account => c.account
  | .request => c.request

def set (c : Correlation) (x : Variable) (v : Option Value) : Correlation :=
  match x with
  | .account => { c with account := v }
  | .request => { c with request := v }

def bindOne (b : Binding) (state : Correlation × List Undo) (x : Variable) :
    Correlation × List Undo :=
  match b.value x with
  | none => state
  | some v => (state.1.set x (some v), (x, state.1.value x) :: state.2)

/-- Enters a block: the new state, and what undoes it, the last change first. -/
def enter (c : Correlation) (b : Binding) : Correlation × List Undo :=
  [Variable.account, Variable.request].foldl (bindOne b) (c, [])

def leave (c : Correlation) (undos : List Undo) : Correlation :=
  undos.foldl (fun c u => c.set u.1 u.2) c

/-- What holds in nested blocks, and afterwards: at the start of each block, the outermost first,
and at its end, the innermost first. -/
def trail (c : Correlation) : List Binding → List Correlation × Correlation
  | [] => ([], c)
  | b :: rest =>
    let (inside, undos) := c.enter b
    let (seen, left) := trail inside rest
    (inside :: seen ++ [left], left.leave undos)

end Correlation

end AccessControl.Log
