/-!
Sets of names, listed by code point.
-/

namespace AccessControl.Text

def sorted (names : List String) : List String :=
  names.mergeSort fun a b => decide (a ≤ b)

/-- The first occurrence of every name, in order of appearance. -/
def distinct (names : List String) : List String :=
  names.foldl (fun seen name => if name ∈ seen then seen else seen ++ [name]) []

def members (names : List String) : List String :=
  sorted (distinct names)

end AccessControl.Text
