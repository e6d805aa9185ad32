/-!
Failures to come. The calls of each kind are counted from now on: a plan says which of them fail,
and with what.
-/

namespace AccessControl

abbrev Faults (κ ε : Type) := κ → Nat → Option ε

namespace Faults

variable {κ ε : Type}

def none : Faults κ ε := fun _ _ => .none

variable [DecidableEq κ]

def skip (f : Faults κ ε) (k : κ) : Faults κ ε :=
  fun l n => if l = k then f l (n + 1) else f l n

/-- One call that involves the given kinds: it fails with the first failure among them, and the
kinds behind that one are not reached. -/
def take (f : Faults κ ε) : List κ → Option ε × Faults κ ε
  | [] => (.none, f)
  | k :: rest =>
    match f k 0 with
    | some e => (some e, f.skip k)
    | .none => (f.skip k).take rest

def plan (f : Faults κ ε) (k : κ) (e : ε) (times : Option Nat) : Faults κ ε :=
  fun l n => if l = k then (if times.all (n < ·) then some e else .none) else f l n

def clear (f : Faults κ ε) (k : κ) : Faults κ ε :=
  fun l n => if l = k then .none else f l n

end Faults

end AccessControl
