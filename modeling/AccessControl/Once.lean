import AccessControl.Error

/-!
A value that is found out once, for any number of callers. Those who come while it is being found
out wait for the same resolution. A caller who gives up does not disturb it, and after a failure
that somebody was told of, the next caller starts over.
-/

namespace AccessControl

inductive Ending (α : Type) where
  | value (a : α)
  | error (e : Error)
  | cancelled
deriving DecidableEq

/-- Resolutions are numbered in the order in which they were started. -/
structure Once (κ α : Type) where
  calls : Nat := 0
  endings : List (Ending α) := []
  /-- The resolution that callers join. -/
  held : Option Nat := none
  /-- Those who wait, each with the resolution that was joined, in order of arrival. -/
  waiting : List (κ × Nat) := []
  told : List (κ × Ending α) := []
deriving DecidableEq

def Ending.ofExcept {α : Type} : Except Error α → Ending α
  | .ok a => .value a
  | .error e => .error e

def Ending.toExcept {α : Type} : Ending α → Except Error α
  | .value a => .ok a
  | .error e => .error e
  | .cancelled => .error .cancelled

namespace Once

variable {κ α : Type} [DecidableEq κ]

def ending? (m : Once κ α) (n : Nat) : Option (Ending α) :=
  m.endings[n]?

def outcome? (m : Once κ α) : Option (Ending α) :=
  m.held.bind m.ending?

def resolved (m : Once κ α) : Bool :=
  match m.outcome? with
  | some (.value _) => true
  | _ => false

def inFlight (m : Once κ α) : Bool :=
  m.held.any fun n => (m.ending? n).isNone

/-- A caller is told the ending of a resolution. An error makes the next caller start over, unless
another resolution has been started since. -/
def tell (m : Once κ α) (caller : κ) (n : Nat) (ending : Ending α) : Once κ α :=
  { m with
    told := m.told ++ [(caller, ending)]
    held := match ending with
      | .error _ => if m.held = some n then none else m.held
      | _ => m.held }

def join (m : Once κ α) (caller : κ) (n : Nat) : Once κ α :=
  match m.ending? n with
  | some ending => m.tell caller n ending
  | none => { m with waiting := m.waiting ++ [(caller, n)] }

/-- A caller asks for the value. A resolution is started when there is none to join, and one that
has ended is told at once. -/
def get (m : Once κ α) (caller : κ) : Once κ α :=
  match m.held with
  | some n => m.join caller n
  | none => join { m with calls := m.calls + 1, held := some m.calls } caller m.calls

def finish (m : Once κ α) (ending : Ending α) : Once κ α :=
  if m.inFlight then { m with endings := m.endings ++ [ending] } else m

def cancel (m : Once κ α) (caller : κ) : Once κ α :=
  if m.waiting.any (·.1 = caller) then
    { m with
      waiting := m.waiting.filter (·.1 ≠ caller)
      told := m.told ++ [(caller, .cancelled)] }
  else m

def wake (m : Once κ α) (caller : κ) : Once κ α :=
  match m.waiting.find? (·.1 = caller) with
  | none => m
  | some (_, n) =>
    match m.ending? n with
    | none => m
    | some ending => tell { m with waiting := m.waiting.filter (·.1 ≠ caller) } caller n ending

def settle (m : Once κ α) : Once κ α :=
  m.waiting.foldl (fun m w => m.wake w.1) m

def toldTo? (m : Once κ α) (caller : κ) : Option (Ending α) :=
  m.told.lookup caller

end Once

end AccessControl
