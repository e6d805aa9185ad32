import AccessControl.Program

/-!
Programs over a state that outlives their failures.
-/

namespace AccessControl

def Stateful (σ α : Type) : Type :=
  σ → Program (Except Error α × σ)

namespace Stateful

variable {σ τ α β : Type}

def bind (p : Stateful σ α) (f : α → Stateful σ β) : Stateful σ β := fun s => do
  match ← p s with
  | (.ok a, s) => f a s
  | (.error e, s) => return (.error e, s)

instance : Monad (Stateful σ) where
  pure a := fun s => .done (.ok a, s)
  bind := bind

instance : MonadLift Program (Stateful σ) where
  monadLift p := fun s => do return (← p.attempt, s)

instance : MonadStateOf σ (Stateful σ) where
  get := fun s => .done (.ok s, s)
  set s := fun _ => .done (.ok (), s)
  modifyGet f := fun s => .done (.ok (f s).1, (f s).2)

def fail (e : Error) : Stateful σ α := fun s => .done (.error e, s)

def ofExcept (r : Except Error α) : Stateful σ α := fun s => .done (r, s)

def attempt (p : Stateful σ α) : Stateful σ (Except Error α) := fun s => do
  let (r, s) ← p s
  return (.ok r, s)

def zoom (part : σ → τ) (put : σ → τ → σ) (p : Stateful τ α) : Stateful σ α := fun s => do
  let (r, t) ← p (part s)
  return (r, put s t)

end Stateful

end AccessControl
