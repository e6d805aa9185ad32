import AccessControl.World

/-!
Programs that are under way together. An access is atomic; between two accesses of one program the
others may go on. Log lines of each program are attributed apart.
-/

namespace AccessControl

variable {α : Type}

structure Task (α : Type) where
  rest : Program α
  correlation : Log.Correlation := {}

namespace Task

def outcome? (t : Task α) : Option (Except Error α) :=
  match t.rest with
  | .done a => some (.ok a)
  | .fail e => some (.error e)
  | .ask .. => none

def step (t : Task α) (w : World) : Task α × World :=
  match t.rest with
  | .ask e next =>
    if w.admits e then
      let (r, after) := { w with correlation := t.correlation }.answer e
      (⟨next r, after.correlation⟩, { after with correlation := w.correlation })
    else (t, w)
  | _ => (t, w)

end Task

structure Concurrent (α : Type) where
  world : World
  tasks : List (Task α)

namespace Concurrent

def ofPrograms (world : World) (programs : List (Program α)) : Concurrent α :=
  ⟨world, programs.map fun rest => { rest }⟩

def step (c : Concurrent α) (n : Nat) : Concurrent α :=
  match c.tasks[n]? with
  | none => c
  | some t =>
    let (t, world) := t.step c.world
    ⟨world, c.tasks.set n t⟩

def run (c : Concurrent α) (turns : List Nat) : Concurrent α :=
  turns.foldl step c

def outcomes (c : Concurrent α) : List (Option (Except Error α)) :=
  c.tasks.map Task.outcome?

end Concurrent

end AccessControl
