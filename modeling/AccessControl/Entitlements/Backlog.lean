import AccessControl.Stateful

/-!
The queue of registrations that wait for the store. It is flushed once: jobs run in the order in
which they were queued, those that are submitted meanwhile behind all others. From then on jobs run
at once.
-/

namespace AccessControl.Entitlements

mutual

/-- A task, and what others ask of the backlog while it runs. -/
inductive Job (ι : Type) where
  | mk (task : ι) (moves : Moves ι)

inductive Moves (ι : Type) where
  | none
  | enqueue (job : Job ι) (rest : Moves ι)
  | submit (job : Job ι) (rest : Moves ι)
  | flush (rest : Moves ι)
  | withdraw (submitter : Nat) (rest : Moves ι)

end

/-- Those who submit a job while the queue is flushed wait for its outcome. They are numbered. -/
structure Submitters (ι : Type) where
  tasks : List ι := []
  withdrawn : List Nat := []
  told : List (Nat × Except Error Unit) := []

variable {ι β : Type}

def Job.task : Job ι → ι
  | .mk task _ => task

namespace Submitters

def join (s : Submitters ι) (job : Job ι) : Submitters ι :=
  { s with tasks := s.tasks ++ [job.task] }

def withdraw (s : Submitters ι) (n : Nat) : Submitters ι :=
  if n < s.tasks.length then { s with withdrawn := n :: s.withdrawn } else s

/-- One who no longer waits cannot be told. -/
def tell (s : Submitters ι) (submitter : Option Nat) (outcome : Except Error Unit) :
    Except Error (Submitters ι) :=
  match submitter with
  | none => .ok s
  | some n =>
    if n ∈ s.withdrawn then .error .settledTwice
    else .ok { s with told := s.told ++ [(n, outcome)] }

def dismiss (s : Submitters ι) (left : List (Option Nat)) : Submitters ι :=
  left.foldl (fun s n => (s.tell n (.error .registrationDropped)).toOption.getD s) s

def outcome? (s : Submitters ι) (n : Nat) : Option (Except Error Unit) := s.told.lookup n

def outcomes (s : Submitters ι) : List (ι × Option (Except Error Unit)) :=
  s.tasks.zipIdx.map fun (task, n) => (task, s.outcome? n)

def waiting (s : Submitters ι) : List Nat :=
  (List.range s.tasks.length).filter fun n => n ∉ s.withdrawn && (s.outcome? n).isNone

end Submitters

abbrev Queue (ι : Type) := List (Job ι × Option Nat)

mutual

def Job.size : Job ι → Nat
  | .mk _ moves => moves.size + 1

def Moves.size : Moves ι → Nat
  | .none => 0
  | .enqueue _ rest => rest.size
  | .submit job rest => job.size + rest.size
  | .flush rest => rest.size
  | .withdraw _ rest => rest.size

end

def Queue.size : Queue ι → Nat
  | [] => 0
  | (job, _) :: rest => job.size + Queue.size rest

theorem Queue.size_append (p q : Queue ι) : Queue.size (p ++ q) = Queue.size p + Queue.size q := by
  induction p with
  | nil => simp [Queue.size]
  | cons entry rest ih =>
    rw [List.cons_append, Queue.size, Queue.size, ih, Nat.add_assoc]

/-- What some moves do to the queue and to those who wait, while the queue is flushed. -/
def Moves.queued (s : Submitters ι) : Moves ι → Queue ι × Submitters ι
  | .none => ([], s)
  | .enqueue _ rest => rest.queued s
  | .submit job rest =>
    let (queue, t) := rest.queued (s.join job)
    ((job, some s.tasks.length) :: queue, t)
  | .flush rest => rest.queued s
  | .withdraw n rest => rest.queued (s.withdraw n)

theorem Moves.size_queued : ∀ (moves : Moves ι) (s : Submitters ι),
    Queue.size (moves.queued s).1 = moves.size
  | .none, _ => rfl
  | .enqueue _ rest, s => rest.size_queued s
  | .submit job rest, s => by
    rw [Moves.queued, Moves.size, Queue.size, rest.size_queued (s.join job)]
  | .flush rest, s => rest.size_queued s
  | .withdraw n rest, s => rest.size_queued (s.withdraw n)

def Moves.answers : Moves ι → Program Unit
  | .none => return
  | .enqueue _ rest => do
    Program.perform (.notify (.refused .catalogSealed))
    rest.answers
  | .submit _ rest => rest.answers
  | .flush rest => do
    Program.perform (.notify (.flushed 0))
    rest.answers
  | .withdraw _ rest => rest.answers

mutual

def Job.run (run : ι → Program β) : Job ι → Program β
  | .mk task moves => do
    let outcome ← (run task).attempt
    moves.run run
    Program.ofExcept outcome

def Moves.run (run : ι → Program β) : Moves ι → Program Unit
  | .none => return
  | .enqueue _ rest => do
    Program.perform (.notify (.refused .catalogSealed))
    rest.run run
  | .submit job rest => do
    match ← (job.run run).attempt with
    | .ok _ => rest.run run
    | .error e =>
      Program.perform (.notify (.refused e))
      rest.run run
  | .flush rest => do
    Program.perform (.notify (.flushed 0))
    rest.run run
  | .withdraw _ rest => rest.run run

end

/-- What is left when the jobs of a queue have run, or one of them has failed. -/
structure Remainder (ι : Type) where
  outcome : Except Error Unit
  count : Nat
  left : Queue ι
  submitters : Submitters ι

/-- Runs the jobs of a queue in order, up to the first that fails. A job that is cancelled tells
nobody. -/
def Queue.run (run : ι → Program β) (queue : Queue ι) (count : Nat) (s : Submitters ι) :
    Program (Remainder ι) :=
  match queue with
  | [] => return ⟨.ok (), count, [], s⟩
  | (.mk task moves, submitter) :: rest => do
    let outcome ← (run task).attempt
    moves.answers
    let queue := rest ++ (moves.queued s).1
    let s := (moves.queued s).2
    match outcome with
    | .ok _ =>
      match s.tell submitter (.ok ()) with
      | .ok s => Queue.run run queue (count + 1) s
      | .error e => return ⟨.error e, count, queue, s⟩
    | .error .cancelled => return ⟨.error .cancelled, count, queue, s⟩
    | .error e =>
      match s.tell submitter (.error e) with
      | .ok s => return ⟨.error e, count, queue, s⟩
      | .error e => return ⟨.error e, count, queue, s⟩
termination_by Queue.size queue
decreasing_by
  rw [Queue.size_append, Moves.size_queued]
  simp only [Queue.size, Job.size]
  omega

inductive Phase where
  | pending
  | flushed
deriving DecidableEq

def Phase.name : Phase → String
  | .pending => "pending"
  | .flushed => "flushed"

structure Backlog (ι : Type) where
  phase : Phase := .pending
  queue : List (Job ι) := []

namespace Backlog

open Program

def logger : String := "permissions.catalog.initializer"

def flushed (i : Backlog ι) : Bool := i.phase = .flushed

def pending (i : Backlog ι) : Nat := i.queue.length

def enqueue (job : Job ι) : Stateful (Backlog ι) Unit := do
  let i ← get
  if i.flushed then Stateful.fail .catalogSealed
  else set { i with queue := i.queue ++ [job] }

def submit (run : ι → Program β) (job : Job ι) : Stateful (Backlog ι) (Option β) := do
  let i ← get
  if i.flushed then return some (← job.run run)
  else
    set { i with queue := i.queue ++ [job] }
    return none

def warnDropped (left : Queue ι) : Program Unit :=
  if left.isEmpty then return
  else
    log .error logger "Dropping catalog registrations after failed flush"
      [("count", .nat left.length)]

/-- Runs what was queued, and then `after`. Tells how many jobs there were, and what those heard who
submitted jobs meanwhile. Another flush does nothing. -/
def flushWith (run : ι → Program β) (after : Program Unit) (i : Backlog ι) :
    Program (Except Error Nat × Submitters ι × Backlog ι) := do
  if i.flushed then return (.ok 0, {}, i)
  let r ← Queue.run run (i.queue.map (·, none)) 0 {}
  warnDropped r.left
  let submitters := r.submitters.dismiss (r.left.map Prod.snd)
  let i : Backlog ι := { phase := .flushed }
  match r.outcome with
  | .error e => return (.error e, submitters, i)
  | .ok () =>
    log .info logger "Catalog registrations flushed" [("count", .nat r.count)]
    match ← after.attempt with
    | .error e => return (.error e, submitters, i)
    | .ok () => return (.ok r.count, submitters, i)

def flush (run : ι → Program β) (after : Program Unit) : Stateful (Backlog ι) Nat := fun i => do
  let (count, _, i) ← i.flushWith run after
  return (count, i)

end Backlog

end AccessControl.Entitlements
