import AccessControl.Cache.Server
import AccessControl.Cache.Statistics
import AccessControl.Database
import AccessControl.Error
import AccessControl.Log.Event
import AccessControl.Counters
import AccessControl.Store.Tables

/-!
Programs: sequences of accesses to what surrounds the engine. A program says what it asks for and
how it goes on from the answer; a run of it, alone or among others, is given elsewhere.
-/

namespace AccessControl

inductive Notice where
  | ready (listener : String)
  | changed (listener entitlement : String)
  | filtered (record : Value) (visible : Value.Fields)
  | ran (job : String)
  | refused (e : Error)
  | flushed (count : Nat)
  | connected (url : String) (options : Value.Fields)
  | commanded (c : Database.Command)

inductive Effect where
  | store (c : Store.Call)
  | cache (c : Cache.Command)
  | database (c : Database.Command)
  | now
  | mint
  | record (line : Log.Line)
  | enter (b : Log.Binding)
  | leave (undos : List Log.Undo)
  | count (s : Counters.Series)
  | timed
  | tally (t : Cache.Tally)
  | statistics
  | notify (n : Notice)
  | publish (text : String)
  | lock (name : String)
  | unlock (name : String)
  /-- The turn is given away: others that are under way may go on. -/
  | pause

abbrev Effect.Reply : Effect → Type
  | .store c => Except Error c.Reply
  | .cache c => Except String c.Reply
  | .database c => c.Reply
  | .now => Instant
  | .mint => String
  | .statistics => Cache.Statistics
  | .enter _ => List Log.Undo
  | .publish _ => Bool
  | _ => Unit

inductive Program (α : Type) : Type where
  | done (a : α)
  | fail (e : Error)
  | ask (e : Effect) (next : e.Reply → Program α)

inductive Progress (α : Type) where
  | paused (rest : Program α)
  | ended (outcome : Except Error α)

namespace Program

variable {α β : Type}

def bind : Program α → (α → Program β) → Program β
  | .done a, f => f a
  | .fail e, _ => .fail e
  | .ask e next, f => .ask e fun r => (next r).bind f

def attempt : Program α → Program (Except Error α)
  | .done a => .done (.ok a)
  | .fail e => .done (.error e)
  | .ask e next => .ask e fun r => (next r).attempt

instance : Monad Program where
  pure := .done
  bind := bind

theorem bind_done (p : Program α) : p.bind .done = p := by
  induction p with
  | done a => rfl
  | fail e => rfl
  | ask e next ih => exact congrArg (ask e) (funext ih)

theorem bind_bind {γ : Type} (p : Program α) (f : α → Program β) (g : β → Program γ) :
    (p.bind f).bind g = p.bind fun a => (f a).bind g := by
  induction p with
  | done a => rfl
  | fail e => rfl
  | ask e next ih => exact congrArg (ask e) (funext ih)

instance : LawfulMonad Program :=
  LawfulMonad.mk' Program bind_done (fun _ _ => rfl) bind_bind

def ofExcept : Except Error α → Program α
  | .ok a => .done a
  | .error e => .fail e

def perform (e : Effect) : Program e.Reply := .ask e .done

def call (c : Store.Call) : Program c.Reply := do
  ofExcept (← perform (.store c))

def log (level : Log.Level) (logger message : String) (fields : Value.Fields) : Program Unit :=
  perform (.record ⟨level, logger, message, fields⟩)

/-- A failure that is not the engine's own is logged, and becomes the opaque failure of an
operation. -/
def storing (logger operation : String) (p : Program α) : Program α := do
  match ← p.attempt with
  | .ok a => return a
  | .error e =>
    if e.isOwn then fail e
    else
      log .error logger "Storage operation failed"
        [("operation", .text operation), ("error", .text e.message)]
      fail (.storage operation)

def locking (name : String) (p : Program α) : Program α := do
  perform (.lock name)
  let outcome ← p.attempt
  perform (.unlock name)
  ofExcept outcome

def within (b : Log.Binding) (p : Program α) : Program α := do
  let undos ← perform (.enter b)
  let outcome ← p.attempt
  perform (.leave undos)
  ofExcept outcome

/-- Runs two programs that do not wait for each other; the second one runs also when the first one
has failed. The first failure counts. A turn is given away before they start, one until their
outcomes are collected, and one until these are told. -/
def both (p : Program α) (q : Program β) : Program (α × β) := do
  perform .pause
  let a ← p.attempt
  let b ← q.attempt
  perform .pause
  perform .pause
  return (← ofExcept a, ← ofExcept b)

def turn : Program α → Program (Progress α)
  | .done a => .done (.ended (.ok a))
  | .fail e => .done (.ended (.error e))
  | .ask .pause next => .done (.paused (next ()))
  | .ask e next => .ask e fun r => (next r).turn

def ofProgress : Progress α → Program α
  | .paused rest => rest
  | .ended outcome => ofExcept outcome

/-- Runs programs that are under way together. In every round each of them takes one turn; after a
number of rounds each runs to its end. -/
def together (rounds : Nat) (programs : List (Program α)) : Program (List (Except Error α)) :=
  match rounds with
  | 0 => programs.mapM attempt
  | rounds + 1 => do
    let progress ← programs.mapM turn
    together rounds (progress.map ofProgress)

end Program

structure Listener where
  failure : Option Error := none

def Listener.hear (l : Listener) (n : Notice) : Program Unit := do
  Program.perform (.notify n)
  match l.failure with
  | some e => Program.fail e
  | none => return

end AccessControl
