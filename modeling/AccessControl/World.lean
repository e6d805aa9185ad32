import AccessControl.Cache.Server
import AccessControl.Disk
import AccessControl.Program
import AccessControl.Store.Ledger

/-!
What surrounds the engine, and the run of one program alone.
-/

namespace AccessControl

/-- Identifiers are numbered, so that they are all different and their order is that of their
making. -/
def identifier (n : Nat) : String :=
  let digits := (toString n).toList
  "00000000-0000-4000-8000-" ++
    String.ofList (List.replicate (12 - digits.length) '0' ++ digits)

structure World where
  ledger : Store.Ledger
  server : Cache.Server
  database : Database
  statistics : Cache.Statistics
  clock : Instant
  minted : Nat
  correlation : Log.Correlation
  journal : Log.Journal
  counters : Option Counters
  disk : Disk
  locked : List String
  heard : List Notice

namespace World

def initial (threshold : Log.Level) (counters : Option Counters) (disk : Disk) : World where
  ledger := .empty
  server := .empty
  database := {}
  statistics := {}
  clock := .ofSeconds 0
  minted := 0
  correlation := {}
  journal := ⟨threshold, []⟩
  counters := counters
  disk := disk
  locked := []
  heard := []

/-- Whether an access can be answered now. A name that is locked has to be waited for. -/
def admits (w : World) : Effect → Bool
  | .lock name => !w.locked.contains name
  | _ => true

def answer (w : World) : (e : Effect) → e.Reply × World
  | .store c =>
    let (r, ledger) := w.ledger.call c
    (r, { w with ledger })
  | .cache c =>
    let (r, server) := w.server.serve c
    (r, { w with server })
  | .database c =>
    let (r, database) := w.database.serve c
    (r, { w with
      database
      heard := if w.database.reaches c then .commanded c :: w.heard else w.heard })
  | .now => (w.clock, w)
  | .mint => (identifier w.minted, { w with minted := w.minted + 1 })
  | .record line => ((), { w with journal := w.journal.record w.correlation line })
  | .enter b =>
    let (correlation, undos) := w.correlation.enter b
    (undos, { w with correlation })
  | .leave undos => ((), { w with correlation := w.correlation.leave undos })
  | .count s => ((), { w with counters := w.counters.map (·.increment s) })
  | .timed => ((), { w with counters := w.counters.map Counters.timed })
  | .tally t => ((), { w with statistics := w.statistics.add t })
  | .statistics => (w.statistics, w)
  | .notify n => ((), { w with heard := n :: w.heard })
  | .publish text =>
    let (published, disk) := w.disk.publish text
    (published, { w with disk })
  | .lock name => ((), { w with locked := name :: w.locked })
  | .unlock name => ((), { w with locked := w.locked.erase name })
  | .pause => ((), w)

end World

namespace Program

variable {α : Type}

def run : Program α → World → Except Error α × World
  | .done a, w => (.ok a, w)
  | .fail e, w => (.error e, w)
  | .ask e next, w => ((next (w.answer e).1).run (w.answer e).2)

theorem run_bind {β : Type} (p : Program α) (f : α → Program β) (w : World) :
    (p >>= f).run w =
      match p.run w with
      | (.ok a, v) => (f a).run v
      | (.error e, v) => (.error e, v) := by
  induction p generalizing w with
  | done a => rfl
  | fail e => rfl
  | ask e next ih => exact ih (w.answer e).1 (w.answer e).2

theorem run_attempt (p : Program α) (w : World) :
    p.attempt.run w = (.ok (p.run w).1, (p.run w).2) := by
  induction p generalizing w with
  | done a => rfl
  | fail e => rfl
  | ask e next ih => exact ih (w.answer e).1 (w.answer e).2

theorem run_perform (e : Effect) (w : World) :
    (perform e).run w = (.ok (w.answer e).1, (w.answer e).2) :=
  rfl

theorem run_ofExcept (r : Except Error α) (w : World) : (ofExcept r).run w = (r, w) := by
  cases r <;> rfl

end Program

end AccessControl
