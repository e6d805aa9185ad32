import AccessControl.Cache.Grants
import AccessControl.Entitlements.Listing
import AccessControl.Entitlements.Definition
import AccessControl.Entitlements.Backlog

/-!
The registration of entitlements. Definitions may be made before the store is ready: they are
checked at once, and wait in the backlog. A registration replaces the entitlement of its name, but
keeps the identifier and the time of creation.
-/

namespace AccessControl

namespace Entitlements

inductive ChangeListener where
  | cache
  | named (name : String) (l : Listener)

/-- An entitlement to be stored, and whether the listing is to be published then. -/
structure Registration where
  entitlement : Entitlement
  publish : Bool

end Entitlements

structure Entitlements where
  backlog : Entitlements.Backlog Entitlements.Registration := {}
  listeners : List Entitlements.ChangeListener := []
  listing : Option String := none

namespace Entitlements

open Program

def logger : String := Definition.logger

def ChangeListener.hear (entitlement : String) : ChangeListener → Program Unit
  | .cache => do
    let _ ← GrantCache.dropEntitlements
  | .named name l => l.hear (.changed name entitlement)

def find? (name : String) : Program (Option Entitlement) :=
  storing logger "get_entitlement" (call (.entitlement name))

def all : Program (List Entitlement) :=
  storing logger "all_entitlements" (call .entitlements)

def capability? (name : String) : Program (Option Capability) := do
  match ← find? name with
  | none => return none
  | some e => return some (← ofExcept (Capability.ofEntitlement e))

/-- Publishes the listing anew. It stays as it is when the entitlements cannot be read. -/
def publish (c : Entitlements) : Program Unit :=
  match c.listing with
  | none => return
  | some path => do
    match ← all.attempt with
    | .ok es => Listing.write path es
    | .error (.storage _) =>
      log .error logger "Skipping entitlement types; entitlements could not be read" []
    | .error e => fail e

/-- A new row for an entitlement that may exist already. -/
def renewed (e : Entitlement) : Option Entitlement → Entitlement
  | none => e
  | some old => { e with id := old.id, createdAt := old.createdAt }

def save (e : Entitlement) : Program Entitlement :=
  locking e.name <| storing logger "save_entitlement" do
    let old ← call (.entitlement e.name)
    log .info logger (if old.isSome then "Updating entitlement" else "Creating entitlement")
      [("entitlement", .text e.name)]
    let _ ← call (.putEntitlement (renewed e old))
    return renewed e old

def store (c : Entitlements) (r : Registration) : Program Entitlement := do
  let e ← save r.entitlement
  c.listeners.forM (·.hear e.name)
  if r.publish then c.publish
  return e

def count (mode : String) : Program Unit :=
  perform (.count (Counters.registration mode))

def onBacklog {α : Type} (p : Stateful (Backlog Registration) α) : Stateful Entitlements α :=
  Stateful.zoom Entitlements.backlog (fun c i => { c with backlog := i }) p

def declare (d : Definition) : Stateful Entitlements Entitlement := do
  let e ← d.entitlement
  onBacklog (Backlog.enqueue (.mk ⟨e, false⟩ .none))
  count "queued"
  return e

/-- Registers an entitlement, as soon as the store is ready. -/
def register (d : Definition) : Stateful Entitlements Entitlement := do
  let e ← d.entitlement
  let c ← get
  let immediate := c.backlog.flushed
  let stored ← onBacklog (Backlog.submit c.store (.mk ⟨e, immediate⟩ .none))
  count (if immediate then "immediate" else "queued")
  return stored.getD e

def registerGiven (d : Except Error Definition) : Stateful Entitlements Entitlement := do
  register (← Stateful.ofExcept d)

/-- Registers entitlements together. When the store is ready, each registration pauses at most once:
while the listing is written. -/
def registerAll (ds : List (Except Error Definition)) :
    Stateful Entitlements (List (Except Error Entitlement)) := do
  let c ← get
  if c.backlog.flushed then
    together 1 (ds.map fun d => do ofExcept (← registerGiven d c).1)
  else ds.mapM fun d => (registerGiven d).attempt

/-- The store is ready. Tells how many registrations had waited. -/
def ready : Stateful Entitlements Nat := do
  let c ← get
  onBacklog (Backlog.flush c.store c.publish)

def listen (l : ChangeListener) : Stateful Entitlements Unit :=
  modify fun c => { c with listeners := c.listeners ++ [l] }

end Entitlements

end AccessControl
