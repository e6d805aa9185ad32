import AccessControl.Filter
import AccessControl.Once

/-!
Pipes: filters for a stream of records. Every record that comes is a call. Calls are under way
together; how the account stands is found out once for all of them.
-/

namespace AccessControl

/-- How an account stands: it has the administrators' privilege, or it has grants. -/
inductive Standing where
  | admin
  | grants (s : Snapshot)
deriving DecidableEq

namespace Pipe

inductive Stage where
  | checking (rest : Program (Option Value.Fields))
  | waiting
  | showing (rest : Program Value.Fields)
  | ended (result : Except Error Value.Fields)

structure Call where
  record : Record
  stage : Stage

namespace Stage

def isUnderWay : Stage → Bool
  | .checking _ | .showing _ => true
  | .waiting | .ended _ => false

def result? : Stage → Option (Except Error Value.Fields)
  | .ended r => some r
  | _ => none

def ofProgress : Progress Value.Fields → Stage
  | .paused rest => .showing rest
  | .ended result => .ended result

end Stage

end Pipe

/-- Calls are numbered in order of arrival. -/
structure Pipe where
  account : Account
  action : String
  /-- Is told what shows of a record, unless nothing does. -/
  listener : Option Listener := none
  resolution : Once Nat Standing := {}
  /-- What is left of the resolution in flight. -/
  finding : Option (Program Standing) := none
  calls : List Pipe.Call := []

namespace Pipe

open Program

def entryPoint : String := "filter_pipe"

def request (p : Pipe) (record : Record) : Request :=
  Authority.recordRequest p.account record p.action

/-- What shows of a record that is blocked: nothing. The other records have to wait. -/
def blocked? (f : Filter) (p : Pipe) (record : Record) : Program (Option Value.Fields) := do
  let _ ← ofExcept (f.entities.require record.entityType)
  let d ← f.authority.policy.blocked? entryPoint (p.request record)
  return d.map (Filter.whole record)

def standing (f : Filter) (p : Pipe) : Program Standing := do
  if ← f.authority.policy.admits (some p.account) then return .admin
  return .grants (← f.authority.grants.ofAccount p.account.id)

def shown (f : Filter) (p : Pipe) (record : Record) : Standing → Program Value.Fields
  | .admin => do return Filter.whole record (← Policy.counted entryPoint .admin)
  | .grants s => do
    match ← f.authority.policy.bypassed? entryPoint (p.request record) with
    | some d => return Filter.whole record d
    | none => f.partly entryPoint s record p.action

def announce (p : Pipe) (record : Record) (visible : Value.Fields) : Program Unit :=
  match p.listener, visible with
  | some l, _ :: _ => l.hear (.filtered record.id visible)
  | _, _ => return

def conclude (f : Filter) (p : Pipe) (record : Record) (ending : Ending Standing) :
    Program Value.Fields := do
  let visible ← p.shown f record (← ofExcept ending.toExcept)
  p.announce record visible
  return visible

def stage? (p : Pipe) (call : Nat) : Option Stage :=
  p.calls[call]?.map Call.stage

def result? (p : Pipe) (call : Nat) : Option (Except Error Value.Fields) :=
  (p.stage? call).bind Stage.result?

def isUnderWay (p : Pipe) (call : Nat) : Bool :=
  (p.stage? call).any Stage.isUnderWay

def setStage (p : Pipe) (call : Nat) (stage : Stage) : Pipe :=
  { p with calls := p.calls.modify call ({ · with stage }) }

/-- The grants are known, or that none are needed. -/
def resolved (p : Pipe) : Bool := p.resolution.resolved

def work {α : Type} (p : Pipe) (q : Program α) : Program (Progress α) :=
  within { account := some (.text p.account.id) } q.turn

def present (p : Pipe) (call : Nat) (q : Program Value.Fields) : Program Pipe := do
  return p.setStage call (.ofProgress (← p.work q))

def proceed (f : Filter) (p : Pipe) (call : Nat) : Program Pipe :=
  match p.calls[call]?, p.resolution.toldTo? call with
  | some ⟨record, .waiting⟩, some ending => p.present call (p.conclude f record ending)
  | _, _ => return p

/-- A call asks how the account stands. If there is no resolution to join, it starts one. -/
def inquire (f : Filter) (p : Pipe) (call : Nat) : Program Pipe :=
  let p := { p.setStage call .waiting with
    resolution := p.resolution.get call
    finding := if p.resolution.held.isNone then some (p.standing f) else p.finding }
  p.proceed f call

def arrive (f : Filter) (p : Pipe) (record : Record) : Pipe :=
  { p with calls := p.calls ++ [⟨record, .checking (p.blocked? f record)⟩] }

def advance (f : Filter) (p : Pipe) (call : Nat) : Program Pipe :=
  match p.stage? call with
  | some (.checking rest) => do
    match ← p.work rest with
    | .paused rest => return p.setStage call (.checking rest)
    | .ended (.ok none) => p.inquire f call
    | .ended (.ok (some visible)) => return p.setStage call (.ended (.ok visible))
    | .ended (.error e) => return p.setStage call (.ended (.error e))
  | some (.showing rest) => p.present call rest
  | _ => return p

def resolve (p : Pipe) : Program Pipe :=
  match p.finding with
  | none => return p
  | some rest => do
    match ← p.work rest with
    | .paused rest => return { p with finding := some rest }
    | .ended r => return { p with finding := none, resolution := p.resolution.finish (.ofExcept r) }

def wake (f : Filter) (p : Pipe) (call : Nat) : Program Pipe :=
  proceed f { p with resolution := p.resolution.wake call } call

def cancel (f : Filter) (p : Pipe) (call : Nat) : Program Pipe :=
  proceed f { p with resolution := p.resolution.cancel call } call

end Pipe

end AccessControl
