import AccessControl.Grant.Snapshot
import AccessControl.Override
import AccessControl.Program

/-!
Decisions. Blocks come first, then the administrators' privilege, then the bypasses, and the
rulesets decide what is left. Grants are resolved only when a decision gets that far, and once in a
batch.
-/

namespace AccessControl

inductive Outcome where
  | block
  | admin
  | bypass
  | rulesetAllow
  | rulesetDeny
deriving DecidableEq

def Outcome.name : Outcome → String
  | .block => "block"
  | .admin => "admin"
  | .bypass => "bypass"
  | .rulesetAllow => "ruleset_allow"
  | .rulesetDeny => "ruleset_deny"

structure Decision where
  allowed : Bool
  outcome : Outcome
  reason : String
deriving DecidableEq

namespace Decision

def block (o : Override) : Decision := ⟨false, .block, o.summary⟩
def admin : Decision := ⟨true, .admin, ""⟩
def bypass (o : Override) : Decision := ⟨true, .bypass, o.summary⟩

def ofVerdict (allowed : Bool) : Decision :=
  ⟨allowed, if allowed then .rulesetAllow else .rulesetDeny, ""⟩

end Decision

structure Policy where
  overrides : Overrides
  isAdmin : Predicate

/-- What a batch has found out so far. -/
structure Batch where
  admin : Option Bool := none
  snapshot : Option Snapshot := none

abbrev Batched := StateT Batch Program

/-- What the requests of a batch have in common: where they came in, and how the privilege of the
account and its grants are found. -/
structure Inquiry where
  entryPoint : String
  admin : Program Bool
  grants : Program Snapshot

namespace Inquiry

def isAdmin (i : Inquiry) : Batched Bool := do
  match (← get).admin with
  | some b => return b
  | none =>
    let b ← i.admin
    modify ({ · with admin := some b })
    return b

def snapshot (i : Inquiry) : Batched Snapshot := do
  match (← get).snapshot with
  | some s => return s
  | none =>
    let s ← i.grants
    modify ({ · with snapshot := some s })
    return s

end Inquiry

namespace Policy

open Program

def counted (entryPoint : String) (d : Decision) : Program Decision := do
  perform (.count (Counters.decision entryPoint d.outcome.name))
  return d

def find? (os : List Override) (r : Request) : Program (Option Override) := do
  match ← Override.first? r os with
  | none => return none
  | some o =>
    log .debug "permissions.overrides" "Override matched"
      [("override", .text o.summary), ("action", .text r.action),
       ("entity_type", .text r.entityType)]
    return some o

def admits (p : Policy) (account : Option Account) : Program Bool :=
  match account with
  | none => return false
  | some a => p.isAdmin.test { account := some a }

def blocked? (p : Policy) (entryPoint : String) (r : Request) : Program (Option Decision) := do
  match ← find? p.overrides.blocks r with
  | some o => return some (← counted entryPoint (.block o))
  | none => return none

def bypassed? (p : Policy) (entryPoint : String) (r : Request) : Program (Option Decision) := do
  match ← find? p.overrides.bypasses r with
  | some o => return some (← counted entryPoint (.bypass o))
  | none => return none

def settled? (p : Policy) (i : Inquiry) (r : Request) : Batched (Option Decision) := do
  match ← p.blocked? i.entryPoint r with
  | some d => return some d
  | none =>
    if ← i.isAdmin then return some (← counted i.entryPoint .admin)
    p.bypassed? i.entryPoint r

def decide (p : Policy) (i : Inquiry) (r : Request) 
    (test : Snapshot → Except Error Bool) : Batched Decision := do
  match ← p.settled? i r with
  | some d => return d
  | none =>
    let allowed ← Program.ofExcept (test (← i.snapshot))
    counted i.entryPoint (.ofVerdict allowed)

end Policy

end AccessControl
