import AccessControl.Decision
import AccessControl.Grant.Resolution

/-!
Yes-or-no questions: whether an account or a set of roles may do something.
-/

namespace AccessControl

structure Authority where
  policy : Policy
  grants : Grants

namespace Authority

open Program

def inquiry (auth : Authority) (entryPoint : String) (account : Account) : Inquiry :=
  ⟨entryPoint, auth.policy.admits (some account), auth.grants.ofAccount account.id⟩

def asking {α : Type} (account : Account) (b : Batched α) : Program α :=
  within { account := some (.text account.id) } (b.run' {})

def mayCreate (auth : Authority) (account : Account) (entityType : String) (attributes : Value) :
    Program Bool := do
  let tags ← ofExcept attributes.parts
  let r : Request :=
    { account, action := RecordAction.create.name, entityType, attributes := .list tags }
  let d ← asking account
    (auth.policy.decide (auth.inquiry "can_create" account) r (·.mayCreate entityType tags))
  return d.allowed

def recordRequest (account : Option Account) (record : Record) (action : String) : Request :=
  { account, action, entityType := record.entityType, record := some record,
    attributes := record.attributes }

def decideEach (auth : Authority) (i : Inquiry) (account : Option Account) (records : List Record)
    (action : String) : Batched (List Decision) :=
  records.mapM fun record =>
    auth.policy.decide i (recordRequest account record action) (·.allows record action)

def decisions (auth : Authority) (account : Account) (records : List Record) (action : Action) :
    Program (List Decision) :=
  asking account
    (auth.decideEach (auth.inquiry "account_can_do" account) (some account) records action.name)

def verdicts (auth : Authority) (account : Account) (records : List Record) (action : Action) :
    Program (List Bool) := do
  return (← auth.decisions account records action).map Decision.allowed

def verdictsFrom (auth : Authority) (grants : Program Snapshot) (records : List Record)
    (action : Action) : Program (List Bool) := do
  let i : Inquiry := ⟨"roles_can_do", auth.policy.admits none, grants⟩
  let ds ← (auth.decideEach i none records action.name).run' {}
  return ds.map Decision.allowed

def verdictsOfRoles (auth : Authority) (roles : List String) (records : List Record)
    (action : Action) : Program (List Bool) :=
  auth.verdictsFrom (auth.grants.ofRoles roles) records action

def allows (auth : Authority) (account : Account) (record : Record) (action : Action) :
    Program Bool := do
  return (← auth.verdicts account [record] action).all id

def featureAction : String := "feature"

def unlocks (auth : Authority) (account : Account) (feature scope : Value) : Program Bool := do
  let r : Request :=
    { account, action := featureAction, entityType := feature.carry,
      payload := [("scope", scope)] }
  let d ← asking account
    (auth.policy.decide (auth.inquiry "can_do_feature" account) r (·.unlocks feature scope))
  return d.allowed

def demand (auth : Authority) (account : Account) (record : Record) (action : Action) :
    Program Unit := do
  if ← auth.allows account record action then return
  else fail (.permissionDenied account.id action.name record.entityType)

def demandCreation (auth : Authority) (account : Account) (entityType : String)
    (attributes : Value) : Program Unit := do
  if ← auth.mayCreate account entityType attributes then return
  else fail (.permissionDenied account.id RecordAction.create.name entityType)

end Authority

end AccessControl
