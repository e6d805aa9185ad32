import AccessControl.Authority
import AccessControl.Entity

/-!
Filtering: the fields of records that an account may see. Fields that it may not see are left out.
-/

namespace AccessControl

structure Filter where
  authority : Authority
  entities : Entities

namespace Filter

open Program

def visible (f : Filter) (s : Snapshot) (record : Record) (action : String) :
    Except Error Value.Fields := do
  let grants ← s.reaching record action
  let schema := f.entities.fieldsOf record.entityType
  return record.data.filter fun (name, _) =>
    grants.any (·.capability.allows record.entityType action (some name) (some schema))

def whole (record : Record) (d : Decision) : Value.Fields :=
  if d.allowed then record.data else []

/-- What the rulesets show of a record. The decision is an allowance when there is anything. -/
def partly (f : Filter) (entryPoint : String) (s : Snapshot) (record : Record) (action : String) :
    Program Value.Fields := do
  let visible ← ofExcept (f.visible s record action)
  let _ ← Policy.counted entryPoint (.ofVerdict !visible.isEmpty)
  return visible

def one (f : Filter) (i : Inquiry) (account : Account) (action : String) (record : Record) :
    Batched Value.Fields := do
  match ← f.authority.policy.settled? i (Authority.recordRequest account record action) with
  | some d => return whole record d
  | none => f.partly i.entryPoint (← i.snapshot) record action

/-- What an account may see of each of some records. All of their types must be known. -/
def batch (f : Filter) (account : Account) (records : List Record) (action : Action) :
    Program (List Value.Fields) := do
  records.forM fun record => do
    let _ ← ofExcept (f.entities.require record.entityType)
  let i := f.authority.inquiry "filter_batch" account
  Authority.asking account (records.mapM (f.one i account action.name))

end Filter

end AccessControl
