import AccessControl.Store.Cascade
import AccessControl.Store.Columns
import AccessControl.Store.Method
import AccessControl.Store.Sql

/-!
Calls of a store by their methods, with arguments and results as values. A store that keeps its
tables itself looks rows up by keys, which must be able to be members of a set; a database takes
anything.
-/

namespace AccessControl.Store

open Program

def Method.arity : Method → Nat × Nat
  | .entitlements => (0, 0)
  | .dropMemberships => (0, 2)
  | .membership => (2, 2)
  | .rolesLike | .roleRuleset | .accountRuleset => (3, 3)
  | _ => (1, 1)

def windowError (offset limit : Value) : Misuse :=
  match offset, limit with
  | .text _, .text _ | .list _, .list _ => .position
  | v, w => if v.number?.isSome && w.number?.isSome then .position else .added v.kind w.kind

def searchOf (key offset limit : Value) : Except Error (String × Int × Int) :=
  match key.text?, offset.integer?, limit.integer? with
  | none, _, _ => .error (.misuse (.lacks key.kind "lower"))
  | some k, some n, some m => .ok (k, n, m)
  | _, _, _ => .error (.misuse (windowError offset limit))

inductive Place where
  | own
  | database
deriving DecidableEq

/-- A call that cannot be made is tried all the same. -/
def refused {α : Type} (c : Call) (e : Error) : Program α := do
  let _ ← call c
  fail e

def search (key offset limit : Value) : Program (List Role) :=
  match searchOf key offset limit with
  | .ok (key, offset, limit) => call (.rolesLike key offset limit)
  | .error e => refused (.rolesLike "" 0 0) e

def rulesetsOfRoles (roles : Value) : Program (List RoleRuleset) :=
  match roles.carryMembers with
  | .ok roles => call (.rulesetsOfRoles roles)
  | .error e => refused (.rulesetsOfRoles []) e

namespace Place

def checkKey : Place → String → Except Error Unit
  | .own, key => do let _ ← (Value.restoreText key).member
  | .database, _ => .ok ()

def search : Place → Value → Value → Value → Program (List Role)
  | .own, key, offset, limit => Store.search key offset limit
  | .database, key, offset, limit => Sql.rolesLike key.carry offset limit

/-- The rulesets of some roles. A database is not asked for those of none. -/
def rulesetsOfRoles : Place → Value → Program (List RoleRuleset)
  | .own, roles => Store.rulesetsOfRoles roles
  | .database, roles =>
    if !roles.truthy then return []
    else match roles.carryParts with
      | .ok roles => call (.rulesetsOfRoles roles)
      | .error e => Sql.connected (fail e)

def removeRole : Place → String → Program Bool
  | .own => Store.removeRole
  | .database => Sql.removeRole

def removeAccount : Place → String → Program (Int × Int)
  | .own => Store.removeAccount
  | .database => Sql.removeAccount

end Place

def row {ρ : Type} [Tabular ρ] (r : ρ) : Value := Tabular.value (fun t => .int t.seconds) r

def rowOrNull {ρ : Type} [Tabular ρ] (r : Option ρ) : Value := .ofOption row r

def rows {ρ : Type} [Tabular ρ] (rs : List ρ) : Value := .list (rs.map row)

def put {ρ : Type} [Tabular ρ] [Keyed ρ] (p : Place) (now : Instant) (args : Value)
    (call : ρ → Program ρ) : Program Value := do
  let r ← ofExcept (Tabular.ofGiven now args)
  ofExcept (p.checkKey (Keyed.key r))
  return row (← call r)

def answer (p : Place) (m : Method) (args : List Value) : Program Value := do
  let arg (i : Nat) : Value := args[i]?.getD .null
  let text (i : Nat) : String := (arg i).carry
  let text? (i : Nat) : Option String := if arg i = .null then none else some (text i)
  match m with
  | .role => return rowOrNull (← call (.role (text 0)))
  | .dropRole => return .bool (← call (.dropRole (text 0)))
  | .rolesLike => return rows (← p.search (arg 0) (arg 1) (arg 2))
  | .rolesOf => return rows (← call (.rolesOf (text 0)))
  | .membership => return rowOrNull (← call (.membership (text 0) (text 1)))
  | .dropMembership => return .bool (← call (.dropMembership (text 0)))
  | .membersOf => return rows (← call (.membersOf (text 0)))
  | .dropMemberships => return .int (← call (.dropMemberships (text? 0) (text? 1)))
  | .entitlement => return rowOrNull (← call (.entitlement (text 0)))
  | .entitlements => return rows (← call .entitlements)
  | .roleRuleset => return rowOrNull (← call (.roleRuleset (text 0) (text 1) (text 2)))
  | .dropRoleRuleset => return .bool (← call (.dropRoleRuleset (text 0)))
  | .dropRulesetsOfRole => return .int (← call (.dropRulesetsOfRole (text 0)))
  | .rulesetsOfRoles => return rows (← p.rulesetsOfRoles (arg 0))
  | .rulesetsThroughRoles => return rows (← call (.rulesetsThroughRoles (text 0)))
  | .accountRuleset => return rowOrNull (← call (.accountRuleset (text 0) (text 1) (text 2)))
  | .dropAccountRuleset => return .bool (← call (.dropAccountRuleset (text 0)))
  | .dropRulesetsOfAccount => return .int (← call (.dropRulesetsOfAccount (text 0)))
  | .rulesetsOfAccount => return rows (← call (.rulesetsOfAccount (text 0)))
  | .roleCascade => return .bool (← p.removeRole (text 0))
  | .accountCascade => do
    let (memberships, rulesets) ← p.removeAccount (text 0)
    return .list [.int memberships, .int rulesets]
  | _ => return .null

def perform (p : Place) (now : Instant) (m : Method) (args : Value) : Program Value := do
  match m with
  | .putRole => put p now args fun r : Role => call (.putRole r)
  | .putMembership => put p now args fun r : Membership => call (.putMembership r)
  | .putEntitlement => put p now args fun r : Entitlement => call (.putEntitlement r)
  | .putRoleRuleset => put p now args fun r : RoleRuleset => call (.putRoleRuleset r)
  | .putAccountRuleset => put p now args fun r : AccountRuleset => call (.putAccountRuleset r)
  | m =>
    let args ← ofExcept args.parts
    if args.length < m.arity.1 ∨ m.arity.2 < args.length then fail .misfit
    else answer p m args

end AccessControl.Store
