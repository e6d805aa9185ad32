import AccessControl.Cache.Wire
import AccessControl.Program
import AccessControl.Value.Carried

/-!
Programs whose texts carry values. A key of the cache server is a text, so that what is carried in
one is shown by its display, and what is kept there is written with the values themselves. A store
looks rows up by keys that are members of a set, and searches among names that are texts.
-/

namespace AccessControl

namespace Store

def keyError? (key : String) : Option Error :=
  match (Value.restoreText key).member with
  | .ok _ => none
  | .error e => some e

def nameError? (name : String) : Option Error :=
  match Value.restoreText name with
  | .text _ => none
  | v => some (.misuse (.lacks v.kind "lower"))

/-- Why a call cannot be answered from the tables. Nothing is looked up to be removed from a table
that is empty. -/
def Call.error? (t : Tables) : Call → Option Error
  | .role id => keyError? id
  | .entitlement name => keyError? name
  | .dropRole id => if t.roles.rows.isEmpty then none else keyError? id
  | .dropMembership id => if t.memberships.rows.isEmpty then none else keyError? id
  | .dropRoleRuleset id => if t.roleRulesets.rows.isEmpty then none else keyError? id
  | .dropAccountRuleset id => if t.accountRulesets.rows.isEmpty then none else keyError? id
  | .rolesLike .. => t.roles.rows.findSome? fun r => nameError? r.name
  | _ => none

def Call.replyOr {α : Type} (error? : Option Error) (r : Except Error α) : Except Error α := do
  let a ← r
  match error? with
  | some e => .error e
  | none => return a

end Store

namespace Wire

def restored (text : String) : String :=
  match Json.read? text with
  | some v => write v.restore
  | none => text

end Wire

namespace Program

def restored {α : Type} (t : Store.Tables) : Program α → Program α
  | .done a => .done a
  | .fail e => .fail e
  | .ask (.store c) next => .ask (.store c) fun r =>
    restored t (next (Store.Call.replyOr (c.error? t) r))
  | .ask (.cache (.get key)) next => .ask (.cache (.get (Value.displayed key))) fun r =>
    restored t (next r)
  | .ask (.cache (.set key ttl text)) next =>
    .ask (.cache (.set (Value.displayed key) ttl (Wire.restored text))) fun r =>
      restored t (next r)
  | .ask (.cache (.delete keys)) next =>
    match (keys.flatMap Value.carriedIn).find? fun v => !v.member.toBool with
    | some v => .fail (.misuse (.collected v.kind))
    | none => .ask (.cache (.delete (keys.map Value.displayed))) fun r => restored t (next r)
  | .ask e next => .ask e fun r => restored t (next r)

end Program

end AccessControl
