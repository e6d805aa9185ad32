import AccessControl.Value.Parts

/-!
Who asks, and what about.
-/

namespace AccessControl

structure Account where
  id : String
  username : String := ""
  isAdmin : Bool := false
deriving DecidableEq

/-- An instance of an entity type. Decisions look at its tags and the names of its fields only. Its
tags are a list as a rule, and texts; rulesets reach it by those. -/
structure Record where
  entityType : String
  data : Value.Fields
  attributes : Value

namespace Record

def id (r : Record) : Value := r.data.valueOf "id"

def hasTag (r : Record) (tag : String) : Except Error Bool := r.attributes.holds (.text tag)

def tags (r : Record) : Except Error (List Value) := r.attributes.members

end Record

/-- What is asked. There is no account when roles are checked on their own. -/
structure Request where
  account : Option Account
  action : String
  entityType : String
  record : Option Record := none
  attributes : Value := .list []
  payload : Value.Fields := []

end AccessControl
