/-!
Permission rules: which actions on which properties of which entity types a rule allows.
-/

namespace AccessControl

def wildcard : String := "*"

namespace Permission

structure Rule where
  entityType : String
  action : String
  property : String
deriving DecidableEq

def Rule.all : Rule := ⟨wildcard, wildcard, wildcard⟩

def fits (segment name : String) : Bool :=
  segment = wildcard || segment = name

/-- Whether a rule allows an action on an entity type, and on one of its properties when one is
asked for. A property counts only if it is among the known fields of the type, also for a rule that
names no property. -/
def Rule.allows (r : Rule) (entityType action : String) (property : Option String)
    (fields : Option (List String)) : Bool :=
  fits r.entityType entityType && fits r.action action &&
    match property with
    | none => true
    | some p => (fields.getD []).contains p && fits r.property p

end Permission

end AccessControl
