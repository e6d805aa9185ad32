import AccessControl.Permission.Rule
import AccessControl.Program
import AccessControl.Request

/-!
Overrides: hard denials and hard permissions that come before any ruleset. The first one in order of
registration that applies to a request counts.
-/

namespace AccessControl

/-- What a condition may look at. -/
structure Facts where
  account : Option Account := none
  record : Option Record := none
  request : Option Request := none

/-- What decides whether an override applies. It holds or not, or it fails. -/
structure Predicate where
  holds : Facts → Except Error Bool
  /-- It gives its turn away once before it answers. -/
  pauses : Bool := false

def Predicate.test (p : Predicate) (f : Facts) : Program Bool := do
  if p.pauses then Program.perform .pause
  Program.ofExcept (p.holds f)

def Request.facts (r : Request) : Facts :=
  ⟨r.account, r.record, some r⟩

inductive Override.Kind where
  /-- A denial that looks at the request. -/
  | block
  /-- A denial that looks at the account only. -/
  | accountBlock
  /-- A permission that looks at the request. -/
  | bypass
  /-- A permission that looks at the account and the record only. -/
  | accountBypass
deriving DecidableEq

namespace Override.Kind

def all : List Kind := [.block, .accountBlock, .bypass, .accountBypass]

def name : Kind → String
  | .block => "block"
  | .accountBlock => "account_block"
  | .bypass => "bypass"
  | .accountBypass => "account_bypass"

def title : Kind → String
  | .block => "Block"
  | .accountBlock => "AccountBlock"
  | .bypass => "ActionBypass"
  | .accountBypass => "AccountBypass"

def isBlock : Kind → Bool
  | .block | .accountBlock => true
  | .bypass | .accountBypass => false

/-- What the condition of an override of a kind sees of a request; nothing when there is no account
to look at. -/
def facts? (k : Kind) (r : Request) : Option Facts :=
  match k with
  | .block | .bypass => some r.facts
  | .accountBlock => r.account.map fun a => { account := some a }
  | .accountBypass => r.account.map fun a => { account := some a, record := r.record }

end Override.Kind

structure Override where
  kind : Override.Kind
  action : String
  entityType : String
  condition : Predicate
  /-- Requests for which one of these holds are left alone. -/
  exceptions : List Predicate

namespace Override

def always : Predicate := ⟨fun _ => .ok true, false⟩

def concerns (o : Override) (action entityType : String) : Bool :=
  Permission.fits o.action action && Permission.fits o.entityType entityType

def anyHolds (f : Facts) : List Predicate → Program Bool
  | [] => return false
  | p :: rest => do
    if ← p.test f then return true
    anyHolds f rest

def applies (o : Override) (r : Request) : Program Bool :=
  match o.kind.facts? r with
  | none => return false
  | some facts => do
    if ← o.condition.test facts then return !(← anyHolds r.facts o.exceptions)
    return false

def summary (o : Override) : String :=
  o.kind.name ++ ":" ++ o.action ++ ":" ++ o.entityType

def label (o : Override) : String :=
  "<" ++ o.kind.title ++ " " ++ o.action ++ ":" ++ o.entityType ++ ">"

def excepting (o : Override) (p : Predicate) : Override :=
  { o with exceptions := o.exceptions ++ [p] }

/-- The first override that is keyed on a request and applies to it. Those behind it are not
evaluated. -/
def first? (r : Request) : List Override → Program (Option Override)
  | [] => return none
  | o :: rest => do
    if o.concerns r.action r.entityType then
      if ← o.applies r then return some o
    first? r rest

end Override

structure Overrides where
  blocks : List Override := []
  bypasses : List Override := []

namespace Overrides

def register (os : Overrides) (o : Override) : Overrides :=
  if o.kind.isBlock then { os with blocks := os.blocks ++ [o] }
  else { os with bypasses := os.bypasses ++ [o] }

def predicates (os : Overrides) : Nat :=
  (os.blocks ++ os.bypasses).foldl (fun n o => n + 1 + o.exceptions.length) 0

/-- Adds an exception to the override that was registered at a position among its like. -/
def excepting (os : Overrides) (isBlock : Bool) (position : Nat) (p : Predicate) : Overrides :=
  if isBlock then { os with blocks := os.blocks.modify position (·.excepting p) }
  else { os with bypasses := os.bypasses.modify position (·.excepting p) }

end Overrides

end AccessControl
