import AccessControl.Json.Printer
import AccessControl.Json.Reader
import AccessControl.Store.Columns
import AccessControl.Text.Timestamp

/-!
Cached rows as texts: JSON, with times as instants. Rows that others have written may have times in
other notations. What is too large to be read counts as malformed.
-/

namespace AccessControl

open Columns

namespace Wire

def time (t : Instant) : Value := .text (Text.instant t)

def time? : Value → Option Instant
  | .text s => Text.timestamp? s
  | .int n => Text.ofInt? n
  | .real x => Text.ofReal? x
  | _ => none

def numberSize : Nat := 4300

def depth : Nat := 200

def read? (s : String) : Option Value := Json.readWithin? numberSize depth s

def row? {ρ : Type} [Tabular ρ] (now : Instant) (v : Value) : Option ρ :=
  Tabular.ofWritten? time? time now v

mutual

/-- A value with `null` in place of the numbers that are not finite. -/
def finite : Value → Value
  | .real (.infinite _) => .null
  | .real .nan => .null
  | .list items => .list (finiteItems items)
  | .object fields => .object (finiteFields fields)
  | v => v

def finiteItems : List Value → List Value
  | [] => []
  | v :: vs => finite v :: finiteItems vs

def finiteFields : Value.Fields → Value.Fields
  | [] => []
  | (k, v) :: rest => (k, finite v) :: finiteFields rest

end

def write (v : Value) : String := Json.print (finite v)

end Wire

structure Rulesets where
  role : List RoleRuleset
  account : List AccountRuleset
deriving DecidableEq

namespace Rulesets

def toList (r : Rulesets) : List Ruleset :=
  r.role.map .role ++ r.account.map .account

def fields (time : Instant → Value) (r : Rulesets) : Value.Fields :=
  [("role_rulesets", .list (r.role.map (Tabular.value time))),
   ("account_rulesets", .list (r.account.map (Tabular.value time)))]

def value (r : Rulesets) : Value := .object (r.fields Wire.time)

def ofValue? (now : Instant) : Value → Option Rulesets
  | .object fs => do
    return {
      role := ← optional (rows? (Wire.row? now)) [] (.object fs) "role_rulesets"
      account := ← optional (rows? (Wire.row? now)) [] (.object fs) "account_rulesets" }
  | _ => none

def read? (now : Instant) (s : String) : Option Rulesets :=
  (Wire.read? s).bind (ofValue? now)

end Rulesets

namespace Entitlement

def listing (es : List Entitlement) : Value := .list (es.map (Tabular.value Wire.time))

/-- Cached permissions are texts. -/
def ofWire? (now : Instant) (v : Value) : Option Entitlement :=
  (Wire.row? now v).filter fun e : Entitlement => e.permissions.all (·.text?.isSome)

def readAll? (now : Instant) (s : String) : Option (List Entitlement) :=
  (Wire.read? s).bind (rows? (ofWire? now))

end Entitlement

end AccessControl
