import AccessControl.Log.Correlation
import AccessControl.Value.Parts

/-!
Log events and the journal that keeps them.
-/

namespace AccessControl.Log

abbrev Event := Value.Fields

/-- Empty texts and other values that count as false are not put. -/
def Event.putSome (name : String) (v : Option Value) (e : Event) : Event :=
  match v with
  | some v => if v.truthy then e.put name v else e
  | none => e

/-- The service is what the name of a logger says before its first dot. -/
def Event.withService (e : Event) : Event :=
  match e.lookup "logger" with
  | some (.text logger) =>
    match logger.toList.span (· != '.') with
    | (_, []) => e
    | (service, _) => e.put "service" (.text (String.ofList service))
  | _ => e

def Event.withServiceOf (e : Event) : Except Error Event := do
  let logger := (e.lookup "logger").getD (.text "")
  if (← logger.holds (.text ".")) && logger.kind ≠ .text then
    .error (.misuse (.lacks logger.kind "split"))
  else return e.withService

/-- An identifier that is bound, and not to the empty text, overrides the event's own. -/
def Event.withCorrelation (c : Correlation) (e : Event) : Event :=
  Event.putSome "account_id" c.account (Event.putSome "request_id" c.request e)

inductive Level where
  | debug
  | info
  | warning
  | error
deriving DecidableEq

namespace Level

def rank : Level → Nat
  | .debug => 0
  | .info => 1
  | .warning => 2
  | .error => 3

def name : Level → String
  | .debug => "debug"
  | .info => "info"
  | .warning => "warning"
  | .error => "error"

end Level

structure Line where
  level : Level
  logger : String
  message : String
  fields : Value.Fields

def Line.event (l : Line) : Event :=
  l.fields ++ [("event", .text l.message), ("logger", .text l.logger),
    ("level", .text l.level.name)]

structure Journal where
  threshold : Level
  events : List Event

namespace Journal

def record (j : Journal) (c : Correlation) (l : Line) : Journal :=
  if j.threshold.rank ≤ l.level.rank then
    { j with events := Event.withCorrelation c (Event.withService l.event) :: j.events }
  else j

def drain (j : Journal) : List Event × Journal :=
  (j.events.reverse, { j with events := [] })

end Journal

end AccessControl.Log
