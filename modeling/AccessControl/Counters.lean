import AccessControl.Binary64
import AccessControl.Error
import AccessControl.Text.Order

/-!
Counters. A series exists once it was used. Amounts that are given may have fractions; they and the
sums with them are kept to 53 significant bits.
-/

namespace AccessControl

namespace Counters

inductive Family where
  | decisions
  | resolutions
  | registrations
deriving DecidableEq

namespace Family

def name : Family → String
  | .decisions => "authorization_decisions_total"
  | .resolutions => "grant_resolutions_total"
  | .registrations => "entitlement_registrations_total"

def all : List Family := [.decisions, .resolutions, .registrations]

end Family

structure Series where
  family : Family
  labels : List (String × String)
deriving DecidableEq

def decision (entryPoint outcome : String) : Series :=
  ⟨.decisions, [("entry_point", entryPoint), ("outcome", outcome)]⟩

def resolution (source : String) : Series :=
  ⟨.resolutions, [("source", source)]⟩

def registration (mode : String) : Series :=
  ⟨.registrations, [("mode", mode)]⟩

end Counters

structure Counters where
  service : String
  /-- What was counted, in the units of `Binary64`. -/
  counts : List (Counters.Series × Nat) := []
  /-- The series whose sums are infinite. -/
  infinite : List Counters.Series := []
  /-- The series to which something was added that is not a number. -/
  undefined : List Counters.Series := []
  timings : Nat := 0

namespace Counters

def infoName : String := "service_info"
def timingName : String := "grant_resolution_duration_seconds"
def version : String := "1.0.0"

def units (m : Counters) (s : Series) : Nat :=
  (m.counts.lookup s).getD 0

def put (s : Series) (n : Nat) : List (Series × Nat) → List (Series × Nat)
  | [] => [(s, n)]
  | (t, k) :: rest => if t = s then (t, n) :: rest else (t, k) :: put s n rest

def set (m : Counters) (s : Series) (n : Nat) : Counters :=
  { m with counts := put s n m.counts }

def increment (m : Counters) (s : Series) : Counters :=
  m.set s (m.units s + Binary64.one)

/-- An amount as a number. An integer that is too large for one is refused. -/
def amount : Value → Except Error Binary64
  | .int n => if Binary64.ofInt n = .infinite false then .error .outOfRange else .ok (.ofInt n)
  | v => v.number?.elim (.error (.misuse (.compared v.kind .int))) .ok

def plus (m : Counters) (s : Series) : Binary64 → Except Error Counters
  | .finite false n =>
    let sum := Binary64.rounded (m.units s + n) 1
    if sum < Binary64.bound then .ok (m.set s sum)
    else .ok { m with infinite := s :: m.infinite }
  | .finite true 0 => .ok m
  | .infinite false => .ok { m with infinite := s :: m.infinite }
  | .nan => .ok { m with undefined := s :: m.undefined }
  | _ => .error .negativeCount

/-- Adds an amount. The series exists from then on, also when the amount is refused. -/
def add? (m : Counters) (s : Series) (v : Value) : Except Error Unit × Counters :=
  let m := m.set s (m.units s)
  match (amount v).bind (m.plus s) with
  | .ok m => (.ok (), m)
  | .error e => (.error e, m)

def timed (m : Counters) : Counters := { m with timings := m.timings + 1 }

/-- What the end of an operation does that was to be measured under a name. Names that nothing is
known by are passed over; only durations are measured. -/
def measure (m : Counters) (name : String) : Except Error Unit × Counters :=
  if name = timingName then (.ok (), m.timed)
  else if name = infoName || Family.all.any (·.name = name) then (.error .notTimed, m)
  else (.ok (), m)

def knows (name : String) : Bool :=
  name = infoName || name = timingName || Family.all.any (·.name = name)

def sum (m : Counters) (s : Series) : Binary64 :=
  if s ∈ m.undefined then .nan
  else if s ∈ m.infinite then .infinite false
  else .finite false (m.units s)

structure Sample where
  name : String
  labels : List (String × String)
  value : Value

def Sample.key (s : Sample) : String :=
  "|".intercalate (s.name :: s.labels.map fun (k, v) => k ++ "=" ++ v)

def samples (m : Counters) : List Sample :=
  ⟨infoName ++ "_info", [("service", m.service), ("version", version)], .int 1⟩ ::
  ⟨timingName ++ "_count", [], .nat m.timings⟩ ::
  m.counts.map fun (s, _) => ⟨s.family.name, s.labels, .real (m.sum s)⟩

def fields (m : Counters) : Value.Fields :=
  m.samples.map fun s => (s.key, s.value)

def sample (m : Counters) (name : String) (labels : Value.Fields) : Value :=
  let found := m.samples.find? fun s =>
    s.name = name && s.labels.length = labels.length &&
      s.labels.all fun (k, v) => (labels.lookup k).bind Value.text? = some v
  found.elim (.int 0) Sample.value

end Counters

end AccessControl
