import AccessControl.Error

/-!
Instants, and the calendar they belong to. They are counted in microseconds from the start of 2024.
-/

namespace AccessControl

structure Instant where
  micros : Int
deriving DecidableEq

namespace Instant

/-- Days from the first of March of the year zero to a date, in the calendar where a year starts in
March. -/
def dayNumber (year month day : Int) : Int :=
  let y := if month ≤ 2 then year - 1 else year
  let m := if month ≤ 2 then month + 9 else month - 3
  365 * y + y / 4 - y / 100 + y / 400 + (153 * m + 2) / 5 + (day - 1)

def epoch : Int := dayNumber 2024 1 1

def dateOf (n : Int) : Int × Int × Int :=
  let era := n / 146097
  let dayOfEra := n - era * 146097
  let yearOfEra :=
    (dayOfEra - dayOfEra / 1460 + dayOfEra / 36524 - dayOfEra / 146096) / 365
  let dayOfYear := dayOfEra - (365 * yearOfEra + yearOfEra / 4 - yearOfEra / 100)
  let m := (5 * dayOfYear + 2) / 153
  let day := dayOfYear - (153 * m + 2) / 5 + 1
  let month := if m < 10 then m + 3 else m - 9
  (yearOfEra + era * 400 + if month ≤ 2 then 1 else 0, month, day)

def perSecond : Nat := 1000000

def perDay : Int := 86400

def ofSeconds (n : Int) : Instant := ⟨n * perSecond⟩

def seconds (t : Instant) : Int :=
  let whole := Binary64.rounded (t.micros.natAbs * Binary64.one) perSecond / Binary64.one
  if t.micros < 0 then -Int.ofNat whole else whole

def startOf (year : Int) : Int := (dayNumber year 1 1 - epoch) * perDay

/-- Instants lie in the years one to 9999. -/
def ofMicros (n : Int) : Except Error Instant :=
  if startOf 1 * perSecond ≤ n ∧ n < startOf 10000 * perSecond then .ok ⟨n⟩
  else .error .outOfRange

/-- The microseconds in a part of a second, the product rounded as it arises, and a half to the even
neighbour. -/
def microsIn (units : Nat) : Nat :=
  Binary64.nearest (Binary64.rounded (units * perSecond) 1) Binary64.one

def ofReal : Binary64 → Except Error Instant
  | .finite negative units =>
    let n := Int.ofNat (units / Binary64.one * perSecond + microsIn (units % Binary64.one))
    ofMicros (if negative then -n else n)
  | .infinite _ => .error .outOfRange
  | .nan => .error .undefinedNumber

/-- The instant so many seconds after the start of 2024. -/
def ofValue : Value → Except Error Instant
  | .real x => ofReal x
  | v => match v.integer? with
    | some n => ofMicros (n * perSecond)
    | none => .error (.misuse (.timed v.kind))

end Instant

end AccessControl
