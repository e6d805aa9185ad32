import AccessControl.Instant
import AccessControl.Text.Integer

/-!
Instants as text: a date and a time of day, `2024-01-01T00:00:00`, and six digits of a fraction
unless it is zero.
-/

namespace AccessControl.Text

def padded (width : Nat) (n : Int) : List Char :=
  let digits := (toString n.toNat).toList
  List.replicate (width - digits.length) '0' ++ digits

def instantChars (t : Instant) : List Char :=
  let n := t.micros / Instant.perSecond
  let (year, month, day) := Instant.dateOf (Instant.epoch + n / Instant.perDay)
  let s := n % Instant.perDay
  let fraction := t.micros % Instant.perSecond
  padded 4 year ++ '-' :: padded 2 month ++ '-' :: padded 2 day ++ 'T' ::
    padded 2 (s / 3600) ++ ':' :: padded 2 (s / 60 % 60) ++ ':' :: padded 2 (s % 60) ++
    if fraction = 0 then [] else '.' :: padded 6 fraction

def instant (t : Instant) : String := String.ofList (instantChars t)

def below? (bound : Nat) (digits : List Char) : Option Int :=
  (nat? digits).bind fun n => if n < bound then some (Int.ofNat n) else none

/-- The day number of a date that exists. The first year is the year one. -/
def date? (year month day : List Char) : Option Int := do
  let year ← below? 10000 year
  let month ← below? 100 month
  let day ← below? 100 day
  let n := Instant.dayNumber year month day
  if 0 < year ∧ Instant.dateOf n = (year, month, day) then some n else none

def clock? (hour minute : List Char) : Option Int := do
  return (← below? 24 hour) * 3600 + (← below? 60 minute) * 60

end AccessControl.Text
