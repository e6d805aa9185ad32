import AccessControl.Text.Decimal
import AccessControl.Text.Instant

/-!
Instants in other notations: a time of day may lack its seconds or have a fraction of them, and a
time zone, which is passed over; a date may stand alone; and a number counts from the start of 1970.
-/

namespace AccessControl.Text

def microseconds : Int := Instant.perSecond

/-- A fraction of a second in microseconds. Further digits do not count. -/
def fraction? (digits : List Char) : Option Int :=
  if digits.all Char.isDigit && !digits.isEmpty then
    (nat? (digits.take 6 ++ List.replicate (6 - digits.length) '0')).map Int.ofNat
  else none

def seconds? : List Char → Option (Int × List Char)
  | ':' :: a :: b :: rest => do
    let whole ← below? 60 [a, b]
    match rest with
    | [] => return (whole * microseconds, [])
    | c :: rest' =>
      if c = '.' ∨ c = ',' then
        let (digits, after) := rest'.span Char.isDigit
        return (whole * microseconds + (← fraction? digits), after)
      else return (whole * microseconds, rest)
  | ':' :: _ => none
  | rest => some (0, rest)

def isSign (c : Char) : Bool := c = '+' || c = '-' || c = '−'

/-- Nothing, the letter of universal time, or a difference from it of less than a day. -/
def isZone : List Char → Bool
  | [] => true
  | [c] => c = 'Z' || c = 'z'
  | [sign, h1, h2, ':', m1, m2] => isSign sign && (clock? [h1, h2] [m1, m2]).isSome
  | [sign, h1, h2, m1, m2] => isSign sign && (clock? [h1, h2] [m1, m2]).isSome
  | _ => false

def isSeparator (c : Char) : Bool := c = 'T' || c = 't' || c = ' ' || c = '_'

def timeOfDay? : List Char → Option Int
  | [] => some 0
  | separator :: h1 :: h2 :: ':' :: m1 :: m2 :: rest => do
    let minutes ← clock? [h1, h2] [m1, m2]
    let (micros, zone) ← seconds? rest
    if isSeparator separator && isZone zone then some (minutes * microseconds + micros) else none
  | _ => none

def dateTime? : List Char → Option Instant
  | y1 :: y2 :: y3 :: y4 :: '-' :: m1 :: m2 :: '-' :: d1 :: d2 :: rest => do
    let date ← date? [y1, y2, y3, y4] [m1, m2] [d1, d2]
    let micros ← timeOfDay? rest
    return ⟨(date - Instant.epoch) * Instant.perDay * microseconds + micros⟩
  | _ => none

def firstSecond : Int := Instant.startOf 1970

/-- Numbers beyond this count milliseconds; the others count seconds. -/
def mostSeconds : Nat := 20000000000

def ofMicros? (n : Int) : Option Instant :=
  (Instant.ofMicros (firstSecond * microseconds + n)).toOption

def ofInt? (n : Int) : Option Instant :=
  ofMicros? (n * if n.natAbs ≤ mostSeconds then microseconds else 1000)

/-- The microseconds of a part of a second, the difference and the product rounded as they arise,
and a half up. -/
def microsOf (units : Nat) : Nat :=
  let product := Binary64.rounded (Binary64.rounded units 1 * 1000000) 1
  (2 * product + Binary64.one) / (2 * Binary64.one)

/-- A number of milliseconds is turned into one of seconds first. -/
def ofReal? : Binary64 → Option Instant
  | .finite negative units =>
    let size :=
      if mostSeconds * Binary64.one < units then Binary64.rounded units 1000 else units
    let n := if negative then -Int.ofNat size else Int.ofNat size
    ofMicros? (n / Binary64.one * microseconds + microsOf (n % Binary64.one).toNat)
  | _ => none

def numeral? (negative : Bool) (s : List Char) : Option Instant :=
  if s.contains '.' then (decimal? negative s).bind ofReal?
  else (nat? s).bind fun n => ofInt? (if negative then -Int.ofNat n else n)

def timestamp? (s : String) : Option Instant :=
  match dateTime? s.toList with
  | some t => some t
  | none => match s.toList with
    | '-' :: rest => numeral? true rest
    | '+' :: rest => numeral? false rest
    | rest => numeral? false rest

end AccessControl.Text
