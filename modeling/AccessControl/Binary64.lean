/-!
Numbers with 53 significant bits. A finite one is a multiple of the least positive one, so it is
told by a sign and a natural number.
-/

namespace AccessControl

/-- The number `finite negative units` is `units` divided by `one`. Zero has both signs. -/
inductive Binary64 where
  | finite (negative : Bool) (units : Nat)
  | infinite (negative : Bool)
  | nan
deriving DecidableEq

namespace Binary64

def one : Nat := Nat.pow 2 1074

def bound : Nat := Nat.pow 2 2098

/-- A quotient as a whole number. A half goes to the even neighbour. -/
def nearest (n d : Nat) : Nat :=
  if 2 * (n % d) < d then n / d
  else if d < 2 * (n % d) then n / d + 1
  else n / d + n / d % 2

def rounded (n d : Nat) : Nat :=
  let step := Nat.pow 2 (Nat.log2 (n / d) - 52)
  nearest n (d * step) * step

def ofQuotient (negative : Bool) (n d : Nat) : Binary64 :=
  let units := rounded (n * one) d
  if units < bound then .finite negative units else .infinite negative

def width (n : Nat) : Nat := (Nat.toDigits 10 n).length

def ofDecimal (negative : Bool) (digits : Nat) (exponent : Int) : Binary64 :=
  if digits = 0 ∨ width digits + exponent < -330 then .finite negative 0
  else if 310 < width digits + exponent then .infinite negative
  else if 0 ≤ exponent then ofQuotient negative (digits * Nat.pow 10 exponent.toNat) 1
  else ofQuotient negative digits (Nat.pow 10 (-exponent).toNat)

def ofInt (n : Int) : Binary64 := ofQuotient (n < 0) n.natAbs 1

def isZero (x : Binary64) : Bool :=
  x = .finite false 0 || x = .finite true 0

/-- Equality of numbers. The zeros are equal, and what is not a number equals nothing. -/
def same (x y : Binary64) : Bool :=
  (x.isZero && y.isZero) || (x != .nan && x == y)

def int? : Binary64 → Option Int
  | .finite negative units =>
    if units % one = 0 then
      some (if negative then -Int.ofNat (units / one) else Int.ofNat (units / one))
    else none
  | _ => none

end Binary64

end AccessControl
