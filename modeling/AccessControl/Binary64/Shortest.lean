import AccessControl.Binary64

/-!
The fewest decimal digits that read back as the same number, and of those the nearest to it.
-/

namespace AccessControl.Binary64

/-- How many digits of a positive number are before the point; negative when zeros follow it. -/
def place (units : Nat) : Int :=
  if one ≤ units then width (units / one) else 1 - Int.ofNat (width ((one - 1) / units))

/-- The two neighbours of a number among those with an exponent of ten, the nearer one first. Of two
that are equally near the even one is first. -/
def neighbours (units : Nat) (exponent : Int) : List Nat :=
  let n := units * Nat.pow 10 (-exponent).toNat
  let d := one * Nat.pow 10 exponent.toNat
  let low := n / d
  if nearest n d = low then [low, low + 1] else [low + 1, low]

def readsBack (units : Nat) (exponent : Int) (digits : Nat) : Bool :=
  ofDecimal false digits exponent == .finite false units

def decimal? (units size : Nat) : Option (Nat × Int) :=
  let exponent := place units - size
  ((neighbours units exponent).find? (readsBack units exponent)).map (·, exponent)

/-- Seventeen digits always read back. -/
def shortest (units : Nat) : Nat × Int :=
  ((List.range 17).findSome? fun i => decimal? units (i + 1)).getD (0, 0)

end AccessControl.Binary64
