import AccessControl.Binary64.Shortest

/-!
Numbers in decimal notation. The point is never left out, except before an exponent.
-/

namespace AccessControl.Binary64

def scientific (digits : List Char) (exponent : Int) : List Char :=
  let size := Nat.toDigits 10 exponent.natAbs
  let fraction := if digits.length ≤ 1 then [] else '.' :: digits.drop 1
  digits.take 1 ++ fraction ++ ['e', if exponent < 0 then '-' else '+'] ++
    List.replicate (2 - size.length) '0' ++ size

def positional (digits : List Char) (place : Int) : List Char :=
  let digits := List.replicate (1 - place).toNat '0' ++ digits
  let whole := max place 1
  let digits := digits ++ List.replicate (whole + 1 - digits.length).toNat '0'
  digits.take whole.toNat ++ '.' :: digits.drop whole.toNat

/-- A number without its sign: with a point from a ten-thousandth up to the sixteenth power of ten,
and with an exponent outside. -/
def magnitude (units : Nat) : List Char :=
  if units = 0 then positional ['0'] 1
  else
    let (digits, exponent) := shortest units
    let all := Nat.toDigits 10 digits
    let significant := (all.reverse.dropWhile (· == '0')).reverse
    let place := Int.ofNat all.length + exponent
    if -4 < place ∧ place ≤ 16 then positional significant place
    else scientific significant (place - 1)

def written (infinity nan : List Char) : Binary64 → List Char
  | .finite negative units => if negative then '-' :: magnitude units else magnitude units
  | .infinite negative => if negative then '-' :: infinity else infinity
  | .nan => nan

def text (x : Binary64) : String :=
  String.ofList (x.written ['i', 'n', 'f'] ['n', 'a', 'n'])

end AccessControl.Binary64
