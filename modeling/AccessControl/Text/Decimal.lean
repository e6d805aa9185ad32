import AccessControl.Binary64
import AccessControl.Text.Integer

/-!
Numbers with a decimal point as text. An exponent may follow them.
-/

namespace AccessControl.Text

def exponent? : List Char → Option Int
  | [] => some 0
  | _ :: '-' :: ds => (nat? ds).map fun n => -Int.ofNat n
  | _ :: '+' :: ds => (nat? ds).map Int.ofNat
  | _ :: ds => (nat? ds).map Int.ofNat

def ofDigits? (negative : Bool) (whole decimals : List Char) (exponent : Int) : Option Binary64 :=
  (nat? (whole ++ decimals)).map fun digits =>
    .ofDecimal negative digits (exponent - Int.ofNat decimals.length)

/-- Digits may be missing on one side of the point. -/
def decimal? (negative : Bool) (s : List Char) : Option Binary64 := do
  let (digits, power) := s.span fun c => c != 'e' && c != 'E'
  match digits.span (· != '.') with
  | (whole, _ :: decimals) => ofDigits? negative whole decimals (← exponent? power)
  | _ => none

end AccessControl.Text
