import AccessControl.Value

/-!
Identity of values, which tells apart what equality of numbers does not: the integer one, the number
one and truth.
-/

namespace AccessControl.Value

mutual

def identical : Value → Value → Bool
  | .null, .null => true
  | .bool a, .bool b => a == b
  | .int m, .int n => m == n
  | .real x, .real y => x == y
  | .text s, .text t => s == t
  | .list xs, .list ys => identicalItems xs ys
  | .object xs, .object ys => identicalFields xs ys
  | _, _ => false

def identicalItems : List Value → List Value → Bool
  | [], [] => true
  | x :: xs, y :: ys => identical x y && identicalItems xs ys
  | _, _ => false

def identicalFields : Fields → Fields → Bool
  | [], [] => true
  | (j, x) :: xs, (k, y) :: ys => j == k && identical x y && identicalFields xs ys
  | _, _ => false

end

mutual

theorem identical_iff : ∀ x y : Value, identical x y = true ↔ x = y
  | .null, y => by cases y <;> simp [identical]
  | .bool _, y => by cases y <;> simp [identical]
  | .int _, y => by cases y <;> simp [identical]
  | .real _, y => by cases y <;> simp [identical]
  | .text _, y => by cases y <;> simp [identical]
  | .list xs, y => by cases y <;> simp [identical, identicalItems_iff xs]
  | .object xs, y => by cases y <;> simp [identical, identicalFields_iff xs]

theorem identicalItems_iff : ∀ xs ys : List Value, identicalItems xs ys = true ↔ xs = ys
  | [], ys => by cases ys <;> simp [identicalItems]
  | x :: xs, ys => by
    cases ys <;> simp [identicalItems, identical_iff x, identicalItems_iff xs]

theorem identicalFields_iff : ∀ xs ys : Fields, identicalFields xs ys = true ↔ xs = ys
  | [], ys => by cases ys <;> simp [identicalFields]
  | (_, x) :: xs, ys => by
    cases ys <;> simp [identicalFields, identical_iff x, identicalFields_iff xs, Prod.ext_iff]

end

instance : DecidableEq Value := fun x y => decidable_of_iff _ (identical_iff x y)

end AccessControl.Value
