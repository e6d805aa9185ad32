import AccessControl.Text.Digit

/-!
Integers in decimal notation.
-/

namespace AccessControl.Text

def nat? (s : List Char) : Option Nat :=
  if !s.isEmpty && s.all Char.isDigit then
    some (s.foldl (fun n c => 10 * n + (c.toNat - 0x30)) 0)
  else none

def mostDigits : Nat := 4300

def isPlain : List Char → Bool
  | '0' :: _ :: _ => false
  | s => (nat? s).isSome

def plainNat? (s : List Char) : Option Nat :=
  if isPlain s && s.length ≤ mostDigits then nat? s else none

def plainInt? : List Char → Option Int
  | '-' :: rest => (plainNat? rest).map fun n => -Int.ofNat n
  | rest => (plainNat? rest).map Int.ofNat

/-- The values of digits of any script. One underscore may stand between two of them. -/
def digits? : List Char → Option (List Nat)
  | [] => none
  | [c] => (digit? c).map ([·])
  | c :: '_' :: rest => do return (← digit? c) :: (← digits? rest)
  | c :: rest => do return (← digit? c) :: (← digits? rest)

def unsigned? (s : List Char) : Option Nat := do
  let ds ← digits? s
  if ds.length ≤ mostDigits then some (ds.foldl (fun n d => 10 * n + d) 0) else none

def int? : List Char → Option Int
  | '+' :: rest => (unsigned? rest).map Int.ofNat
  | '-' :: rest => (unsigned? rest).map fun n => -Int.ofNat n
  | rest => (unsigned? rest).map Int.ofNat

end AccessControl.Text
