import AccessControl.Error
import AccessControl.Text.Digit
import AccessControl.Text.Integer

/-!
Values as they are shown: a real number without a fraction as an integer, and a time of the first
day of 2024 as its seconds. A number that is not finite cannot be shown, nor can what looks like
such a time and is none.
-/

namespace AccessControl.Value

def dayStart : String := "2024-01-01T"

def clockNumber (digits : List Char) (bound : Nat) (noTime : String) : Except Error Int :=
  match Text.nat? digits with
  | some n => if n < bound then .ok n else .error (.noTime noTime)
  | none => .error (.noTime noTime)

def shownTime (hour minute second : List Char) : Except Error Value := do
  let h ← clockNumber hour 24 "hour must be in 0..23"
  let m ← clockNumber minute 60 "minute must be in 0..59"
  let s ← clockNumber second 60 "second must be in 0..59"
  return .int (h * 3600 + m * 60 + s)

/-- A time may be written with the digits of any script, but only those of ASCII are understood. -/
def shownText (s : String) : Except Error Value :=
  match s.toList.splitAt dayStart.length with
  | (start, [h1, h2, ':', m1, m2, ':', s1, s2]) =>
    let digits := [h1, h2, m1, m2, s1, s2]
    if start ≠ dayStart.toList ∨ !digits.all fun c => (Text.digit? c).isSome then .ok (.text s)
    else if digits.all Char.isDigit then shownTime [h1, h2] [m1, m2] [s1, s2]
    else .error (.noTime ("Invalid isoformat string: " ++ Text.quoted s))
  | _ => .ok (.text s)

def shownReal : Binary64 → Except Error Value
  | .infinite _ => .error .outOfRange
  | .nan => .error .undefinedNumber
  | x => .ok (x.int?.elim (.real x) .int)

mutual

def shown : Value → Except Error Value
  | .real x => shownReal x
  | .text s => shownText s
  | .list items => do return .list (← shownItems items)
  | .object fields => do return .object (← shownFields fields)
  | v => .ok v

def shownItems : List Value → Except Error (List Value)
  | [] => .ok []
  | v :: vs => do return (← shown v) :: (← shownItems vs)

def shownFields : Fields → Except Error Fields
  | [] => .ok []
  | (k, v) :: rest => do return (k, ← shown v) :: (← shownFields rest)

end

end AccessControl.Value
