import AccessControl.Binary64
import AccessControl.Text.Quoted

/-!
Values of no fixed type: the contents of records, the payload of requests, the details of reports.
-/

namespace AccessControl

inductive Value where
  | null
  | bool (b : Bool)
  | int (n : Int)
  | real (x : Binary64)
  | text (s : String)
  | list (items : List Value)
  | object (fields : List (String × Value))

namespace Value

inductive Kind where
  | null
  | bool
  | int
  | real
  | text
  | list
  | object
deriving DecidableEq

def kind : Value → Kind
  | .null => .null
  | .bool _ => .bool
  | .int _ => .int
  | .real _ => .real
  | .text _ => .text
  | .list _ => .list
  | .object _ => .object

abbrev Fields := List (String × Value)

def nat (n : Nat) : Value := .int n

def texts (ss : List String) : Value := .list (ss.map .text)

def ofOption {α : Type} (f : α → Value) : Option α → Value
  | none => .null
  | some a => f a

def text? : Value → Option String
  | .text s => some s
  | _ => none

def int? : Value → Option Int
  | .int n => some n
  | _ => none

def list? : Value → Option (List Value)
  | .list items => some items
  | _ => none

def texts? : Value → Option (List String)
  | .list items => items.mapM text?
  | _ => none

def truthy : Value → Bool
  | .null => false
  | .bool b => b
  | .int n => n != 0
  | .real x => !x.isZero
  | .text s => s != ""
  | .list items => !items.isEmpty
  | .object fields => !fields.isEmpty

def integer? : Value → Option Int
  | .bool b => some (if b then 1 else 0)
  | .int n => some n
  | _ => none

def whole? : Value → Option Int
  | .real x => x.int?
  | v => v.integer?

def number? : Value → Option Binary64
  | .real x => some x
  | v => v.integer?.map .ofInt

def sameNumber (x y : Value) : Bool :=
  match x, y with
  | .real a, .real b => a.same b
  | x, y => x.whole?.isSome && x.whole? == y.whole?

def isNaN : Value → Bool
  | .real x => x = .nan
  | _ => false

mutual

/-- Equality: numbers by what they stand for, objects whatever the order of their fields. What is
not a number equals nothing, but inside lists and objects it is told to be the same. -/
def same : Value → Value → Bool
  | .null, .null => true
  | .text s, .text t => s == t
  | .list xs, .list ys => sameItems xs ys
  | .object xs, .object ys => xs.length == ys.length && sameFields xs ys
  | x, y => sameNumber x y

def sameItems : List Value → List Value → Bool
  | [], [] => true
  | x :: xs, y :: ys => ((x.isNaN && y.isNaN) || same x y) && sameItems xs ys
  | _, _ => false

def sameFields : Fields → Fields → Bool
  | [], _ => true
  | (k, x) :: xs, ys =>
    (match ys.lookup k with
      | some y => (x.isNaN && y.isNaN) || same x y
      | none => false) && sameFields xs ys

end

def sameItem (x y : Value) : Bool := (x.isNaN && y.isNaN) || x.same y

def Fields.valueOf (fields : Fields) (name : String) : Value :=
  (fields.lookup name).getD .null

/-- A field keeps its place when it gets a new value, and stands last when it is new. -/
def Fields.put (name : String) (v : Value) : Fields → Fields
  | [] => [(name, v)]
  | (k, w) :: rest => if k = name then (k, v) :: rest else (k, w) :: put name v rest

def field? (name : String) : Value → Option Value
  | .object fields => fields.lookup name
  | _ => none

end Value

end AccessControl
