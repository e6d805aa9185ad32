import AccessControl.Json.Token

/-!
Values from JSON text. The tokens drive a machine that keeps what it is inside of on a stack. Of two
fields of one name in an object the later one counts.
-/

namespace AccessControl.Json

inductive Frame where
  | items (before : List Value)
  | fields (before : Value.Fields) (key : String)

inductive State where
  | value (stack : List Frame)
  | firstItem (stack : List Frame)
  | firstField (stack : List Frame)
  | field (before : Value.Fields) (stack : List Frame)
  | colon (before : Value.Fields) (key : String) (stack : List Frame)
  | after (v : Value) (stack : List Frame)

def State.start (stack : List Frame) : Token → Option State
  | .null => some (.after .null stack)
  | .bool b => some (.after (.bool b) stack)
  | .int n => some (.after (.int n) stack)
  | .real x => some (.after (.real x) stack)
  | .text s => some (.after (.text s) stack)
  | .openList => some (.firstItem stack)
  | .openObject => some (.firstField stack)
  | _ => none

def State.step : State → Token → Option State
  | .value stack, t => start stack t
  | .firstItem stack, .closeList => some (.after (.list []) stack)
  | .firstItem stack, t => start (.items [] :: stack) t
  | .firstField stack, .closeObject => some (.after (.object []) stack)
  | .firstField stack, .text k => some (.colon [] k stack)
  | .field before stack, .text k => some (.colon before k stack)
  | .colon before k stack, .colon => some (.value (.fields before k :: stack))
  | .after v (.items before :: stack), .comma => some (.value (.items (v :: before) :: stack))
  | .after v (.items before :: stack), .closeList =>
    some (.after (.list (v :: before).reverse) stack)
  | .after v (.fields before k :: stack), .comma => some (.field (before.put k v) stack)
  | .after v (.fields before k :: stack), .closeObject =>
    some (.after (.object (before.put k v)) stack)
  | _, _ => none

def State.finish : State → Option Value
  | .after v [] => some v
  | _ => none

def ofTokens? (ts : List Token) : Option Value :=
  (ts.foldlM State.step (.value [])).bind State.finish

/-- The value that a text stands for; none when it is not JSON. -/
def read? (s : String) : Option Value :=
  (tokens? s.toList).bind ofTokens?

def nesting (depth : Nat) : List Token → Nat
  | [] => depth
  | .openList :: .closeList :: rest => nesting depth rest
  | .openObject :: .closeObject :: rest => nesting depth rest
  | .openList :: rest => max depth (nesting (depth + 1) rest)
  | .openObject :: rest => max depth (nesting (depth + 1) rest)
  | .closeList :: rest => max depth (nesting (depth - 1) rest)
  | .closeObject :: rest => max depth (nesting (depth - 1) rest)
  | _ :: rest => nesting depth rest

/-- Refuses numbers whose whole part has more than `size` digits, and nesting that is deeper
than `depth`. -/
def readWithin? (size depth : Nat) (s : String) : Option Value := do
  let ts ← tokensBy? (fun w => if wholeSize w ≤ size then word? w else none) s.toList
  if nesting 0 ts ≤ depth then ofTokens? ts else none

end AccessControl.Json
