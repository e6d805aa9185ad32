import AccessControl.Json.Token

/-!
Values as JSON text, without blanks.
-/

namespace AccessControl.Json

mutual

def tokens : Value → List Token
  | .null => [.null]
  | .bool b => [.bool b]
  | .int n => [.int n]
  | .real x => [.real x]
  | .text s => [.text s]
  | .list [] => [.openList, .closeList]
  | .list (v :: vs) => .openList :: tokens v ++ restTokens vs ++ [.closeList]
  | .object [] => [.openObject, .closeObject]
  | .object ((k, v) :: fs) =>
    .openObject :: .text k :: .colon :: tokens v ++ restFieldTokens fs ++ [.closeObject]

def restTokens : List Value → List Token
  | [] => []
  | v :: vs => .comma :: tokens v ++ restTokens vs

def restFieldTokens : Value.Fields → List Token
  | [] => []
  | (k, v) :: fs => .comma :: .text k :: .colon :: tokens v ++ restFieldTokens fs

end

def print (v : Value) : String :=
  String.ofList ((tokens v).flatMap Token.chars)

end AccessControl.Json
