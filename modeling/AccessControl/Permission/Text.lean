import AccessControl.Permission.Rule
import AccessControl.Text.Blank

/-!
Rules as text: the wildcard alone, or `entityType:action[:property]`. There is no escape, so a
segment holds no colon; nor is it empty or holds a blank.
-/

namespace AccessControl.Permission

inductive Flaw where
  | notText
  | tooFewSegments
  | tooManySegments
  | emptySegment
  | blankInSegment
deriving DecidableEq

def Flaw.message : Flaw → String
  | .notText => "permission must be a string"
  | .tooFewSegments => "expected entityType:action[:property] or *"
  | .tooManySegments => "too many segments; names cannot contain \x27:\x27"
  | .emptySegment => "empty segment"
  | .blankInSegment => "segments cannot contain whitespace"

def segments : List Char → List (List Char)
  | [] => [[]]
  | c :: rest =>
    if c = ':' then [] :: segments rest
    else match segments rest with
      | [] => [[c]]
      | s :: ss => (c :: s) :: ss

def segmentFlaw? (s : List Char) : Option Flaw :=
  if s.isEmpty then some .emptySegment
  else if s.any Text.isBlank then some .blankInSegment
  else none

def Rule.parse (raw : String) : Except Flaw Rule :=
  if raw = wildcard then .ok .all
  else
    let parts := segments raw.toList
    let checked (r : Rule) : Except Flaw Rule :=
      match parts.findSome? segmentFlaw? with
      | some flaw => .error flaw
      | none => .ok r
    match parts with
    | [] | [_] => .error .tooFewSegments
    | [t, a] => checked ⟨String.ofList t, String.ofList a, wildcard⟩
    | [t, a, p] => checked ⟨String.ofList t, String.ofList a, String.ofList p⟩
    | _ => .error .tooManySegments

def Rule.format (r : Rule) : String :=
  if r = .all then wildcard
  else if r.property = wildcard then r.entityType ++ ":" ++ r.action
  else r.entityType ++ ":" ++ r.action ++ ":" ++ r.property

end AccessControl.Permission
