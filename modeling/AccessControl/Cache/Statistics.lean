import AccessControl.Value

/-!
What a cache counts of its own use.
-/

namespace AccessControl.Cache

inductive Tally where
  | hit
  | miss
  | set
  | invalidation
deriving DecidableEq

structure Statistics where
  hits : Nat := 0
  misses : Nat := 0
  sets : Nat := 0
  invalidations : Nat := 0
deriving DecidableEq

def sixPlaces (numerator denominator : Nat) : String :=
  let units := Binary64.rounded (numerator * Binary64.one) denominator
  let n := Binary64.nearest (units * 1000000) Binary64.one
  let decimals := (toString (n % 1000000)).toList
  toString (n / 1000000) ++ "." ++
    String.ofList (List.replicate (6 - decimals.length) '0' ++ decimals)

namespace Statistics

def add (s : Statistics) : Tally → Statistics
  | .hit => { s with hits := s.hits + 1 }
  | .miss => { s with misses := s.misses + 1 }
  | .set => { s with sets := s.sets + 1 }
  | .invalidation => { s with invalidations := s.invalidations + 1 }

def hitRate (s : Statistics) : Nat × Nat :=
  if s.hits + s.misses = 0 then (0, 1) else (s.hits, s.hits + s.misses)

def fields (s : Statistics) : Value.Fields :=
  [("hits", .nat s.hits), ("misses", .nat s.misses), ("sets", .nat s.sets),
   ("invalidations", .nat s.invalidations),
   ("hit_rate", .text (sixPlaces s.hitRate.1 s.hitRate.2))]

end Statistics

end AccessControl.Cache
