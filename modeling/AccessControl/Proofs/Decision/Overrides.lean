import AccessControl.Decision
import AccessControl.Proofs.Outcome
import AccessControl.Proofs.Program.Outcomes

/-!
Which override applies to a request. Predicates may give their turn away; what they say does not
depend on it.
-/

namespace AccessControl

open Program

theorem Predicate.waits_test (p : Predicate) (f : Facts) : Waits (p.test f) (p.holds f) := by
  rw [Predicate.test]
  cases p.pauses with
  | true => exact .pause (waits_ofExcept _)
  | false => exact waits_ofExcept _

namespace Override

/-- Whether an override is keyed on a request and applies to it. -/
def verdict (o : Override) (r : Request) : Except Error Bool :=
  if o.concerns r.action r.entityType then
    match o.kind.facts? r with
    | none => .ok false
    | some facts => do
      if ← o.condition.holds facts then return !(← o.exceptions.anyM (·.holds r.facts))
      return false
  else .ok false

theorem waits_anyHolds (f : Facts) (ps : List Predicate) :
    Waits (anyHolds f ps) (ps.anyM (·.holds f)) := by
  induction ps with
  | nil => exact .done false
  | cons p ps ih =>
    rw [anyHolds, List.anyM]
    refine (p.waits_test f).bind fun b => ?_
    cases b with
    | true => exact .done true
    | false => exact ih

theorem waits_applies {o : Override} {r : Request}
    (h : o.concerns r.action r.entityType = true) : Waits (o.applies r) (o.verdict r) := by
  rw [applies, verdict, if_pos h]
  cases o.kind.facts? r with
  | none => exact .done false
  | some facts =>
    refine (o.condition.waits_test facts).bind fun b => ?_
    cases b with
    | true => exact (waits_anyHolds r.facts o.exceptions).bind fun b => .done !b
    | false => exact .done false

def pick? (r : Request) (os : List Override) : Except Error (Option Override) :=
  os.findM? (·.verdict r)

theorem waits_first? (r : Request) (os : List Override) : Waits (first? r os) (pick? r os) := by
  induction os with
  | nil => exact .done none
  | cons o os ih =>
    rw [first?, pick?, List.findM?]
    by_cases h : o.concerns r.action r.entityType = true
    · rw [if_pos h]
      refine (waits_applies h).bind fun b => ?_
      cases b with
      | true => exact .done (some o)
      | false => exact ih
    · rw [if_neg h, verdict, if_neg h]
      exact ih

theorem first?_append {o : Override} {r : Request} (h : o.verdict r = .ok true)
    (front back : List Override) :
    first? r (front ++ o :: back) = first? r (front ++ [o]) := by
  have hc : o.concerns r.action r.entityType = true := by
    by_contra hc
    rw [verdict, if_neg hc] at h
    cases h
  induction front with
  | nil =>
    rw [List.nil_append, List.nil_append, first?, first?, if_pos hc, if_pos hc]
    refine (waits_applies hc).returns.bind_congr fun b hb => ?_
    rw [h] at hb
    cases hb
    rfl
  | cons x front ih =>
    rw [List.cons_append, List.cons_append, first?, first?, ih]

end Override

/-! Predicates that do not fail. -/

namespace Predicate

def accepts (p : Predicate) (f : Facts) : Bool :=
  match p.holds f with
  | .ok b => b
  | .error _ => false

def IsTotal (p : Predicate) : Prop :=
  ∀ f, p.holds f = .ok (p.accepts f)

theorem anyM_holds {ps : List Predicate} (h : ∀ p ∈ ps, p.IsTotal) (f : Facts) :
    ps.anyM (·.holds f) = .ok (ps.any (·.accepts f)) := by
  induction ps with
  | nil => rfl
  | cons p ps ih =>
    rw [List.anyM, h p List.mem_cons_self f, List.any_cons,
      ih fun q hq => h q (List.mem_cons_of_mem _ hq)]
    cases p.accepts f <;> rfl

end Predicate

namespace Override

def IsTotal (o : Override) : Prop :=
  o.condition.IsTotal ∧ ∀ p ∈ o.exceptions, p.IsTotal

/-- An override takes a request: it is keyed on the request, its condition holds, and none of its
exceptions does. A condition that looks at an account does not hold when there is none. -/
def takes (o : Override) (r : Request) : Bool :=
  o.concerns r.action r.entityType &&
    match o.kind.facts? r with
    | none => false
    | some facts => o.condition.accepts facts && !o.exceptions.any (·.accepts r.facts)

theorem verdict_eq {o : Override} (h : o.IsTotal) (r : Request) :
    o.verdict r = .ok (o.takes r) := by
  rw [verdict, takes]
  cases o.concerns r.action r.entityType with
  | false => rfl
  | true =>
    rw [if_pos rfl]
    cases o.kind.facts? r with
    | none => rfl
    | some facts =>
      simp only [h.1 facts, Predicate.anyM_holds h.2]
      cases o.condition.accepts facts <;> rfl

theorem pick?_eq {os : List Override} (h : ∀ o ∈ os, o.IsTotal) (r : Request) :
    pick? r os = .ok (os.find? (·.takes r)) := by
  induction os with
  | nil => rfl
  | cons o os ih =>
    have ih := ih fun p hp => h p (List.mem_cons_of_mem _ hp)
    rw [pick?] at ih
    rw [pick?, List.findM?, verdict_eq (h o List.mem_cons_self), List.find?_cons, ih]
    cases o.takes r <;> rfl

end Override

end AccessControl
