import AccessControl.Pipe.Turns
import AccessControl.Proofs.Program.Pausing
import Mathlib.Algebra.GroupWithZero.Nat

/-!
How often the parts of a call pause: a decision once for each predicate at most, a resolution while
the privilege and the rulesets are found out.
-/

namespace AccessControl

open Program

variable {α : Type}

def Override.weight (os : List Override) : Nat :=
  (os.map fun o => o.exceptions.length + 1).sum

theorem Overrides.predicates_eq (os : Overrides) :
    os.predicates = Override.weight os.blocks + Override.weight os.bypasses := by
  have hfold (os : List Override) (n : Nat) :
      os.foldl (fun n o => n + 1 + o.exceptions.length) n = n + Override.weight os := by
    induction os generalizing n with
    | nil => rfl
    | cons o os ih =>
      rw [List.foldl_cons, ih, Override.weight, Override.weight, List.map_cons, List.sum_cons]
      omega
  rw [predicates, hfold, Override.weight, List.map_append, List.sum_append, Nat.zero_add]
  rfl

theorem Predicate.pauses_test (p : Predicate) (facts : Facts) : Pauses 1 (p.test facts) := by
  rw [Predicate.test]
  cases p.pauses with
  | true => exact .pause (pauses_ofExcept _)
  | false => exact (pauses_ofExcept _).mono (Nat.zero_le 1)

namespace Override

theorem pauses_anyHolds (facts : Facts) (ps : List Predicate) :
    Pauses ps.length (anyHolds facts ps) := by
  induction ps with
  | nil => exact .done false
  | cons p ps ih =>
    rw [List.length_cons, Nat.add_comm]
    refine (p.pauses_test facts).bind fun b => ?_
    cases b with
    | true => exact .done true
    | false => exact ih

theorem pauses_applies (o : Override) (r : Request) :
    Pauses (o.exceptions.length + 1) (o.applies r) := by
  rw [applies]
  cases o.kind.facts? r with
  | none => exact .done false
  | some facts =>
    rw [Nat.add_comm]
    refine (o.condition.pauses_test facts).bind fun b => ?_
    cases b with
    | true => exact (pauses_anyHolds r.facts o.exceptions).bind (n := 0) fun b => .done !b
    | false => exact .done false

theorem pauses_first? (r : Request) (os : List Override) : Pauses (weight os) (first? r os) := by
  induction os with
  | nil => exact .done none
  | cons o os ih =>
    rw [first?, weight, List.map_cons, List.sum_cons]
    by_cases h : o.concerns r.action r.entityType = true
    · rw [if_pos h]
      refine (pauses_applies o r).bind fun b => ?_
      cases b with
      | true => exact .done (some o)
      | false => exact ih
    · rw [if_neg h]
      exact ih.mono (Nat.le_add_left ..)

end Override

namespace Policy

theorem pauses_find? (os : List Override) (r : Request) :
    Pauses (Override.weight os) (find? os r) := by
  refine (Override.pauses_first? r os).bind (n := 0) fun o => ?_
  cases o with
  | none => exact .done none
  | some o => exact pauses_log.then fun _ => .done (some o)

theorem pauses_counted (entryPoint : String) (d : Decision) : Pauses 0 (counted entryPoint d) :=
  (pauses_perform (by simp)).then fun _ => .done d

theorem pauses_blocked? (p : Policy) (entryPoint : String) (r : Request) :
    Pauses (Override.weight p.overrides.blocks) (p.blocked? entryPoint r) := by
  refine (pauses_find? _ r).bind (n := 0) fun o => ?_
  cases o with
  | none => exact .done none
  | some o => exact (pauses_counted entryPoint (.block o)).then fun d => .done (some d)

theorem pauses_bypassed? (p : Policy) (entryPoint : String) (r : Request) :
    Pauses (Override.weight p.overrides.bypasses) (p.bypassed? entryPoint r) := by
  refine (pauses_find? _ r).bind (n := 0) fun o => ?_
  cases o with
  | none => exact .done none
  | some o => exact (pauses_counted entryPoint (.bypass o)).then fun d => .done (some d)

theorem pauses_admits (p : Policy) (account : Option Account) : Pauses 1 (p.admits account) := by
  cases account with
  | none => exact .done false
  | some a => exact p.isAdmin.pauses_test _

end Policy

namespace GrantCache

theorem pauses_understood {message key : String} {fields : Value.Fields}
    {read? : Instant → String → Option α} : Pauses 0 (understood message fields read? key) := by
  have htally (tally : Cache.Tally) (a : Option α) : Pauses 0 (do
      perform (.tally tally)
      return a) :=
    (pauses_perform (by simp)).then fun _ => .done a
  have hmissed : Pauses 0 (understood.missed (α := α) message fields) :=
    pauses_log.then fun _ => htally .miss none
  refine (pauses_perform (by simp)).then fun x => ?_
  rcases x with e | _ | text
  · exact hmissed
  · exact htally .miss none
  · refine (pauses_perform (by simp)).then fun now => ?_
    cases read? now text with
    | none => exact hmissed
    | some a => exact htally .hit (some a)

theorem pauses_succeeded {c : Cache.Command} {tally : Cache.Tally} {message : String}
    {fields : Value.Fields} : Pauses 0 (succeeded c tally message fields) := by
  refine (pauses_perform (by simp)).then fun x => ?_
  cases x with
  | error e => exact pauses_log.then fun _ => .done false
  | ok r => exact (pauses_perform (by simp)).then fun _ => .done true

end GrantCache

namespace Grants

theorem pauses_storedRulesets (account : String) : Pauses 3 (storedRulesets account) :=
  (((pauses_call _).both (pauses_call _)).storing _ _).bind (n := 0) fun (_, _) => .done _

theorem pauses_rulesets (grants : Grants) (account : String) :
    Pauses 3 (grants.rulesets account) := by
  have hcounted (source : String) (rows : Rulesets) : Pauses 0 (do
      perform (.count (Counters.resolution source))
      return rows) :=
    (pauses_perform (by simp)).then fun _ => .done rows
  rw [rulesets]
  cases grants.cache with
  | none => exact (pauses_storedRulesets account).bind fun rows => hcounted "store" rows
  | some cache =>
    refine GrantCache.pauses_understood.then fun a => ?_
    cases a with
    | some rows => exact (hcounted "cache" rows).mono (Nat.zero_le 3)
    | none =>
      refine (pauses_storedRulesets account).bind (n := 0) fun rows => ?_
      exact GrantCache.pauses_succeeded.then fun _ => hcounted "store" rows

theorem pauses_index (grants : Grants) : Pauses 0 grants.index := by
  have hstored : Pauses 0 (storing logger "all_entitlements" (call .entitlements)) :=
    (pauses_call _).storing _ _
  have hentitlements : Pauses 0 grants.entitlements := by
    rw [entitlements]
    cases grants.cache with
    | none => exact hstored
    | some cache =>
      refine GrantCache.pauses_understood.then fun a => ?_
      cases a with
      | some rows => exact .done rows
      | none => exact hstored.then fun rows => GrantCache.pauses_succeeded.then fun _ => .done rows
  refine hentitlements.then fun rows => ?_
  refine (pauses_forM fun e => ?_).then fun _ => .done _
  rw [warnMalformed]
  split
  · exact .done ()
  · exact pauses_log

theorem pauses_assemble (subject : String) (rulesets : List Ruleset) (index : CapabilityIndex) :
    Pauses 0 (assemble subject rulesets index) := by
  refine (pauses_forM fun r => ?_).then fun _ => .done _
  rw [warnDangling]
  split
  · exact .done ()
  · exact pauses_log

theorem pauses_ofAccount (grants : Grants) (account : String) :
    Pauses 3 (grants.ofAccount account) := by
  have hsnapshot : Pauses 3 (grants.snapshot account) := by
    refine (pauses_rulesets grants account).bind (n := 0) fun rows => ?_
    split
    · exact .done _
    · exact (pauses_index grants).then fun index => pauses_assemble account rows.toList index
  refine hsnapshot.attempt.bind (n := 0) fun outcome => ?_
  exact (pauses_perform (by simp)).then fun _ => pauses_ofExcept outcome

end Grants

namespace Pipe

variable (f : Filter) (p : Pipe) (record : Record)

theorem pauses_blocked? :
    Pauses (Override.weight f.authority.policy.overrides.blocks) (p.blocked? f record) := by
  refine (pauses_ofExcept _).then fun _ => ?_
  exact (Policy.pauses_blocked? _ _ _).bind (n := 0) fun d => .done _

theorem pauses_standing : Pauses 4 (p.standing f) := by
  refine (Policy.pauses_admits _ _).bind (n := 3) fun a => ?_
  cases a with
  | true => exact .done _
  | false => exact (Grants.pauses_ofAccount _ _).bind (n := 0) fun s => .done _

theorem pauses_conclude (ending : Ending Standing) :
    Pauses (Override.weight f.authority.policy.overrides.bypasses) (p.conclude f record ending) := by
  refine (pauses_ofExcept _).then fun standing => Pauses.bind (n := 0) ?_ fun visible => ?_
  · cases standing with
    | admin =>
      refine Pauses.mono (m := 0) ?_ (Nat.zero_le _)
      exact (Policy.pauses_counted _ _).then fun d => .done _
    | grants s =>
      refine (Policy.pauses_bypassed? _ _ _).bind (n := 0) fun d => ?_
      cases d with
      | some d => exact .done _
      | none =>
        refine (pauses_ofExcept _).then fun visible => ?_
        exact (Policy.pauses_counted _ _).then fun _ => .done visible
  · refine Pauses.then ?_ fun _ => .done visible
    unfold announce
    split
    · refine (pauses_perform (by simp)).then fun _ => ?_
      split
      · exact .fail _
      · exact .done ()
    · exact .done ()


end Pipe

end AccessControl
