import AccessControl.Proofs.Decision.Evaluations
import AccessControl.Proofs.Grant.Order

/-!
The order of grants and evaluations: snapshots with the same grants, in whatever order, have the same
answers.
-/

namespace AccessControl

open Outcome

variable {f : Filter} {s s' : Snapshot}

theorem Policy.consistent_ruling (p : Policy) (r : Request) {x y : Except Error Bool}
    (h : Consistent x y) : Consistent (p.ruling r x) (p.ruling r y) := by
  rw [ruling, ruling]
  cases p.stage r with
  | error e => exact .of_eq rfl
  | ok d =>
    cases d with
    | some d => exact .of_eq rfl
    | none => exact h.map Decision.ofVerdict

namespace Evaluation

/-- A scope that is asked for can be the member of a set, as a text can. -/
def IsScoped : Evaluation → Prop
  | .unlocking _ _ scope => scope.member.isOk = true
  | _ => True

def UnlocksAlike (s s' : Snapshot) : Evaluation → Prop
  | .unlocking _ feature scope => s.unlocks feature scope = s'.unlocks feature scope
  | _ => True

theorem ruling_eq_of_concurs (h : s.Concurs s') {q : Evaluation} (hq : q.UnlocksAlike s s')
    {cs : List Case} (hcs : q.cases f = .ok cs) {c : Case} (hc : c ∈ cs) :
    c.ruling f.authority.policy s = c.ruling f.authority.policy s' := by
  suffices hverdict : c.verdict s = c.verdict s' by
    rw [Case.ruling, Case.ruling, hverdict]
  cases q with
  | creation account entityType attributes =>
    obtain ⟨tags, -, hcs⟩ := bind_eq_ok_iff.1 hcs
    obtain rfl := Except.ok.inj hcs
    obtain rfl := List.mem_singleton.1 hc
    exact h.mayCreate entityType tags
  | access account records action =>
    obtain rfl := Except.ok.inj hcs
    obtain ⟨record, -, rfl⟩ := List.mem_map.1 hc
    exact h.allows record action.name
  | accessOfRoles roles records action =>
    obtain rfl := Except.ok.inj hcs
    obtain ⟨record, -, rfl⟩ := List.mem_map.1 hc
    exact h.allows record action.name
  | unlocking account feature scope =>
    obtain rfl := Except.ok.inj hcs
    obtain rfl := List.mem_singleton.1 hc
    exact hq
  | filtering account records action =>
    obtain ⟨_, -, hcs⟩ := bind_eq_ok_iff.1 hcs
    obtain rfl := Except.ok.inj hcs
    obtain ⟨record, -, rfl⟩ := List.mem_map.1 hc
    exact congrArg (Except.map _) (h.visible f record action.name)

theorem answer_eq_of_concurs (h : s.Concurs s') (q : Evaluation) (ds : List Decision) :
    q.answer f s ds = q.answer f s' ds := by
  cases q with
  | filtering account records action =>
    have hshown : shown f s action.name = shown f s' action.name := by
      funext record d
      rw [shown, shown, h.visible]
    rw [answer, answer, hshown]
  | _ => rfl

theorem told_eq_of_concurs (h : s.Concurs s') {q : Evaluation} (hq : q.UnlocksAlike s s') :
    q.told f s = q.told f s' := by
  cases hcs : q.cases f with
  | error e => rw [told_of_error hcs, told_of_error hcs]
  | ok cs =>
    have hrulings : cs.mapM (Case.ruling f.authority.policy s) =
        cs.mapM (Case.ruling f.authority.policy s') :=
      mapM_congr fun c hc => ruling_eq_of_concurs h hq hcs hc
    rw [told_eq hcs, told_eq hcs, hrulings]
    simp only [answer_eq_of_concurs h]

/-- Neither the answer nor what is told on the way to it depends on the order of the grants. -/
theorem told_eq_of_matches (h : s.Matches s') {q : Evaluation} (hq : q.IsScoped) :
    q.told f s = q.told f s' := by
  apply told_eq_of_concurs h.concurs
  cases q with
  | unlocking account feature scope => exact h.unlocks feature hq
  | _ => trivial

theorem consistent_told (h : s.Matches s') (q : Evaluation) :
    Consistent (q.told f s) (q.told f s') := by
  cases q with
  | unlocking account feature scope =>
    have hq : (unlocking account feature scope).cases f = .ok [.unlocking account feature scope] :=
      rfl
    rw [told_one hq, told_one hq]
    exact (Policy.consistent_ruling _ _ (h.consistent_unlocks feature scope)).map _
  | _ => exact .of_eq (told_eq_of_matches h trivial)

end Evaluation

end AccessControl
