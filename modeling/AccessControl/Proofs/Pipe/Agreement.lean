import AccessControl.Proofs.Decision.Overriding

/-!
A pipe and a batch agree: they look at blocks, the privilege, bypasses and grants in different
orders, and show the same of a record.
-/

namespace AccessControl

open Program

namespace Policy

theorem stage_eq {p : Policy} {r : Request} {b : Bool} (h : p.privilege r.account = .ok b) :
    p.stage r = Override.pick? r p.overrides.blocks >>= fun o => o.elim
      (if b then .ok (some .admin)
        else (Override.pick? r p.overrides.bypasses).map fun o => o.map .bypass)
      fun o => .ok (some (.block o)) := by
  rw [stage]
  rcases Override.pick? r p.overrides.blocks with e | _ | o
  · rfl
  · rw [h]
    cases b with
    | true => rfl
    | false => cases Override.pick? r p.overrides.bypasses <;> rfl
  · rfl

end Policy

namespace Pipe

variable {f : Filter} {start : Pipe} {x : Standing}

def visible (f : Filter) (p : Pipe) (record : Record) (standing : Standing) :
    Except Error Value.Fields := do
  match ← p.blockedFields f record with
  | some visible => return visible
  | none => p.shownFields f record standing

theorem blockedFields_eq_some {p : Pipe} {record : Record} {visible : Value.Fields}
    (h : p.blockedFields f record = .ok (some visible)) : visible = [] := by
  rw [blockedFields] at h
  cases hknown : f.entities.require record.entityType with
  | error e =>
    rw [hknown] at h
    cases h
  | ok entity =>
    rw [hknown] at h
    rcases hpick : Override.pick? (p.request record) f.authority.policy.overrides.blocks with
      e | _ | o
    all_goals
      rw [hpick] at h
      cases h
    rfl

theorem fields_eq (p : Pipe) (record : Record) (standing : Standing) :
    p.fields f record (.ok standing) = do
      let visible ← p.visible f record standing
      p.announced visible
      return visible := by
  rw [fields, visible]
  cases hblocked : p.blockedFields f record with
  | error e => rfl
  | ok shown =>
    cases shown with
    | none => rfl
    | some visible =>
      obtain rfl := blockedFields_eq_some hblocked
      have hannounced : p.announced [] = .ok () := by
        rw [announced.eq_def]
        cases p.listener <;> rfl
      change _ = (p.announced [] >>= fun _ => pure [])
      rw [hannounced]
      rfl

theorem standing_cases {w : World} (h : ((start.standing f).run w).1 = .ok x) :
    (f.authority.policy.privilege (some start.account) = .ok true ∧ x = .admin) ∨
      f.authority.policy.privilege (some start.account) = .ok false ∧ ∃ s, x = .grants s ∧
        ((f.authority.grants.ofAccount start.account.id).run w).1 = .ok s := by
  rw [standing, run_bind, (f.authority.policy.waits_admits (some start.account)).run] at h
  rcases hp : f.authority.policy.privilege (some start.account) with e | _ | _
  · rw [hp] at h
    cases h
  · rw [hp] at h
    refine .inr ⟨rfl, ?_⟩
    change ((f.authority.grants.ofAccount start.account.id >>= fun s =>
      pure (Standing.grants s)).run w).1 = .ok x at h
    rw [run_bind] at h
    rcases hs : (f.authority.grants.ofAccount start.account.id).run w with ⟨e | s, v⟩
    · rw [hs] at h
      cases h
    · rw [hs] at h
      exact ⟨s, (Except.ok.inj h).symm, rfl⟩
  · rw [hp] at h
    exact .inl ⟨rfl, (Except.ok.inj h).symm⟩

theorem visible_eq {s : Snapshot} (p : Pipe) (record : Record)
    (hx : (f.authority.policy.privilege (some p.account) = .ok true ∧ x = .admin) ∨
      f.authority.policy.privilege (some p.account) = .ok false ∧ x = .grants s) :
    p.visible f record x = do
      let _ ← f.entities.require record.entityType
      let d ← f.authority.policy.ruling (p.request record)
        ((f.visible s record p.action).map (!·.isEmpty))
      return Evaluation.shown f s p.action record d := by
  have hshown {d : Decision} (h : f.authority.policy.stage (p.request record) = .ok (some d)) :
      (f.authority.policy.ruling (p.request record)
        ((f.visible s record p.action).map (!·.isEmpty)) >>= fun d =>
          pure (Evaluation.shown f s p.action record d)) = .ok (Filter.whole record d) := by
    rw [Policy.ruling, h]
    exact congrArg Except.ok (Evaluation.shown_of_stage h)
  rw [visible, blockedFields]
  cases f.entities.require record.entityType with
  | error e => rfl
  | ok entity =>
    obtain ⟨b, hb⟩ : ∃ b, f.authority.policy.privilege (p.request record).account = .ok b := by
      rcases hx with ⟨h, -⟩ | ⟨h, -⟩ <;> exact ⟨_, h⟩
    have hstage := Policy.stage_eq hb
    -- the pipe has the grants before it looks at bypasses, so the cases follow the decision
    rcases hblocks : Override.pick? (p.request record) f.authority.policy.overrides.blocks with
      e | _ | o
    · rw [hblocks] at hstage
      change _ = f.authority.policy.ruling _ _ >>= _
      rw [Policy.ruling, hstage]
      rfl
    · rw [hblocks] at hstage
      change p.shownFields f record x = f.authority.policy.ruling _ _ >>= _
      rcases hx with ⟨h, rfl⟩ | ⟨h, rfl⟩
      · obtain rfl : b = true := Except.ok.inj (hb.symm.trans h)
        exact (hshown hstage).symm
      · obtain rfl : b = false := Except.ok.inj (hb.symm.trans h)
        rw [shownFields]
        rcases hbypasses : Override.pick? (p.request record)
          f.authority.policy.overrides.bypasses with e | _ | o
        · rw [hbypasses] at hstage
          rw [Policy.ruling, hstage]
          rfl
        · rw [hbypasses] at hstage
          rw [Policy.ruling, hstage]
          change f.visible s record p.action = _
          cases hv : f.visible s record p.action with
          | error e => rfl
          | ok fields => exact congrArg Except.ok (Evaluation.shown_ofVerdict hv _).symm
        · rw [hbypasses] at hstage
          exact (hshown hstage).symm
    · rw [hblocks] at hstage
      exact (hshown hstage).symm

theorem cases_filtering (f : Filter) (account : Account) (record : Record) (action : Action) :
    (Evaluation.filtering account [record] action).cases f = do
      let _ ← f.entities.require record.entityType
      return [.filtering f account action record] := by
  rw [Evaluation.cases, List.forM]
  cases f.entities.require record.entityType <;> rfl

theorem told_filtering (f : Filter) (s : Snapshot) (account : Account) (record : Record)
    (action : Action) :
    ((Evaluation.filtering account [record] action).told f s).map Prod.fst =
      (do
        let _ ← f.entities.require record.entityType
        let d ← f.authority.policy.ruling (Authority.recordRequest account record action.name)
          ((f.visible s record action.name).map (!·.isEmpty))
        return Evaluation.shown f s action.name record d : Except Error _).map fun fields =>
          [fields] := by
  have hcases := cases_filtering f account record action
  cases hknown : f.entities.require record.entityType with
  | error e =>
    rw [hknown] at hcases
    rw [Evaluation.told, hcases]
    rfl
  | ok entity =>
    rw [hknown] at hcases
    rw [Evaluation.told_one hcases]
    change _ = (f.authority.policy.ruling _ _ >>= _).map _
    change ((f.authority.policy.ruling (Authority.recordRequest account record action.name)
      ((f.visible s record action.name).map (!·.isEmpty))).map _).map _ = _
    cases f.authority.policy.ruling (Authority.recordRequest account record action.name)
      ((f.visible s record action.name).map (!·.isEmpty)) <;> rfl

theorem run_batch {action : Action} (haction : start.action = action.name) {w : World}
    (h : ((start.standing f).run w).1 = .ok x) (record : Record) :
    ((f.batch start.account [record] action).run w).1 =
      (start.visible f record x).map fun fields => [fields] := by
  have htold (s : Snapshot) := told_filtering f s start.account record action
  rcases standing_cases h with ⟨hp, hx⟩ | ⟨hp, s, hx, hs⟩
  · rw [visible_eq (s := ⟨start.account.id, []⟩) start record (.inl ⟨hp, hx⟩), request, haction,
      ← htold]
    refine (Evaluation.fixed_ask (q := .filtering start.account [record] action)
      (fun cs hcs c hc => ?_) _).run w
    rw [cases_filtering] at hcs
    cases hknown : f.entities.require record.entityType with
    | error e =>
      rw [hknown] at hcs
      cases hcs
    | ok entity =>
      rw [hknown] at hcs
      obtain rfl := Except.ok.inj hcs
      obtain rfl := List.mem_singleton.1 hc
      exact .admin hp
  · rw [visible_eq start record (.inr ⟨hp, hx⟩), request, haction, ← htold]
    exact Evaluation.run_ask f (.filtering start.account [record] action) hs

end Pipe

end AccessControl
