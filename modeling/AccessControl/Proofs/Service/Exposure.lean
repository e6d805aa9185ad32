import AccessControl.Proofs.Decision.Concord
import AccessControl.Proofs.Decision.Overriding
import AccessControl.Proofs.Service.Protection

/-!
Changes of a service's own tables by the actions of the vocabulary. The protections deny all of these
but two, which are left to the privilege and to the rulesets.
-/

namespace AccessControl

open Program Store

/-- An action of the vocabulary that does more than to read. -/
def Action.isMutation : Action → Bool
  | .record _ | .field .update | .field .setAttributes => true
  | .field .read | .field .readArchive | .field .readVersionHistory | .custom _ => false

theorem Override.pick?_of_not_concerns {r : Request} {os : List Override}
    (h : ∀ o ∈ os, o.concerns r.action r.entityType = false) : pick? r os = .ok none := by
  induction os with
  | nil => rfl
  | cons o os ih =>
    obtain ⟨ho, hos⟩ := List.forall_mem_cons.mp h
    have hverdict : o.verdict r = .ok false := by
      rw [verdict, ho]
      rfl
    rw [pick?, List.findM?, hverdict]
    exact ih hos

namespace Service

/-- The mutations of own types that no protection concerns. -/
def openActions : List Action :=
  [.record .clear, .field .setAttributes]

theorem mem_protectedActions_iff {action : Action} (h : action.isMutation = true) :
    action.name ∈ protectedActions ↔ action ∉ openActions := by
  cases action with
  | record a => cases a <;> decide
  | field a => cases a <;> first | decide | cases h
  | custom name => cases h

/-- A service in use whose application registers no override. What surrounds the service may be
anything whenever something is asked of it. -/
inductive InPlainUse : Service → Prop where
  | setUp {new : Service} {w : World} (hnew : new.policy.overrides = {})
    (h : (take World.answer setUp new w).1 = .ok ()) :
    InPlainUse (take World.answer setUp new w).2.1
  | step {s : Service} (h : InPlainUse s) {x : Step} (hx : ∀ o, x ≠ .override o) (w : World) :
    InPlainUse (take World.answer x.run s w).2.1

namespace InPlainUse

variable {s : Service}

theorem inUse (h : InPlainUse s) : InUse s [] := by
  induction h with
  | setUp hnew h => exact .setUp hnew (Prod.ext h rfl)
  | step h hx w ih => exact ih.step _ w

theorem overrides_eq (h : InPlainUse s) : s.policy.overrides = ⟨protections ownTypes, []⟩ := by
  induction h with
  | setUp hnew h => exact (leads_take leads_setUp hnew (Prod.ext h rfl) rfl).1
  | @step s h x hx w ih =>
    have hkeeps : Keeps (fun p _ => p.overrides = ⟨protections ownTypes, []⟩) x.run :=
      keeps_step (fun _ _ _ h _ => h) fun o ho => absurd ho (hx o)
    exact hkeeps.take ih w

variable {r : Request}

theorem stage_protected (h : InPlainUse s) (ht : r.entityType ∈ ownTypes)
    (ha : r.action ∈ protectedActions) :
    s.policy.stage r = .ok (some (.block (protection r.entityType r.action))) := by
  rw [Policy.stage, h.inUse.isProtected.1.pick? ht ha]
  rfl

theorem stage_open (h : InPlainUse s) (ha : r.action ∉ protectedActions) :
    s.policy.stage r =
      (s.policy.privilege r.account).map fun b => if b then some .admin else none := by
  have hconcerns : ∀ o ∈ protections ownTypes, o.concerns r.action r.entityType = false := by
    have hactions : ∀ action ∈ protectedActions, action ≠ wildcard := by decide
    intro o ho
    obtain ⟨t, -, ho⟩ := List.mem_flatMap.1 ho
    obtain ⟨action, haction, rfl⟩ := List.mem_map.1 ho
    have hne : action ≠ r.action := fun heq => ha (heq ▸ haction)
    simp [Override.concerns, protection, Permission.fits, hactions action haction, hne]
  rw [Policy.stage, h.overrides_eq, Override.pick?_of_not_concerns hconcerns]
  rcases s.policy.privilege r.account with e | _ | _ <;> rfl

theorem fixed_denied (h : InPlainUse s) {account : Option Account} {records : List Record}
    (ht : ∀ record ∈ records, record.entityType ∈ ownTypes) {action : Action}
    (ha : action.name ∈ protectedActions) {q : Evaluation}
    (hq : q.cases s.filter = .ok (records.map (Case.access account action))) (u : Snapshot) :
    Fixed Effect.isQuiet (q.ask s.filter) (.ok (q.answer s.filter u
      (records.map fun record => .block (protection record.entityType action.name)))) := by
  have hstage : ∀ record ∈ records,
      s.policy.stage (Authority.recordRequest account record action.name) =
        .ok (some (.block (protection record.entityType action.name))) :=
    fun record hrecord => h.stage_protected (ht record hrecord) ha
  have hrulings : (records.map (Case.access account action)).mapM
        (Case.ruling s.filter.authority.policy u) =
      .ok (records.map fun record => .block (protection record.entityType action.name)) := by
    rw [Outcome.mapM_eq_ok_iff, List.forall₂_map_left_iff, List.forall₂_map_right_iff,
      List.forall₂_same]
    exact fun record hrecord => Policy.ruling_of_stage (hstage record hrecord)
  have htold : (q.told s.filter u).map Prod.fst = .ok (q.answer s.filter u
      (records.map fun record => .block (protection record.entityType action.name))) := by
    rw [Evaluation.fst_told hq, hrulings]
    rfl
  rw [← htold]
  refine Evaluation.comes_ask compositional_fixed fun cs hcs c hc hopen => ?_
  obtain rfl := Except.ok.inj (hq.symm.trans hcs)
  obtain ⟨record, hrecord, rfl⟩ := List.mem_map.1 hc
  exact absurd ((hstage record hrecord).symm.trans hopen) (by simp)

theorem run_open (h : InPlainUse s) {account : Option Account} {records : List Record}
    {action : Action} (ha : action.name ∉ protectedActions) {q : Evaluation}
    (hq : q.cases s.filter = .ok (records.map (Case.access account action))) {w : World}
    {u : Snapshot} (hu : ((q.grants s.filter).run w).1 = .ok u) :
    ((q.ask s.filter).run w).1 = (records.mapM fun record => do
      if ← s.policy.privilege account then return Decision.admin
      return Decision.ofVerdict (← u.allows record action.name)).map (q.answer s.filter u) := by
  rw [q.run_ask _ hu, Evaluation.fst_told hq, List.mapM_map]
  refine congrArg (Except.map _) (Outcome.mapM_congr fun record _ => ?_)
  change s.policy.ruling (Authority.recordRequest account record action.name)
    (u.allows record action.name) = _
  rw [Policy.ruling, h.stage_open ha]
  change Except.bind (Except.map _ (s.policy.privilege account)) _ = _
  rcases s.policy.privilege account with e | _ | _ <;> rfl

/-- The changes of own types that can be asked for by the vocabulary, of a service whose application
registers no override. They are all denied, to accounts and to roles alike, whatever the store says;
but the open actions are allowed to whom the privilege or a grant on the record allows them. -/
theorem mutations (h : InPlainUse s) {records : List Record}
    (ht : ∀ record ∈ records, record.entityType ∈ ownTypes) {action : Action}
    (ha : action.isMutation = true) :
    (action ∉ openActions →
      (∀ account, Fixed Effect.isQuiet (s.authority.verdicts account records action)
        (.ok (records.map fun _ => false))) ∧
      ∀ roles, Fixed Effect.isQuiet (s.authority.verdictsOfRoles roles records action)
        (.ok (records.map fun _ => false))) ∧
    (action ∈ openActions → ∀ (w : World) (u : Snapshot),
      (∀ account : Account, ((s.authority.grants.ofAccount account.id).run w).1 = .ok u →
        ((s.authority.verdicts account records action).run w).1 = records.mapM fun record => do
          if ← s.policy.privilege (some account) then return true
          u.allows record action.name) ∧
      ∀ roles, ((s.authority.grants.ofRoles roles).run w).1 = .ok u →
        ((s.authority.verdictsOfRoles roles records action).run w).1 =
          records.mapM fun record => u.allows record action.name) := by
  constructor
  · intro hclosed
    have hprotected := (mem_protectedActions_iff ha).2 hclosed
    constructor
    · intro account
      have hfixed := h.fixed_denied ht hprotected (q := .access account records action) rfl ⟨"", []⟩
      rw [Evaluation.answer, List.map_map] at hfixed
      exact hfixed
    · intro roles
      have hfixed := h.fixed_denied ht hprotected (q := .accessOfRoles roles records action) rfl
        ⟨"", []⟩
      rw [Evaluation.answer, List.map_map] at hfixed
      exact hfixed
  · intro hopen w u
    have hprotected : action.name ∉ protectedActions :=
      fun hmem => (mem_protectedActions_iff ha).1 hmem hopen
    constructor
    · intro account hu
      have hrun := h.run_open hprotected (q := .access account records action) rfl hu
      refine hrun.trans ?_
      change Except.map (List.map Decision.allowed) _ = _
      rw [Outcome.map_mapM]
      refine Outcome.mapM_congr fun record _ => ?_
      rcases s.policy.privilege (some account) with e | _ | _
      · rfl
      · rcases u.allows record action.name with e | _ | _ <;> rfl
      · rfl
    · intro roles hu
      have hrun := h.run_open hprotected (q := .accessOfRoles roles records action) rfl hu
      refine hrun.trans ?_
      change Except.map (List.map Decision.allowed) _ = _
      rw [Outcome.map_mapM]
      refine Outcome.mapM_congr fun record _ => ?_
      rcases u.allows record action.name with e | _ | _ <;> rfl

end InPlainUse

/-! An administrator deletes no role, but clears one. -/

def plain : Service :=
  (take World.answer setUp (bare "permissions" ⟨{}, hasFlag⟩ none none) founding).2.1

theorem inPlainUse_plain : InPlainUse plain := by
  have hset : (take World.answer setUp (bare "permissions" ⟨{}, hasFlag⟩ none none) founding).1 =
      .ok () := by
    decide +kernel
  exact .setUp rfl hset

theorem mutations_of_administrator :
    let root : Account := { id := "root", isAdmin := true }
    let role : Record := ⟨roleType, [], .list []⟩
    ((plain.authority.verdicts root [role] (.record .delete)).run founding).1 = .ok [false] ∧
      ((plain.authority.verdicts root [role] (.record .clear)).run founding).1 = .ok [true] := by
  intro root role
  have ht : ∀ record ∈ [role], record.entityType ∈ ownTypes := by simp [role, ownTypes]
  have hmutations (a : RecordAction) :=
    inPlainUse_plain.mutations ht (show (Action.record a).isMutation = true from rfl)
  obtain ⟨hdenied, -⟩ := hmutations .delete
  obtain ⟨-, hopen⟩ := hmutations .clear
  obtain ⟨hdeletes, -⟩ := hdenied (by decide)
  obtain ⟨hclears, -⟩ := hopen (by decide) founding ⟨"root", []⟩
  have hgrants : ((plain.authority.grants.ofAccount root.id).run founding).1 = .ok ⟨"root", []⟩ := by
    decide +kernel
  have hprivilege : plain.policy.privilege (some root) = .ok true := by decide +kernel
  constructor
  · have hdeleted := hdeletes root
    rw [List.map_cons, List.map_nil] at hdeleted
    exact hdeleted.run founding
  · rw [hclears root hgrants, List.mapM_cons, hprivilege]
    rfl

end Service

end AccessControl
