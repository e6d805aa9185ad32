import AccessControl.Proofs.Decision.Filtering
import AccessControl.Proofs.Decision.Order

/-!
Capabilities that answer alike, though they may have other rules. Grants of the same rulesets with such
capabilities say the same.
-/

namespace AccessControl

structure Capability.Equivalent (c c' : Capability) : Prop where
  allows : ∀ entityType action property fields,
    c.allows entityType action property fields = c'.allows entityType action property fields
  unlocks : ∀ feature scope, c.unlocks feature scope = c'.unlocks feature scope

namespace Capability

variable {c c' : Capability}

theorem equivalent_refl (c : Capability) : c.Equivalent c :=
  ⟨fun _ _ _ _ => rfl, fun _ _ => rfl⟩

theorem Equivalent.allowsRecord (h : c.Equivalent c') (entityType action : String) :
    c.allowsRecord entityType action = c'.allowsRecord entityType action :=
  h.allows entityType action none none

theorem Equivalent.allowsCreation (h : c.Equivalent c') (entityType : String) :
    c.allowsCreation entityType = c'.allowsCreation entityType :=
  h.allowsRecord entityType RecordAction.create.name

theorem Equivalent.allowsOn (h : c.Equivalent c') (target : String) (record : Record)
    (action : String) : c.allowsOn target record action = c'.allowsOn target record action := by
  simp only [Capability.allowsOn, h.allowsRecord]

end Capability

structure Grant.Equivalent (g g' : Grant) : Prop where
  ruleset : g.ruleset = g'.ruleset
  capability : g.capability.Equivalent g'.capability

theorem Grant.Equivalent.target {g g' : Grant} (h : g.Equivalent g') : g.target = g'.target :=
  congrArg Ruleset.target h.ruleset

namespace Snapshot

def Equivalent (s s' : Snapshot) : Prop := List.Forall₂ Grant.Equivalent s.grants s'.grants

section

variable {α β : Type} {R : α → β → Prop} {xs : List α} {ys : List β} (h : List.Forall₂ R xs ys)

include h

theorem any_of_forall₂ {p : α → Bool} {q : β → Bool} (hpq : ∀ x y, R x y → p x = q y) :
    xs.any p = ys.any q := by
  induction h with
  | nil => rfl
  | cons hxy _ ih => rw [List.any_cons, List.any_cons, hpq _ _ hxy, ih]

theorem anyM_of_forall₂ {ε : Type} {p : α → Except ε Bool} {q : β → Except ε Bool}
    (hpq : ∀ x y, R x y → p x = q y) : xs.anyM p = ys.anyM q := by
  induction h with
  | nil => rfl
  | cons hxy _ ih => rw [List.anyM, List.anyM, hpq _ _ hxy, ih]

end

variable {s s' : Snapshot}

theorem Equivalent.creationTargets (h : s.Equivalent s') (entityType : String) :
    s.creationTargets entityType = s'.creationTargets entityType := by
  have hfilter : List.Forall₂ Grant.Equivalent
      (s.grants.filter fun g => g.capability.allowsCreation entityType)
      (s'.grants.filter fun g => g.capability.allowsCreation entityType) := by
    apply List.rel_filter _ h
    intro g g' hg
    simp only [hg.capability.allowsCreation]
  rw [Snapshot.creationTargets, Snapshot.creationTargets, ← List.forall₂_eq_eq_eq,
    List.forall₂_map_left_iff, List.forall₂_map_right_iff]
  exact hfilter.imp fun _ _ hg => hg.target

theorem Equivalent.visible (h : s.Equivalent s') (f : Filter) (record : Record)
    (action : String) : f.visible s record action = f.visible s' record action := by
  cases htags : record.tags with
  | error e =>
    rw [Filter.visible, Filter.visible, reaching, reaching, htags]
    rfl
  | ok tags =>
    have hlets (name : String) : f.lets s.grants record action tags name =
        f.lets s'.grants record action tags name := by
      rw [Filter.lets, Filter.lets]
      congr 1
      apply any_of_forall₂ h
      intro g g' hg
      simp only [Grant.reaches, hg.target, hg.capability.allows]
    rw [f.visible_eq htags, f.visible_eq htags]
    simp only [hlets]

theorem Equivalent.concurs (h : s.Equivalent s') : s.Concurs s' where
  allows record action := by
    apply anyM_of_forall₂ h
    intro g g' hg
    rw [hg.target, hg.capability.allowsOn]
  mayCreate entityType tags := by
    rw [Snapshot.mayCreate, Snapshot.mayCreate, h.creationTargets]
  visible := h.visible

theorem Equivalent.unlocks (h : s.Equivalent s') (feature scope : Value) :
    s.unlocks feature scope = s'.unlocks feature scope := by
  apply anyM_of_forall₂ h
  intro g g' hg
  exact hg.capability.unlocks feature scope

theorem Equivalent.told_eq (h : s.Equivalent s') (f : Filter) (q : Evaluation) :
    q.told f s = q.told f s' := by
  apply Evaluation.told_eq_of_concurs h.concurs
  cases q with
  | unlocking account feature scope => exact h.unlocks feature scope
  | _ => trivial

end Snapshot

/-! Tables in which an entitlement stands for an equivalent capability. -/

namespace Store.Tables

variable {t u : Tables}

/-- Tables with the same memberships and rulesets, whose entitlements stand for equivalent
capabilities. -/
structure Equivalent (t u : Tables) : Prop where
  reachable : ∀ account, t.reachable account = u.reachable account
  held : ∀ roles, t.rulesetsHeldBy roles = u.rulesetsHeldBy roles
  capability : ∀ name, Option.Rel Capability.Equivalent (t.capability? name) (u.capability? name)

theorem Equivalent.filterMap_grant? (h : t.Equivalent u) (rulesets : List Ruleset) :
    List.Forall₂ Grant.Equivalent (rulesets.filterMap t.grant?) (rulesets.filterMap u.grant?) := by
  apply List.rel_filterMap (R := Eq) _ (List.forall₂_eq_eq_eq ▸ rfl)
  rintro r _ rfl
  have hcapability := h.capability r.entitlement
  rw [grant?, grant?]
  generalize t.capability? r.entitlement = c at hcapability ⊢
  generalize u.capability? r.entitlement = c' at hcapability ⊢
  cases hcapability with
  | none => exact .none
  | some hc => exact .some ⟨rfl, hc⟩

theorem Equivalent.grantsOf (h : t.Equivalent u) (account : String) :
    List.Forall₂ Grant.Equivalent (t.grantsOf account) (u.grantsOf account) := by
  rw [Tables.grantsOf, Tables.grantsOf, ← h.reachable]
  exact h.filterMap_grant? _

theorem Equivalent.grantsOfRoles (h : t.Equivalent u) (roles : List String) :
    List.Forall₂ Grant.Equivalent (t.grantsOfRoles roles) (u.grantsOfRoles roles) := by
  rw [Tables.grantsOfRoles, Tables.grantsOfRoles, ← h.held]
  exact h.filterMap_grant? _

theorem Equivalent.snapshot (h : t.Equivalent u) (q : Evaluation) :
    (q.snapshot t).Equivalent (q.snapshot u) := by
  cases q with
  | accessOfRoles roles => exact h.grantsOfRoles roles
  | creation account | access account | unlocking account | filtering account =>
    exact h.grantsOf account.id

theorem equivalent_putEntitlement (t : Tables) {e e' : Entitlement} (hname : e'.name = e.name)
    {c c' : Capability} (hc : e.capability? = some c) (hc' : e'.capability? = some c')
    (h : c.Equivalent c') :
    (t.after (.putEntitlement e)).Equivalent (t.after (.putEntitlement e')) where
  reachable _ := rfl
  held _ := rfl
  capability name := by
    change Option.Rel _ ((Table.get? (t.entitlements.insert e) name).bind _)
      ((Table.get? (t.entitlements.insert e') name).bind _)
    have hkey : Keyed.key e' = Keyed.key e := hname
    rw [Table.get?_insert, Table.get?_insert, hkey]
    by_cases hn : Keyed.key e = name
    · rw [if_pos hn, if_pos hn, Option.bind_some, Option.bind_some, hc, hc']
      exact .some h
    · rw [if_neg hn, if_neg hn]
      cases (t.entitlements.get? name).bind Entitlement.capability? with
      | none => exact .none
      | some c => exact .some c.equivalent_refl

end Store.Tables

end AccessControl
