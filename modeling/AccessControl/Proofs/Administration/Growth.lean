import AccessControl.Proofs.Decision.Growth
import AccessControl.Proofs.Decision.Unions

/-!
Operations that only add rows, and operations that only remove some. An account has more grants for the
first, and fewer for the second. The row that a grant adds is new and stands last, so that revoking the
grant leaves the tables as they were.
-/

namespace AccessControl

open Keyed (key)
open Program Store

namespace Table

variable {ρ : Type} [Keyed ρ] {t : Table ρ} {row : ρ} (h : ∀ r ∈ t.rows, key r ≠ key row)

include h

theorem subset_insert_new : t.rows ⊆ (t.insert row).rows := by
  rw [insert_new h]
  exact List.subset_append_left _ _

theorem erase_insert_new : (t.insert row).erase (key row) = t := by
  refine ext_rows ?_
  change (t.insert row).rows.filter (key · ≠ key row) = t.rows
  rw [insert_new h, List.filter_append, List.filter_eq_self.2 fun r hr => decide_eq_true (h r hr)]
  simp

theorem find?_insert_new {p : ρ → Bool} (hnone : t.rows.find? p = none) (hp : p row = true) :
    (t.insert row).rows.find? p = some row := by
  rw [insert_new h, List.find?_append, hnone, Option.none_or, List.find?_cons_of_pos hp]

end Table

namespace Store.Tables

/-- Tables that have all rows of others about who is allowed what; only of a role another row may
stand for it. -/
structure Extends (t u : Tables) : Prop where
  roles : ∀ id, t.roles.contains id = true → u.roles.contains id = true
  memberships : t.memberships.rows ⊆ u.memberships.rows
  roleRulesets : t.roleRulesets.rows ⊆ u.roleRulesets.rows
  accountRulesets : t.accountRulesets.rows ⊆ u.accountRulesets.rows
  entitlements : u.entitlements = t.entitlements

variable {t u v : Tables}

theorem Extends.refl (t : Tables) : t.Extends t :=
  ⟨fun _ => id, List.Subset.refl _, List.Subset.refl _, List.Subset.refl _, rfl⟩

theorem Extends.trans (h : t.Extends u) (h' : u.Extends v) : t.Extends v where
  roles id hid := h'.roles id (h.roles id hid)
  memberships := List.Subset.trans h.memberships h'.memberships
  roleRulesets := List.Subset.trans h.roleRulesets h'.roleRulesets
  accountRulesets := List.Subset.trans h.accountRulesets h'.accountRulesets
  entitlements := h'.entitlements.trans h.entitlements

theorem Extends.capability? (h : t.Extends u) (name : String) :
    u.capability? name = t.capability? name := by
  rw [Tables.capability?, Tables.capability?, h.entitlements]

theorem Extends.holds (h : t.Extends u) {account role : String}
    (hheld : t.holds account role = true) : u.holds account role = true := by
  rw [holds_eq_true_iff, mem_membersOf] at hheld ⊢
  obtain ⟨hrole, m, hm, hparties⟩ := hheld
  exact ⟨h.roles role hrole, m, h.memberships hm, hparties⟩

theorem Extends.grantsOf (h : t.Extends u) (account : String) :
    t.grantsOf account ⊆ u.grantsOf account := by
  intro g hg
  rw [mem_grantsOf, mem_reachable_iff] at hg ⊢
  refine ⟨?_, (h.capability? _).trans hg.2⟩
  cases hruleset : g.ruleset with
  | role r =>
    rw [hruleset] at hg
    exact ⟨h.roleRulesets hg.1.1, h.holds hg.1.2⟩
  | account r =>
    rw [hruleset] at hg
    exact ⟨h.accountRulesets hg.1.1, hg.1.2⟩

theorem Extends.grantsOfRoles (h : t.Extends u) (roles : List String) :
    t.grantsOfRoles roles ⊆ u.grantsOfRoles roles := by
  intro g hg
  rw [mem_grantsOfRoles] at hg ⊢
  obtain ⟨⟨r, hr, hrole, hruleset⟩, hc⟩ := hg
  exact ⟨⟨r, h.roleRulesets hr, hrole, hruleset⟩, (h.capability? _).trans hc⟩

theorem Extends.snapshot (h : t.Extends u) (q : Evaluation) :
    (q.snapshot t).grants ⊆ (q.snapshot u).grants := by
  cases q with
  | accessOfRoles roles => exact h.grantsOfRoles roles
  | creation account | access account | unlocking account | filtering account =>
    exact h.grantsOf account.id

end Store.Tables

def Store.Call.isPut : Call → Bool
  | .putRole _ | .putMembership _ | .putEntitlement _ | .putRoleRuleset _ | .putAccountRuleset _ =>
    true
  | _ => false

namespace Store.Tables

variable {t u : Tables}

theorem extends_of_not_isPut {c : Call} (hc : c.isPut = false) : (t.after c).Extends t := by
  have hsubset {ρ : Type} [Keyed ρ] (table : Table ρ) (p : ρ → Bool) :
      (table.filter p).rows ⊆ table.rows :=
    List.filter_subset_self _
  cases c with
  | putRole | putMembership | putEntitlement | putRoleRuleset | putAccountRuleset => cases hc
  | dropRole id =>
    refine { Extends.refl t with roles := fun other hother => ?_ }
    rw [Table.contains_iff] at hother ⊢
    obtain ⟨r, hr, hkey⟩ := hother
    exact ⟨r, hsubset _ _ hr, hkey⟩
  | dropMembership | dropMemberships =>
    exact { Extends.refl t with memberships := hsubset _ _ }
  | dropRoleRuleset | dropRulesetsOfRole =>
    exact { Extends.refl t with roleRulesets := hsubset _ _ }
  | dropAccountRuleset | dropRulesetsOfAccount =>
    exact { Extends.refl t with accountRulesets := hsubset _ _ }
  | _ => exact .refl t

theorem Along.extends_afterAll {cs : List Call} (h : t.Along (fun t c => t.Extends (t.after c)) cs) :
    t.Extends (t.afterAll cs) :=
  h.afterAll (fun _ _ hu hc => hu.trans hc) (.refl t)

theorem Along.afterAll_extends {cs : List Call} (h : t.Along (fun _ c => c.isPut = false) cs) :
    (t.afterAll cs).Extends t :=
  h.afterAll (I := (·.Extends t)) (fun _ _ hu hc => (extends_of_not_isPut hc).trans hu) (.refl t)

/-! A new row is found where there was none like it, and nothing but it is dropped. -/

theorem restores_putMembership {m : Membership} (hnew : ∀ s ∈ t.memberships.rows, s.id ≠ m.id)
    (hnone : t.reply (.membership m.role m.account) = none) :
    (t.after (.putMembership m)).reply (.membership m.role m.account) = some m ∧
      (t.after (.putMembership m)).after (.dropMembership m.id) = t := by
  refine ⟨Table.find?_insert_new hnew hnone (by simp), ?_⟩
  exact congrArg (fun memberships => { t with memberships }) (Table.erase_insert_new hnew)

theorem restores_putRoleRuleset {r : RoleRuleset} (hnew : ∀ s ∈ t.roleRulesets.rows, s.id ≠ r.id)
    (hnone : t.reply (.roleRuleset r.role r.entitlement r.target) = none) :
    (t.after (.putRoleRuleset r)).reply (.roleRuleset r.role r.entitlement r.target) = some r ∧
      (t.after (.putRoleRuleset r)).after (.dropRoleRuleset r.id) = t := by
  refine ⟨Table.find?_insert_new hnew hnone (by simp [isRoleRuleset]), ?_⟩
  exact congrArg (fun roleRulesets => { t with roleRulesets }) (Table.erase_insert_new hnew)

theorem restores_putAccountRuleset {r : AccountRuleset}
    (hnew : ∀ s ∈ t.accountRulesets.rows, s.id ≠ r.id)
    (hnone : t.reply (.accountRuleset r.account r.entitlement r.target) = none) :
    (t.after (.putAccountRuleset r)).reply (.accountRuleset r.account r.entitlement r.target) =
        some r ∧
      (t.after (.putAccountRuleset r)).after (.dropAccountRuleset r.id) = t := by
  refine ⟨Table.find?_insert_new hnew hnone (by simp [isAccountRuleset]), ?_⟩
  exact congrArg (fun accountRulesets => { t with accountRulesets }) (Table.erase_insert_new hnew)

section

variable {n : Nat} (hk : t.IsKept n) {role account entitlement target name description : String}
  {featureScopes : List String} {now : Instant}

include hk

theorem extends_putMembership :
    t.Extends (t.after (.putMembership ⟨identifier n, role, account, now⟩)) :=
  { Extends.refl t with
    memberships := Table.subset_insert_new fun m hm => (hk.memberships m hm).1 n le_rfl }

theorem extends_putRoleRuleset : t.Extends (t.after (.putRoleRuleset
    ⟨identifier n, role, entitlement, target, name, description, featureScopes, now⟩)) :=
  { Extends.refl t with
    roleRulesets := Table.subset_insert_new fun r hr => (hk.roleRulesets r hr).1 n le_rfl }

theorem extends_putAccountRuleset : t.Extends (t.after (.putAccountRuleset
    ⟨identifier n, account, entitlement, target, featureScopes, now⟩)) :=
  { Extends.refl t with
    accountRulesets := Table.subset_insert_new fun r hr => (hk.accountRulesets r hr).1 n le_rfl }

end

end Store.Tables

namespace Operation

/-- The operation that takes back a grant. -/
def inverse? : Operation → Option Operation
  | .grantMembership role account => some (.revokeMembership role account)
  | .grantRoleRuleset role entitlement target .. => some (.revokeRoleRuleset role entitlement target)
  | .grantAccountRuleset account entitlement target _ =>
    some (.revokeAccountRuleset account entitlement target)
  | _ => none

/-- A revocation or a deletion. -/
def isRemoval : Operation → Bool
  | .deleteRole _ | .revokeMembership .. | .revokeRoleRuleset .. | .revokeAccountRuleset ..
  | .forgetAccount _ => true
  | _ => false

variable {t : Tables} {n : Nat} {now : Instant} {op : Operation}

theorem extends_plan (hk : t.IsKept n) (hop : op.inverse?.isSome = true) :
    t.Extends (t.afterAll (op.plan t (identifier n) now).calls) := by
  apply Tables.Along.extends_afterAll
  cases op with
  | grantMembership role account =>
    refine along_reading (.refl t) rfl (along_demanding fun r _ => along_reading (.refl t) rfl ?_)
    split
    · trivial
    · exact ⟨Tables.extends_putMembership hk, trivial⟩
  | grantRoleRuleset role entitlement target name description featureScopes =>
    refine along_reading (.refl t) rfl (along_demanding fun r _ => along_reading (.refl t) rfl
      (along_demanding fun e _ => along_reading (.refl t) rfl ?_))
    split
    · trivial
    · exact along_demanding fun scopes _ =>
        ⟨Tables.extends_putRoleRuleset hk, .refl _, trivial⟩
  | grantAccountRuleset account entitlement target featureScopes =>
    refine along_reading (.refl t) rfl (along_demanding fun e _ => along_reading (.refl t) rfl ?_)
    split
    · trivial
    · exact along_demanding fun scopes _ => ⟨Tables.extends_putAccountRuleset hk, trivial⟩
  | _ => cases hop

theorem plan_extends {id : String} (hop : op.isRemoval = true) :
    (t.afterAll (op.plan t id now).calls).Extends t := by
  apply Tables.Along.afterAll_extends
  cases op with
  | deleteRole role =>
    exact along_reading rfl rfl (along_demanding fun r _ => ⟨rfl, rfl, rfl, rfl, rfl, trivial⟩)
  | revokeMembership role account =>
    exact along_reading rfl rfl (along_demanding fun m _ => ⟨rfl, trivial⟩)
  | revokeRoleRuleset role entitlement target =>
    exact along_reading rfl rfl (along_demanding fun r _ => ⟨rfl, rfl, trivial⟩)
  | revokeAccountRuleset account entitlement target =>
    exact along_reading rfl rfl (along_demanding fun r _ => ⟨rfl, trivial⟩)
  | forgetAccount account => exact ⟨rfl, rfl, rfl, trivial⟩
  | _ => cases hop

theorem plan_grantRoleRuleset {role entitlement target name description id : String}
    {featureScopes : Value}
    (h : ((grantRoleRuleset role entitlement target name description featureScopes).plan t id
      now).refuses = false) :
    t.reply (.roleRuleset role entitlement target) = none ∧ ∃ scopes,
      ((grantRoleRuleset role entitlement target name description featureScopes).plan t id
        now).calls =
        [.role role, .entitlement entitlement, .roleRuleset role entitlement target,
          .putRoleRuleset ⟨id, role, entitlement, target, name, description, scopes, now⟩,
          .membersOf role] := by
  obtain ⟨r, hr⟩ := Plan.exists_of_demanding h
  simp only [plan, Plan.reading, hr, Plan.demanding] at h ⊢
  obtain ⟨e, he⟩ := Plan.exists_of_demanding h
  simp only [he] at h ⊢
  cases hheld : t.reply (.roleRuleset role entitlement target) with
  | some ruleset =>
    rw [hheld] at h
    cases h
  | none =>
    rw [hheld] at h
    obtain ⟨scopes, hscopes⟩ := Plan.exists_of_demanding h
    refine ⟨rfl, scopes, ?_⟩
    simp only [Option.isSome_none, Bool.false_eq_true, if_false, hscopes]
    rfl

theorem plan_grantAccountRuleset {account entitlement target id : String} {featureScopes : Value}
    (h : ((grantAccountRuleset account entitlement target featureScopes).plan t id
      now).refuses = false) :
    t.reply (.accountRuleset account entitlement target) = none ∧ ∃ scopes,
      ((grantAccountRuleset account entitlement target featureScopes).plan t id now).calls =
        [.entitlement entitlement, .accountRuleset account entitlement target,
          .putAccountRuleset ⟨id, account, entitlement, target, scopes, now⟩] := by
  obtain ⟨e, he⟩ := Plan.exists_of_demanding h
  simp only [plan, Plan.reading, he, Plan.demanding] at h ⊢
  cases hheld : t.reply (.accountRuleset account entitlement target) with
  | some ruleset =>
    rw [hheld] at h
    cases h
  | none =>
    rw [hheld] at h
    obtain ⟨scopes, hscopes⟩ := Plan.exists_of_demanding h
    refine ⟨rfl, scopes, ?_⟩
    simp only [Option.isSome_none, Bool.false_eq_true, if_false, hscopes]
    rfl

theorem restores_plan {u : Tables} (hk : t.IsKept n) {back : Operation}
    (hback : op.inverse? = some back) (hok : (op.plan t (identifier n) now).refuses = false)
    (hu : t.afterAll (op.plan t (identifier n) now).calls = u) (hne : u ≠ t) (id : String)
    (now' : Instant) :
    (back.plan u id now').refuses = false ∧ u.afterAll (back.plan u id now').calls = t := by
  cases op with
  | grantMembership role account =>
    obtain rfl := Option.some.inj hback
    rw [refuses_grantMembership, Bool.not_eq_false'] at hok
    rw [plan_grantMembership hok] at hu
    cases hheld : t.reply (.membership role account) with
    | some m =>
      rw [hheld] at hu
      exact absurd hu.symm hne
    | none =>
      rw [hheld] at hu
      -- the row is new, so the inverse finds it and no other
      obtain ⟨hfound, hdropped⟩ := Tables.restores_putMembership
        (m := ⟨identifier n, role, account, now⟩) (fun m hm => (hk.memberships m hm).1 n le_rfl) hheld
      obtain rfl : t.after (.putMembership ⟨identifier n, role, account, now⟩) = u := hu
      rw [plan, Plan.reading, hfound]
      exact ⟨rfl, hdropped⟩
  | grantRoleRuleset role entitlement target name description featureScopes =>
    obtain rfl := Option.some.inj hback
    obtain ⟨hheld, scopes, hcalls⟩ := plan_grantRoleRuleset hok
    rw [hcalls] at hu
    obtain ⟨hfound, hdropped⟩ := Tables.restores_putRoleRuleset
      (r := ⟨identifier n, role, entitlement, target, name, description, scopes, now⟩)
      (fun r hr => (hk.roleRulesets r hr).1 n le_rfl) hheld
    obtain rfl : t.after (.putRoleRuleset
      ⟨identifier n, role, entitlement, target, name, description, scopes, now⟩) = u := hu
    rw [plan, Plan.reading, hfound]
    exact ⟨rfl, hdropped⟩
  | grantAccountRuleset account entitlement target featureScopes =>
    obtain rfl := Option.some.inj hback
    obtain ⟨hheld, scopes, hcalls⟩ := plan_grantAccountRuleset hok
    rw [hcalls] at hu
    obtain ⟨hfound, hdropped⟩ := Tables.restores_putAccountRuleset
      (r := ⟨identifier n, account, entitlement, target, scopes, now⟩)
      (fun r hr => (hk.accountRulesets r hr).1 n le_rfl) hheld
    obtain rfl : t.after (.putAccountRuleset
      ⟨identifier n, account, entitlement, target, scopes, now⟩) = u := hu
    rw [plan, Plan.reading, hfound]
    exact ⟨rfl, hdropped⟩
  | _ => cases hback

end Operation

end AccessControl
