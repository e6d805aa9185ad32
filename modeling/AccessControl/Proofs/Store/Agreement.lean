import AccessControl.Proofs.Cache.Entries
import AccessControl.Proofs.Grant.Resolution
import AccessControl.Proofs.Store.Integrity

/-!
What an account has of the tables. Tables may differ in all that is of other accounts, and in the order
of their rows, and give an account the same grants.
-/

namespace AccessControl

namespace Table

variable {ρ : Type} [Keyed ρ] {t u : Table ρ} {k : String}

theorem get?_congr (h : ∀ r, Keyed.key r = k → (r ∈ t.rows ↔ r ∈ u.rows)) : t.get? k = u.get? k := by
  ext r
  rw [get?_eq_some_iff, get?_eq_some_iff]
  exact and_congr_left fun hr => h r hr

end Table

namespace Store.Tables

variable {account : String} {t u : Tables}

/-- Tables that hold the same of an account: the roles that it holds, the rulesets of these and its
own, and the entitlements that the rulesets name. -/
structure AgreeOn (account : String) (t u : Tables) : Prop where
  roles : ∀ role, t.holds account role = u.holds account role
  roleRulesets : ∀ r, t.holds account r.role = true →
    (r ∈ t.roleRulesets.rows ↔ r ∈ u.roleRulesets.rows)
  accountRulesets : ∀ r, r.account = account →
    (r ∈ t.accountRulesets.rows ↔ r ∈ u.accountRulesets.rows)
  entitlements : ∀ r ∈ (t.reachable account).toList, ∀ e, e.name = r.entitlement →
    (e ∈ t.entitlements.rows ↔ e ∈ u.entitlements.rows)

theorem AgreeOn.mem_reachable (h : t.AgreeOn account u) (r : Ruleset) :
    r ∈ (t.reachable account).toList ↔ r ∈ (u.reachable account).toList := by
  rw [mem_reachable_iff, mem_reachable_iff]
  cases r with
  | role r =>
    simp only [← h.roles]
    exact and_congr_left fun hr => h.roleRulesets r hr
  | account r => exact and_congr_left fun hr => h.accountRulesets r hr

theorem mem_grantsOf {g : Grant} :
    g ∈ t.grantsOf account ↔ g.ruleset ∈ (t.reachable account).toList ∧
      t.capability? g.ruleset.entitlement = some g.capability := by
  rw [grantsOf, List.mem_filterMap]
  constructor
  · rintro ⟨r, hr, hg⟩
    obtain ⟨c, hc, rfl⟩ := Option.map_eq_some_iff.1 hg
    exact ⟨hr, hc⟩
  · rintro ⟨hr, hc⟩
    exact ⟨g.ruleset, hr, Option.map_eq_some_iff.2 ⟨g.capability, hc, rfl⟩⟩

theorem grantsOf_congr
    (hreach : ∀ r, r ∈ (t.reachable account).toList ↔ r ∈ (u.reachable account).toList)
    (hnamed : ∀ r ∈ (t.reachable account).toList,
      t.entitlements.get? r.entitlement = u.entitlements.get? r.entitlement) (g : Grant) :
    g ∈ t.grantsOf account ↔ g ∈ u.grantsOf account := by
  rw [mem_grantsOf, mem_grantsOf, ← hreach, capability?, capability?]
  exact and_congr_right fun hr => by rw [hnamed _ hr]

theorem AgreeOn.mem_grantsOf_iff (h : t.AgreeOn account u) (g : Grant) :
    g ∈ t.grantsOf account ↔ g ∈ u.grantsOf account :=
  grantsOf_congr h.mem_reachable (fun r hr => Table.get?_congr (h.entitlements r hr)) g

def Spares (account : String) (t : Tables) (c : Call) : Prop :=
  (t.after c).reachable account = t.reachable account ∧ (t.after c).entitlements = t.entitlements

theorem Along.mem_grantsOf_iff {cs : List Call} (h : t.Along (Spares account) cs) (g : Grant) :
    g ∈ t.grantsOf account ↔ g ∈ (t.afterAll cs).grantsOf account := by
  obtain ⟨hreach, hentitlements⟩ := h.afterAll (I := fun u =>
    u.reachable account = t.reachable account ∧ u.entitlements = t.entitlements)
    (fun _ _ hu hc => ⟨hc.1.trans hu.1, hc.2.trans hu.2⟩) ⟨rfl, rfl⟩
  exact grantsOf_congr (fun r => by rw [hreach]) (fun r _ => by rw [hentitlements]) g

theorem mem_grantsOf_putEntitlement {e : Entitlement}
    (h : ∀ r ∈ (t.reachable account).toList, r.entitlement ≠ e.name) (g : Grant) :
    g ∈ t.grantsOf account ↔ g ∈ (t.after (.putEntitlement e)).grantsOf account := by
  refine grantsOf_congr (t := t) (u := t.after (.putEntitlement e)) (fun _ => Iff.rfl)
    (fun r hr => ?_) g
  exact ((t.entitlements.get?_insert e r.entitlement).trans (if_neg (Ne.symm (h r hr)))).symm

end Store.Tables

end AccessControl
