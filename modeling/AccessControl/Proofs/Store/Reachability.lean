import AccessControl.Cache.Wire
import AccessControl.Store.Tables
import Mathlib.Data.List.Nodup
import Mathlib.Tactic.Tauto

/-!
What is reachable from an account: the rulesets of the roles that it holds, and its own.
-/

namespace AccessControl

open Keyed (key)

namespace Table

variable {ρ : Type} [Keyed ρ]

theorem eq_of_key_eq {t : Table ρ} {r s : ρ} (hr : r ∈ t.rows) (hs : s ∈ t.rows)
    (h : key r = key s) : r = s :=
  List.inj_on_of_nodup_map t.nodup hr hs h

theorem get?_eq_some_iff {t : Table ρ} {k : String} {r : ρ} :
    t.get? k = some r ↔ r ∈ t.rows ∧ key r = k := by
  constructor
  · intro h
    exact ⟨List.mem_of_find?_eq_some h, by simpa using List.find?_some h⟩
  · rintro ⟨hr, rfl⟩
    cases h : t.get? (key r) with
    | none =>
      have := List.find?_eq_none.1 h r hr
      simp at this
    | some s =>
      have hk : key s = key r := by simpa using List.find?_some h
      rw [eq_of_key_eq (List.mem_of_find?_eq_some h) hr hk]

theorem contains_iff {t : Table ρ} {k : String} : t.contains k = true ↔ ∃ r ∈ t.rows, key r = k := by
  rw [contains, Option.isSome_iff_exists]
  simp only [get?_eq_some_iff]

theorem nodup_rows (t : Table ρ) : t.rows.Nodup :=
  t.nodup.of_map

theorem get?_filter (t : Table ρ) (p : ρ → Bool) (k : String) :
    (t.filter p).get? k = (t.get? k).filter p := by
  ext r
  rw [get?_eq_some_iff, Option.filter_eq_some_iff, get?_eq_some_iff, filter, List.mem_filter]
  tauto

end Table

namespace Store.Tables

/-- An account is a member of a role that exists. -/
def holds (t : Tables) (account role : String) : Bool :=
  t.roles.contains role && t.memberships.rows.any fun m => m.role = role && m.account = account

/-- The rulesets of the roles that an account holds, and its own, each once. -/
def reachable (t : Tables) (account : String) : Rulesets where
  role := t.roleRulesets.rows.filter fun r => t.holds account r.role
  account := t.accountRulesets.rows.filter fun r => r.account = account

theorem contains_rolesHeldBy (t : Tables) (account role : String) :
    ((t.rolesHeldBy account).map Role.id).contains role = t.holds account role := by
  rw [Bool.eq_iff_iff, List.contains_iff_mem, holds, Bool.and_eq_true, Table.contains_iff,
    List.any_eq_true]
  simp only [rolesHeldBy, List.mem_map, List.mem_filterMap, Option.ite_none_right_eq_some,
    Table.get?_eq_some_iff, Bool.and_eq_true, decide_eq_true_eq]
  constructor
  · rintro ⟨r, ⟨m, hm, ha, hr, hk⟩, rfl⟩
    exact ⟨⟨r, hr, rfl⟩, m, hm, hk.symm, ha⟩
  · rintro ⟨⟨r, hr, rfl⟩, m, hm, hk, ha⟩
    exact ⟨r, ⟨m, hm, ha, hr, hk.symm⟩, rfl⟩

theorem reply_rulesetsThroughRoles (t : Tables) (account : String) :
    t.reply (.rulesetsThroughRoles account) = (t.reachable account).role := by
  simp only [reply, rulesetsHeldBy, contains_rolesHeldBy, reachable]

theorem reply_rulesetsOfAccount (t : Tables) (account : String) :
    t.reply (.rulesetsOfAccount account) = (t.reachable account).account :=
  rfl

theorem nodup_reachable (t : Tables) (account : String) : (t.reachable account).toList.Nodup := by
  rw [Rulesets.toList, List.nodup_append]
  refine ⟨?_, ?_, ?_⟩
  · exact (t.roleRulesets.nodup_rows.filter _).map fun _ _ => Ruleset.role.inj
  · exact (t.accountRulesets.nodup_rows.filter _).map fun _ _ => Ruleset.account.inj
  · intro r hr s hs
    obtain ⟨_, _, rfl⟩ := List.mem_map.1 hr
    obtain ⟨_, _, rfl⟩ := List.mem_map.1 hs
    exact Ruleset.noConfusion

theorem mem_reachable_iff (t : Tables) (account : String) (r : Ruleset) :
    r ∈ (t.reachable account).toList ↔
      match r with
      | .role r => r ∈ t.roleRulesets.rows ∧ t.holds account r.role
      | .account r => r ∈ t.accountRulesets.rows ∧ r.account = account := by
  cases r <;> simp [Rulesets.toList, reachable]

end Store.Tables

end AccessControl
