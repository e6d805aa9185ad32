import AccessControl.Proofs.Administration.Atomicity
import AccessControl.Proofs.Administration.Provided
import AccessControl.Proofs.Decision.Unions

/-!
Deletions. A role is deleted with its memberships and rulesets, an account's memberships and rulesets
are removed with it, and all other rows stay where they are. What is left of a snapshot follows.
-/

namespace AccessControl

open Program Administration Store

def Ruleset.isOfRole (role : String) : Ruleset → Bool
  | .role r => r.role = role
  | .account _ => false

theorem Table.contains_erase_iff {ρ : Type} [Keyed ρ] {t : Table ρ} {k l : String} :
    (t.erase k).contains l = true ↔ l ≠ k ∧ t.contains l = true := by
  simp only [Table.contains_iff, Table.erase, Table.filter, List.mem_filter, decide_eq_true_eq]
  constructor
  · rintro ⟨r, ⟨hr, hne⟩, rfl⟩
    exact ⟨hne, r, hr, rfl⟩
  · rintro ⟨hne, r, hr, rfl⟩
    exact ⟨r, ⟨hr, hne⟩, rfl⟩

namespace Store.Tables

variable (t : Tables) (role account : String)

/-! What is reached of the tables that are left. -/

theorem holds_withoutRole {r : String} (hr : r ≠ role) :
    (t.withoutRole role).holds account r = t.holds account r := by
  rw [Bool.eq_iff_iff, holds_eq_true_iff, holds_eq_true_iff, mem_membersOf, mem_membersOf]
  refine and_congr (Table.contains_erase_iff.trans (and_iff_right hr)) ?_
  constructor
  · rintro ⟨m, hm, hrole, haccount⟩
    exact ⟨m, List.mem_of_mem_filter hm, hrole, haccount⟩
  · rintro ⟨m, hm, rfl, haccount⟩
    exact ⟨m, List.mem_filter.2 ⟨hm, decide_eq_true hr⟩, rfl, haccount⟩

theorem reachable_withoutRole : ((t.withoutRole role).reachable account).toList =
    (t.reachable account).toList.filter fun r => !r.isOfRole role := by
  have hrole : ((t.withoutRole role).reachable account).role =
      (t.reachable account).role.filter (·.role ≠ role) := by
    refine Eq.trans (List.filter_congr fun r hr => ?_) (List.filter_comm ..)
    exact t.holds_withoutRole role account (of_decide_eq_true (List.mem_filter.1 hr).2)
  have haccount : ((t.withoutRole role).reachable account).account =
      (t.reachable account).account.filter fun _ => true :=
    (List.filter_true _).symm
  rw [Rulesets.toList, Rulesets.toList, hrole, haccount, List.filter_append, List.filter_map,
    List.filter_map]
  congr 3
  funext r
  simp [Ruleset.isOfRole]

theorem grantsOf_withoutRole : (t.withoutRole role).grantsOf account =
    (t.grantsOf account).filter fun g => !g.ruleset.isOfRole role := by
  have hgrant : (t.withoutRole role).grant? = t.grant? := rfl
  rw [grantsOf, grantsOf, reachable_withoutRole, hgrant, List.filterMap_filter,
    List.filter_filterMap]
  congr 1
  funext r
  rw [grant?]
  cases t.capability? r.entitlement with
  | none => split <;> rfl
  | some c =>
    rw [Option.map_some, Option.filter_some]

theorem reachable_withoutAccount_self :
    ((t.withoutAccount account).reachable account).toList = [] := by
  rw [List.eq_nil_iff_forall_not_mem]
  intro r hr
  rw [mem_reachable_iff] at hr
  cases r with
  | role r =>
    obtain ⟨m, hm, -, haccount⟩ := mem_membersOf.1 (holds_eq_true_iff.1 hr.2).2
    exact of_decide_eq_true (List.mem_filter.1 hm).2 haccount
  | account r => exact of_decide_eq_true (List.mem_filter.1 hr.1).2 hr.2

theorem grantsOf_withoutAccount_self : (t.withoutAccount account).grantsOf account = [] := by
  rw [grantsOf, reachable_withoutAccount_self]
  rfl

theorem grantsOf_withoutAccount {other : String} (h : other ≠ account) :
    (t.withoutAccount account).grantsOf other = t.grantsOf other := by
  have hreach : (t.withoutAccount account).reachable other = t.reachable other := by
    rw [← afterAll_accountCascade]
    exact reachable_forget h
  rw [grantsOf, grantsOf, hreach]
  rfl

theorem grantsOfRoles_withoutAccount (roles : List String) :
    (t.withoutAccount account).grantsOfRoles roles = t.grantsOfRoles roles :=
  rfl

end Store.Tables

/-! What is removed once is not removed again. -/

theorem Table.filter_filter_self {ρ : Type} [Keyed ρ] (t : Table ρ) (p : ρ → Bool) :
    (t.filter p).filter p = t.filter p :=
  Table.filter_eq_self.2 fun _ hr => (List.mem_filter.1 hr).2

theorem Table.countP_filter_ne {ρ : Type} [Keyed ρ] (t : Table ρ) (f : ρ → String) (k : String) :
    (t.filter (f · ≠ k)).rows.countP (f · = k) = 0 := by
  rw [List.countP_eq_zero]
  intro r hr
  simpa using (List.mem_filter.1 hr).2

namespace Store

variable (t : Tables) (role account : String)

theorem Tables.withoutRole_withoutRole :
    (t.withoutRole role).withoutRole role = t.withoutRole role := by
  simp only [withoutRole, Table.erase, Table.filter_filter_self]

theorem Tables.withoutAccount_withoutAccount :
    (t.withoutAccount account).withoutAccount account = t.withoutAccount account := by
  simp only [withoutAccount, Table.filter_filter_self]

theorem Tables.contains_withoutRole : (t.withoutRole role).roles.contains role = false := by
  rw [← Bool.not_eq_true]
  exact fun h => (Table.contains_erase_iff.1 h).1 rfl

theorem run_call_stores {α : Type} {t : Tables} {w : World} (hw : w.Stores t) (c : Call)
    (f : c.Reply → Program α) :
    (call c >>= f).run w = (f (t.reply c)).run { w with ledger := ⟨t.after c, .none⟩ } := by
  have hcall : w.ledger.call c = (.ok (t.reply c), ⟨t.after c, .none⟩) := by
    rw [hw, Ledger.call_none]
  change (ofExcept (w.ledger.call c).1 >>= f).run { w with ledger := (w.ledger.call c).2 } = _
  rw [hcall]
  rfl

theorem stores_with (w : World) (t : Tables) : { w with ledger := ⟨t, .none⟩ }.Stores t :=
  rfl

variable {t} {w : World}

theorem run_removeRole (hw : w.Stores t) : (removeRole role).run w =
    (.ok (t.roles.contains role), { w with ledger := ⟨t.withoutRole role, .none⟩ }) := by
  rw [removeRole, run_call_stores hw, run_call_stores (stores_with w _),
    run_call_stores (stores_with w _), ← bind_pure (call (.dropRole role)),
    run_call_stores (stores_with w _), ← Tables.afterAll_roleCascade]
  rfl

theorem run_removeAccount (hw : w.Stores t) : (removeAccount account).run w =
    (.ok (t.memberships.rows.countP (·.account = account),
        t.accountRulesets.rows.countP (·.account = account)),
      { w with ledger := ⟨t.withoutAccount account, .none⟩ }) := by
  have hcount : t.memberships.rows.countP (Tables.removedMembership none (some account)) =
      t.memberships.rows.countP (·.account = account) :=
    List.countP_congr fun m _ => by simp [Tables.removedMembership]
  rw [removeAccount, run_call_stores hw, run_call_stores (stores_with w _),
    run_call_stores (stores_with w _), ← Tables.afterAll_accountCascade, ← hcount]
  rfl

end Store

/-! The operations. -/

section

variable {cache : Option GrantCache} {t : Tables} {w : World} (hw : w.Provides ⟨cache⟩ t)
  {role account : String}

include hw

theorem Role.provides_delete (hrole : t.roles.contains role = true) :
    ∃ v, (Role.delete cache role).run w = (.ok (), v) ∧ v.Provides ⟨cache⟩ (t.withoutRole role) := by
  obtain ⟨r, hr⟩ := Option.isSome_iff_exists.1 hrole
  have hreply : t.reply (.role role) = some r := hr
  obtain ⟨hok, hprovides⟩ := (Operation.deleteRole role).provides_run hw
  rw [Operation.plan, Operation.Plan.reading, hreply] at hok hprovides
  rcases hrun : (Operation.run cache (.deleteRole role)).run w with ⟨e | u, v⟩
  · rw [hrun] at hok
    cases hok
  · rw [hrun] at hprovides
    refine ⟨v, hrun, ?_⟩
    rw [← Tables.afterAll_roleCascade]
    exact hprovides

theorem Account.provides_forget (account : String) :
    ∃ v, (Account.forget cache account).run w = (.ok (), v) ∧
      v.Provides ⟨cache⟩ (t.withoutAccount account) := by
  obtain ⟨hok, hprovides⟩ := (Operation.forgetAccount account).provides_run hw
  rcases hrun : (Operation.run cache (.forgetAccount account)).run w with ⟨e | u, v⟩
  · rw [hrun] at hok
    cases hok
  · rw [hrun] at hprovides
    refine ⟨v, hrun, ?_⟩
    rw [← Tables.afterAll_accountCascade]
    exact hprovides

end

def Account.line (account : String) (memberships rulesets : Int) : Log.Line :=
  ⟨.info, logger, "Account grants removed",
    [("account_id", .text account), ("memberships", .int memberships), ("rulesets", .int rulesets)]⟩

theorem Administration.run_uncache (cache : Option GrantCache) (accounts : List String) (w : World) :
    ∃ v, (uncache cache accounts).run w = (.ok (), v) := by
  cases cache with
  | none => exact ⟨w, rfl⟩
  | some cache =>
    obtain ⟨v, hv, -⟩ := GrantCache.run_dropAll (Text.members accounts) w
    exact ⟨v, hv⟩

theorem Account.line_mem_trace {cache : Option GrantCache} {w : World} {account : String} {m n : Int}
    (h : ((removeAccount account).run w).1 = .ok (m, n)) :
    .record (Account.line account m n) ∈ (Account.forget cache account).trace w := by
  rcases hrun : (removeAccount account).run w with ⟨x, v⟩
  rw [hrun] at h
  obtain rfl : x = .ok (m, n) := h
  have hstoring := run_storing_ok hrun logger "delete_account"
  obtain ⟨v', hv'⟩ := run_uncache cache [account] v
  rw [Account.forget, trace_bind_ok (congrArg Prod.fst hstoring), hstoring]
  refine List.mem_append_right _ ?_
  rw [trace_bind_ok (congrArg Prod.fst hv'), hv']
  exact List.mem_append_right _ List.mem_cons_self

/-- Deletions remove exactly what belongs to the role or the account. Of each snapshot the grants of
the role are left out, in place; of the account nothing is left, what was removed of it is counted, and
no other account and no preview of roles notices. A second cascade finds nothing to remove. -/
theorem Store.cascades_exact (cache : Option GrantCache) (t : Tables) (w : World)
    (hw : w.Provides ⟨cache⟩ t) :
    (∀ role, t.roles.contains role = true → ∃ v, (Role.delete cache role).run w = (.ok (), v) ∧
      v.Provides ⟨cache⟩ (t.withoutRole role) ∧
      (∀ account, ∃ s, ((Grants.ofAccount ⟨cache⟩ account).run w).1 = .ok s ∧
        ((Grants.ofAccount ⟨cache⟩ account).run v).1 =
          .ok { s with grants := s.grants.filter fun g => !g.ruleset.isOfRole role }) ∧
      (removeRole role).run v = (.ok false, v)) ∧
    ∀ account, ∃ v, (Account.forget cache account).run w = (.ok (), v) ∧
      v.Provides ⟨cache⟩ (t.withoutAccount account) ∧
      (let memberships : Int := t.memberships.rows.countP (·.account = account)
        let rulesets : Int := t.accountRulesets.rows.countP (·.account = account)
        ((removeAccount account).run w).1 = .ok (memberships, rulesets) ∧
          .record (Account.line account memberships rulesets) ∈
            (Account.forget cache account).trace w) ∧
      ((Grants.ofAccount ⟨cache⟩ account).run v).1 = .ok ⟨account, []⟩ ∧
      (∀ other, other ≠ account →
        ((Grants.ofAccount ⟨cache⟩ other).run v).1 = ((Grants.ofAccount ⟨cache⟩ other).run w).1) ∧
      (∀ roles, ((Grants.ofRoles ⟨cache⟩ roles).run v).1 = ((Grants.ofRoles ⟨cache⟩ roles).run w).1) ∧
      (removeAccount account).run v = (.ok (0, 0), v) := by
  have hsnapshot {u : Tables} {v : World} (hv : v.Provides ⟨cache⟩ u) (account : String) :=
    Authority.comesOver_ofAccount ⟨cache⟩ account v hv
  have hpreview {u : Tables} {v : World} (hv : v.Provides ⟨cache⟩ u) (roles : List String) :=
    Authority.comesOver_ofRoles ⟨cache⟩ roles v hv
  refine ⟨fun role hrole => ?_, fun account => ?_⟩
  · obtain ⟨v, hrun, hv⟩ := Role.provides_delete hw hrole
    refine ⟨v, hrun, hv, fun account => ⟨_, hsnapshot hw account, ?_⟩, ?_⟩
    · rw [hsnapshot hv, Tables.grantsOf_withoutRole]
    · rw [run_removeRole role hv.1, Tables.contains_withoutRole, Tables.withoutRole_withoutRole,
        ← hv.1]
  · obtain ⟨v, hrun, hv⟩ := Account.provides_forget hw account
    have hcounts := congrArg Prod.fst (run_removeAccount account hw.1)
    refine ⟨v, hrun, hv, ⟨hcounts, Account.line_mem_trace hcounts⟩, ?_, fun other hother => ?_,
      fun roles => ?_, ?_⟩
    · rw [hsnapshot hv, Tables.grantsOf_withoutAccount_self]
    · rw [hsnapshot hv, hsnapshot hw, Tables.grantsOf_withoutAccount t account hother]
    · rw [hpreview hv, hpreview hw, Tables.grantsOfRoles_withoutAccount]
    · have hmemberships := t.memberships.countP_filter_ne Membership.account account
      have hrulesets := t.accountRulesets.countP_filter_ne AccountRuleset.account account
      rw [run_removeAccount account hv.1, Tables.withoutAccount_withoutAccount, ← hv.1]
      simp only [Tables.withoutAccount, hmemberships, hrulesets, Nat.cast_zero]

theorem Store.cascades_exact_sharing :
    let held (w : World) : Except Error (List String) :=
      ((Grants.ofAccount ⟨none⟩ "ann").run w).1.map fun s => s.grants.map Grant.target
    held Authority.shared = .ok ["t1", "t3"] ∧
      (∃ v, (Role.delete none Authority.first.id).run Authority.shared = (.ok (), v) ∧
        held v = .ok ["t3"]) ∧
      ∃ v, (Account.forget none "ann").run Authority.shared = (.ok (), v) ∧ held v = .ok [] ∧
        ((removeAccount "ann").run Authority.shared).1 = .ok (1, 1) := by
  intro held
  have hshared : Authority.shared.Provides ⟨none⟩ Authority.sharing := ⟨rfl, .inl rfl⟩
  obtain ⟨hdelete, hforget⟩ := cascades_exact none Authority.sharing Authority.shared hshared
  obtain ⟨v, hv, -, hsnapshots, -⟩ := hdelete Authority.first.id (by decide +kernel)
  obtain ⟨s, hs, hs'⟩ := hsnapshots "ann"
  obtain ⟨u, hu, -, ⟨hcounts, -⟩, hnone, -⟩ := hforget "ann"
  have hgrants := hs.symm.trans (Authority.comesOver_ofAccount ⟨none⟩ "ann" _ hshared)
  obtain rfl := Except.ok.inj hgrants
  refine ⟨?_, ⟨v, hv, ?_⟩, u, hu, ?_, ?_⟩
  · simp only [held, hs, Except.map]
    decide +kernel
  · simp only [held, hs', Except.map]
    decide +kernel
  · simp only [held, hnone, Except.map, List.map_nil]
  · rw [hcounts]
    decide +kernel

end AccessControl
