import AccessControl.Proofs.Administration.Plans

/-!
Operations and the integrity of the tables. Whatever call of an operation fails, the calls before it
have left the tables intact: what a new row refers to is looked up before it is stored, and a role is
removed after all that refers to it.
-/

namespace AccessControl

open Program Administration Store

namespace Operation

theorem admits_plan {t : Tables} (h : t.IsIntact) (id : String) (now : Instant) (op : Operation) :
    t.Along Tables.Admits (op.plan t id now).calls := by
  cases op with
  | createRole name description =>
    rw [plan]
    split
    case isTrue => trivial
    case isFalse hname => exact ⟨hname, trivial⟩
  | changeRole role name description =>
    refine along_reading trivial rfl (along_demanding fun r hr => ?_)
    have hmem : r ∈ t.roles.rows := (Table.get?_eq_some_iff.1 hr).1
    split
    case isTrue => trivial
    case isFalse hname =>
      refine ⟨?_, trivial⟩
      cases name with
      | none => exact h.names r hmem
      | some name => exact fun hempty => hname (congrArg some hempty)
  | deleteRole role =>
    refine along_reading trivial rfl (along_demanding fun r _ => ?_)
    refine ⟨trivial, trivial, trivial, trivial, ⟨fun m hm => ?_, fun s hs => ?_⟩, trivial⟩
    · have hkept := (List.mem_filter.1 hm).2
      rintro rfl
      simp [Tables.removedMembership] at hkept
    · exact of_decide_eq_true (List.mem_filter.1 hs).2
  | grantMembership role account =>
    refine along_reading trivial rfl (along_demanding fun r hr => ?_)
    refine along_reading trivial rfl ?_
    cases hheld : t.reply (.membership role account) with
    | some m => trivial
    | none =>
      exact ⟨⟨Option.isSome_of_eq_some hr, Tables.reply_membership_eq_none.1 hheld⟩, trivial⟩
  | revokeMembership role account =>
    exact along_reading trivial rfl (along_demanding fun m _ => ⟨trivial, trivial⟩)
  | grantRoleRuleset role entitlement target name description featureScopes =>
    refine along_reading trivial rfl (along_demanding fun r hr => ?_)
    refine along_reading trivial rfl (along_demanding fun e he => ?_)
    refine along_reading trivial rfl ?_
    cases hheld : t.reply (.roleRuleset role entitlement target) with
    | some m => trivial
    | none =>
      exact along_demanding fun scopes _ => ⟨⟨Option.isSome_of_eq_some hr,
        Option.isSome_of_eq_some he, Tables.reply_roleRuleset_eq_none.1 hheld⟩, trivial, trivial⟩
  | revokeRoleRuleset role entitlement target =>
    exact along_reading trivial rfl (along_demanding fun r _ => ⟨trivial, trivial, trivial⟩)
  | grantAccountRuleset account entitlement target featureScopes =>
    refine along_reading trivial rfl (along_demanding fun e he => ?_)
    refine along_reading trivial rfl ?_
    cases hheld : t.reply (.accountRuleset account entitlement target) with
    | some m => trivial
    | none =>
      exact along_demanding fun scopes _ => ⟨⟨Option.isSome_of_eq_some he,
        Tables.reply_accountRuleset_eq_none.1 hheld⟩, trivial⟩
  | revokeAccountRuleset account entitlement target =>
    exact along_reading trivial rfl (along_demanding fun r _ => ⟨trivial, trivial⟩)
  | forgetAccount account => exact ⟨trivial, trivial, trivial, trivial⟩

theorem isIntact_run (cache : Option GrantCache) (op : Operation) {w : World}
    (h : w.ledger.tables.IsIntact) : ((op.run cache).run w).2.ledger.tables.IsIntact := by
  rw [(op.run_plan cache w).1]
  exact Tables.Along.afterAll (fun _ _ hu hc => hu.after hc) h ((admits_plan h _ _ op).takeWhile _)

/-- The row that a revocation names is not there. -/
def Clears (t : Tables) : Operation → Prop
  | .revokeMembership role account => ∀ m ∈ t.memberships.rows, m.parties ≠ (role, account)
  | .revokeRoleRuleset role entitlement target =>
    ∀ r ∈ t.roleRulesets.rows, r.terms ≠ (role, entitlement, target)
  | .revokeAccountRuleset account entitlement target =>
    ∀ r ∈ t.accountRulesets.rows, r.terms ≠ (account, entitlement, target)
  | _ => True

theorem clears_run {cache : Option GrantCache} {op : Operation} {w : World}
    (h : w.ledger.tables.IsIntact) (hok : ((op.run cache).run w).1 = .ok ()) :
    op.Clears ((op.run cache).run w).2.ledger.tables := by
  obtain ⟨hrefuses, htables⟩ := run_plan_ok hok
  cases op with
  | revokeMembership role account =>
    obtain ⟨m, hm⟩ := Plan.exists_of_demanding hrefuses
    obtain ⟨hmem, hparties⟩ := Tables.of_reply_membership hm
    rw [plan, Plan.reading, hm] at htables
    intro s hs
    rw [htables] at hs
    rw [← hparties]
    exact Table.ne_of_mem_erase h.memberships hmem hs
  | revokeRoleRuleset role entitlement target =>
    obtain ⟨r, hr⟩ := Plan.exists_of_demanding hrefuses
    obtain ⟨hmem, hterms⟩ := Tables.of_reply_roleRuleset hr
    rw [plan, Plan.reading, hr] at htables
    intro s hs
    rw [htables] at hs
    rw [← hterms]
    exact Table.ne_of_mem_erase h.roleRulesets hmem hs
  | revokeAccountRuleset account entitlement target =>
    obtain ⟨r, hr⟩ := Plan.exists_of_demanding hrefuses
    obtain ⟨hmem, hterms⟩ := Tables.of_reply_accountRuleset hr
    rw [plan, Plan.reading, hr] at htables
    intro s hs
    rw [htables] at hs
    rw [← hterms]
    exact Table.ne_of_mem_erase h.accountRulesets hmem hs
  | _ => trivial

end Operation

end AccessControl
