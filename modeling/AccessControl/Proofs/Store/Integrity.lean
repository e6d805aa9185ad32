import AccessControl.Proofs.Store.Upkeep

/-!
The integrity of the tables. The store checks no keys and no references: a call keeps the tables
intact when it is admitted by them.
-/

namespace AccessControl

open Keyed (key)

namespace Table

variable {ρ : Type} [Keyed ρ] {t : Table ρ}

theorem ext_rows {t u : Table ρ} (h : t.rows = u.rows) : t = u := by
  cases t
  cases u
  cases h
  rfl

theorem mem_upsert_self (row : ρ) (rows : List ρ) : row ∈ upsert row rows := by
  induction rows with
  | nil => exact List.mem_cons_self
  | cons r rest ih =>
    rw [upsert]
    split
    · exact List.mem_cons_self
    · exact List.mem_cons_of_mem _ ih

theorem mem_insert_self (t : Table ρ) (row : ρ) : row ∈ (t.insert row).rows :=
  mem_upsert_self row t.rows

theorem filter_eq_self {p : ρ → Bool} : t.filter p = t ↔ ∀ r ∈ t.rows, p r = true := by
  rw [← List.filter_eq_self]
  exact ⟨congrArg Table.rows, fun h => ext_rows h⟩

theorem filter_congr {p q : ρ → Bool} (h : ∀ r, p r = q r) : t.filter p = t.filter q :=
  congrArg t.filter (funext h)

theorem contains_erase {k l : String} (hl : l ≠ k) (h : t.contains l = true) :
    (t.erase k).contains l = true := by
  obtain ⟨r, hr, rfl⟩ := contains_iff.1 h
  exact contains_iff.2 ⟨r, List.mem_filter.2 ⟨hr, decide_eq_true hl⟩, rfl⟩

theorem nodup_map_insert {β : Type} {f : ρ → β} {row : ρ} (h : (t.rows.map f).Nodup)
    (hrow : ∀ r ∈ t.rows, f r ≠ f row) : ((t.insert row).rows.map f).Nodup := by
  change ((upsert row t.rows).map f).Nodup
  revert h hrow
  induction t.rows with
  | nil => exact fun _ _ => List.nodup_singleton _
  | cons r rest ih =>
    intro h hrow
    rw [List.map_cons, List.nodup_cons] at h
    have hrest : ∀ s ∈ rest, f s ≠ f row := fun s hs => hrow s (List.mem_cons_of_mem _ hs)
    rw [upsert]
    split
    · rw [List.map_cons, List.nodup_cons]
      refine ⟨fun hmem => ?_, h.2⟩
      obtain ⟨s, hs, heq⟩ := List.mem_map.1 hmem
      exact hrest s hs heq
    · rw [List.map_cons, List.nodup_cons]
      refine ⟨fun hmem => ?_, ih h.2 hrest⟩
      obtain ⟨s, hs, heq⟩ := List.mem_map.1 hmem
      rcases mem_upsert hs with rfl | hs
      · exact hrow r List.mem_cons_self heq.symm
      · exact h.1 (List.mem_map.2 ⟨s, hs, heq⟩)

theorem nodup_map_filter {β : Type} {f : ρ → β} (h : (t.rows.map f).Nodup) (p : ρ → Bool) :
    ((t.filter p).rows.map f).Nodup :=
  h.sublist (List.filter_sublist.map f)

theorem ne_of_mem_erase {β : Type} {f : ρ → β} (h : (t.rows.map f).Nodup) {row s : ρ}
    (hrow : row ∈ t.rows) (hs : s ∈ (t.erase (key row)).rows) : f s ≠ f row := by
  obtain ⟨hs, hne⟩ := List.mem_filter.1 hs
  intro heq
  obtain rfl := List.inj_on_of_nodup_map h hs hrow heq
  exact of_decide_eq_true hne rfl

end Table

/-! What the rows of a table are to differ in. -/

def Membership.parties (m : Membership) : String × String := (m.role, m.account)

def RoleRuleset.terms (r : RoleRuleset) : String × String × String :=
  (r.role, r.entitlement, r.target)

def AccountRuleset.terms (r : AccountRuleset) : String × String × String :=
  (r.account, r.entitlement, r.target)

namespace Store

namespace Tables

variable {t : Tables} {role account entitlement target : String}

/-! Rows are looked up by what they are to differ in. -/

theorem reply_membership_eq_none :
    t.reply (.membership role account) = none ↔
      ∀ m ∈ t.memberships.rows, m.parties ≠ (role, account) := by
  simp [reply, Membership.parties]

theorem reply_roleRuleset_eq_none :
    t.reply (.roleRuleset role entitlement target) = none ↔
      ∀ r ∈ t.roleRulesets.rows, r.terms ≠ (role, entitlement, target) := by
  simp [reply, isRoleRuleset, RoleRuleset.terms]

theorem reply_accountRuleset_eq_none :
    t.reply (.accountRuleset account entitlement target) = none ↔
      ∀ r ∈ t.accountRulesets.rows, r.terms ≠ (account, entitlement, target) := by
  simp [reply, isAccountRuleset, AccountRuleset.terms]

theorem of_reply_membership {m : Membership} (h : t.reply (.membership role account) = some m) :
    m ∈ t.memberships.rows ∧ m.parties = (role, account) :=
  ⟨List.mem_of_find?_eq_some h, by simpa [Membership.parties] using List.find?_some h⟩

theorem of_reply_roleRuleset {r : RoleRuleset}
    (h : t.reply (.roleRuleset role entitlement target) = some r) :
    r ∈ t.roleRulesets.rows ∧ r.terms = (role, entitlement, target) :=
  ⟨List.mem_of_find?_eq_some h,
    by simpa [isRoleRuleset, RoleRuleset.terms, and_assoc] using List.find?_some h⟩

theorem of_reply_accountRuleset {r : AccountRuleset}
    (h : t.reply (.accountRuleset account entitlement target) = some r) :
    r ∈ t.accountRulesets.rows ∧ r.terms = (account, entitlement, target) :=
  ⟨List.mem_of_find?_eq_some h,
    by simpa [isAccountRuleset, AccountRuleset.terms, and_assoc] using List.find?_some h⟩

/-- No two rows are about the same, what rows refer to is there, and roles have names. -/
structure IsIntact (t : Tables) : Prop where
  memberships : (t.memberships.rows.map Membership.parties).Nodup
  roleRulesets : (t.roleRulesets.rows.map RoleRuleset.terms).Nodup
  accountRulesets : (t.accountRulesets.rows.map AccountRuleset.terms).Nodup
  memberRoles : ∀ m ∈ t.memberships.rows, t.roles.contains m.role = true
  rulesetRoles : ∀ r ∈ t.roleRulesets.rows, t.roles.contains r.role = true
  roleEntitlements : ∀ r ∈ t.roleRulesets.rows, t.entitlements.contains r.entitlement = true
  accountEntitlements : ∀ r ∈ t.accountRulesets.rows, t.entitlements.contains r.entitlement = true
  names : ∀ r ∈ t.roles.rows, r.name ≠ ""

/-- A call that leaves intact tables intact. -/
def Admits (t : Tables) : Call → Prop
  | .putRole r => r.name ≠ ""
  | .dropRole id =>
    (∀ m ∈ t.memberships.rows, m.role ≠ id) ∧ ∀ r ∈ t.roleRulesets.rows, r.role ≠ id
  | .putMembership m =>
    t.roles.contains m.role = true ∧ ∀ s ∈ t.memberships.rows, s.parties ≠ m.parties
  | .putRoleRuleset r =>
    t.roles.contains r.role = true ∧ t.entitlements.contains r.entitlement = true ∧
      ∀ s ∈ t.roleRulesets.rows, s.terms ≠ r.terms
  | .putAccountRuleset r =>
    t.entitlements.contains r.entitlement = true ∧
      ∀ s ∈ t.accountRulesets.rows, s.terms ≠ r.terms
  | _ => True

def afterAll (t : Tables) (cs : List Call) : Tables := cs.foldl Tables.after t

/-- Each call of a list is one that the tables allow which the calls before it leave. -/
def Along (allow : Tables → Call → Prop) (t : Tables) : List Call → Prop
  | [] => True
  | c :: cs => allow t c ∧ Along allow (t.after c) cs

theorem Along.afterAll {allow : Tables → Call → Prop} {I : Tables → Prop}
    (hI : ∀ t c, I t → allow t c → I (t.after c)) {cs : List Call} {t : Tables} (ht : I t)
    (h : Along allow t cs) : I (t.afterAll cs) := by
  induction cs generalizing t with
  | nil => exact ht
  | cons c cs ih => exact ih (hI t c ht h.1) h.2

theorem Along.takeWhile {allow : Tables → Call → Prop} {cs : List Call} {t : Tables}
    (h : Along allow t cs) (p : Call → Bool) : Along allow t (cs.takeWhile p) := by
  induction cs generalizing t with
  | nil => trivial
  | cons c cs ih =>
    rw [List.takeWhile_cons]
    split
    · exact ⟨h.1, ih h.2⟩
    · trivial

theorem isIntact_empty : Tables.empty.IsIntact := by
  constructor <;> first | exact List.nodup_nil | exact fun _ h => nomatch h

theorem IsIntact.filterMemberships (h : t.IsIntact) (p : Membership → Bool) :
    { t with memberships := t.memberships.filter p }.IsIntact :=
  { h with
    memberships := Table.nodup_map_filter h.memberships p
    memberRoles := fun m hm => h.memberRoles m (List.mem_of_mem_filter hm) }

theorem IsIntact.filterRoleRulesets (h : t.IsIntact) (p : RoleRuleset → Bool) :
    { t with roleRulesets := t.roleRulesets.filter p }.IsIntact :=
  { h with
    roleRulesets := Table.nodup_map_filter h.roleRulesets p
    rulesetRoles := fun r hr => h.rulesetRoles r (List.mem_of_mem_filter hr)
    roleEntitlements := fun r hr => h.roleEntitlements r (List.mem_of_mem_filter hr) }

theorem IsIntact.filterAccountRulesets (h : t.IsIntact) (p : AccountRuleset → Bool) :
    { t with accountRulesets := t.accountRulesets.filter p }.IsIntact :=
  { h with
    accountRulesets := Table.nodup_map_filter h.accountRulesets p
    accountEntitlements := fun r hr => h.accountEntitlements r (List.mem_of_mem_filter hr) }

theorem IsIntact.after (h : t.IsIntact) {c : Call} (hc : t.Admits c) : (t.after c).IsIntact := by
  cases c with
  | putRole r =>
    have hroles {id : String} (hid : t.roles.contains id = true) :
        (t.roles.insert r).contains id = true :=
      (Table.contains_insert _ _ _).2 (.inr hid)
    exact { h with
      memberRoles := fun m hm => hroles (h.memberRoles m hm)
      rulesetRoles := fun s hs => hroles (h.rulesetRoles s hs)
      names := fun s hs => by
        rcases Table.mem_insert hs with rfl | hs
        · exact hc
        · exact h.names s hs }
  | dropRole id =>
    exact { h with
      memberRoles := fun m hm => Table.contains_erase (hc.1 m hm) (h.memberRoles m hm)
      rulesetRoles := fun r hr => Table.contains_erase (hc.2 r hr) (h.rulesetRoles r hr)
      names := fun r hr => h.names r (List.mem_of_mem_filter hr) }
  | putMembership m =>
    exact { h with
      memberships := Table.nodup_map_insert h.memberships hc.2
      memberRoles := fun s hs => by
        rcases Table.mem_insert hs with rfl | hs
        · exact hc.1
        · exact h.memberRoles s hs }
  | putRoleRuleset r =>
    exact { h with
      roleRulesets := Table.nodup_map_insert h.roleRulesets hc.2.2
      rulesetRoles := fun s hs => by
        rcases Table.mem_insert hs with rfl | hs
        · exact hc.1
        · exact h.rulesetRoles s hs
      roleEntitlements := fun s hs => by
        rcases Table.mem_insert hs with rfl | hs
        · exact hc.2.1
        · exact h.roleEntitlements s hs }
  | putAccountRuleset r =>
    exact { h with
      accountRulesets := Table.nodup_map_insert h.accountRulesets hc.2
      accountEntitlements := fun s hs => by
        rcases Table.mem_insert hs with rfl | hs
        · exact hc.1
        · exact h.accountEntitlements s hs }
  | putEntitlement e =>
    have hentitlements {name : String} (hname : t.entitlements.contains name = true) :
        (t.entitlements.insert e).contains name = true :=
      (Table.contains_insert _ _ _).2 (.inr hname)
    exact { h with
      roleEntitlements := fun r hr => hentitlements (h.roleEntitlements r hr)
      accountEntitlements := fun r hr => hentitlements (h.accountEntitlements r hr) }
  | dropMembership | dropMemberships => exact h.filterMemberships _
  | dropRoleRuleset | dropRulesetsOfRole => exact h.filterRoleRulesets _
  | dropAccountRuleset | dropRulesetsOfAccount => exact h.filterAccountRulesets _
  | _ => exact h

end Tables

end Store

end AccessControl
