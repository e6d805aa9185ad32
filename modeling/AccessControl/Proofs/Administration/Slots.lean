import AccessControl.Proofs.Administration.Integrity
import AccessControl.Proofs.Cache.Shelves

/-!
What there is to be one row about at most: that an account is a member of a role, and what a role or
an account may do by an entitlement on a target. The store looks rows up by it, but does not enforce
it: a row is added whether or not there is one about the same.
-/

namespace AccessControl

open Keyed (key)
open Program Store

namespace Table

variable {ρ : Type} [Keyed ρ] {t : Table ρ}

theorem exists_rows_erase {row : ρ} (h : row ∈ t.rows) :
    ∃ before after, t.rows = before ++ row :: after ∧
      (t.erase (key row)).rows = before ++ after := by
  obtain ⟨before, after, hrows⟩ := List.append_of_mem h
  have hnodup := t.nodup
  rw [hrows, List.map_append, List.map_cons, List.nodup_middle, List.nodup_cons,
    List.mem_append, not_or] at hnodup
  -- no other row has its key, so that the filter takes nothing else
  obtain ⟨⟨hbefore, hafter⟩, -⟩ := hnodup
  have hkept {rows : List ρ} (hkey : key row ∉ rows.map key) :
      rows.filter (fun r => key r ≠ key row) = rows :=
    List.filter_eq_self.2 fun r hr => decide_eq_true fun heq =>
      hkey (heq ▸ List.mem_map_of_mem hr)
  refine ⟨before, after, hrows, ?_⟩
  change t.rows.filter _ = _
  rw [hrows, List.filter_append, List.filter_cons_of_neg (by simp), hkept hbefore, hkept hafter]

end Table

/-- What a row of the store is about. -/
inductive Slot where
  | membership (role account : String)
  | roleRuleset (role entitlement target : String)
  | accountRuleset (account entitlement target : String)
deriving DecidableEq

def Membership.slot (m : Membership) : Slot := .membership m.role m.account

theorem Membership.slot_eq_iff {m : Membership} {role account : String} :
    m.slot = .membership role account ↔ m.parties = (role, account) := by
  rw [slot, parties, Slot.membership.injEq, Prod.mk.injEq]

def RoleRuleset.slot (r : RoleRuleset) : Slot := .roleRuleset r.role r.entitlement r.target

def AccountRuleset.slot (r : AccountRuleset) : Slot :=
  .accountRuleset r.account r.entitlement r.target

namespace Store

namespace Call

def seeks? : Call → Option Slot
  | .membership r a => some (.membership r a)
  | .roleRuleset r e target => some (.roleRuleset r e target)
  | .accountRuleset a e target => some (.accountRuleset a e target)
  | _ => none

def misses : (c : Call) → c.Reply → Bool
  | .membership .., m => m.isNone
  | .roleRuleset .., r => r.isNone
  | .accountRuleset .., r => r.isNone
  | _, _ => false

def adds? : Call → Option (Slot × String)
  | .putMembership m => some (m.slot, m.id)
  | .putRoleRuleset r => some (r.slot, r.id)
  | .putAccountRuleset r => some (r.slot, r.id)
  | _ => none

variable {c : Call} {s : Slot}

theorem not_isWrite_of_seeks? (h : c.seeks? = some s) : c.isWrite = false := by
  cases c <;> first | rfl | cases h

theorem isWrite_of_adds? {x : Slot × String} (h : c.adds? = some x) : c.isWrite = true := by
  cases c <;> first | rfl | cases h

end Call

namespace Tables

def entries (t : Tables) : List (Slot × String) :=
  t.memberships.rows.map (fun m => (m.slot, m.id)) ++
    (t.roleRulesets.rows.map (fun r => (r.slot, r.id)) ++
      t.accountRulesets.rows.map fun r => (r.slot, r.id))

def count (t : Tables) (s : Slot) : Nat :=
  t.entries.countP fun x => x.1 = s

variable {t : Tables} {s : Slot}

theorem mem_entries {x : Slot × String} : x ∈ t.entries ↔
    (∃ m ∈ t.memberships.rows, (m.slot, m.id) = x) ∨
      (∃ r ∈ t.roleRulesets.rows, (r.slot, r.id) = x) ∨
        ∃ r ∈ t.accountRulesets.rows, (r.slot, r.id) = x := by
  simp only [entries, List.mem_append, List.mem_map]

theorem count_eq_zero_iff : t.count s = 0 ↔ ∀ x ∈ t.entries, x.1 ≠ s := by
  simp only [count, List.countP_eq_zero, decide_eq_true_eq]

theorem count_membership_eq_zero_iff {role account : String} :
    t.count (.membership role account) = 0 ↔
      ∀ m ∈ t.memberships.rows, m.parties ≠ (role, account) := by
  rw [count_eq_zero_iff]
  constructor
  · intro h m hm hparties
    exact h _ (mem_entries.2 (.inl ⟨m, hm, rfl⟩)) (Membership.slot_eq_iff.2 hparties)
  · intro h x hx hslot
    obtain ⟨m, hm, rfl⟩ | ⟨r, -, rfl⟩ | ⟨r, -, rfl⟩ := mem_entries.1 hx
    · exact h m hm (Membership.slot_eq_iff.1 hslot)
    · cases hslot
    · cases hslot

theorem count_eq_zero_of_misses {c : Call} (hc : c.seeks? = some s)
    (h : c.misses (t.reply c) = true) : t.count s = 0 := by
  cases c with
  | membership role account =>
    obtain rfl := Option.some.inj hc
    have hnone := reply_membership_eq_none.1 (Option.isNone_iff_eq_none.1 h)
    exact count_membership_eq_zero_iff.2 hnone
  | roleRuleset role entitlement target =>
    obtain rfl := Option.some.inj hc
    have hnone := reply_roleRuleset_eq_none.1 (Option.isNone_iff_eq_none.1 h)
    refine count_eq_zero_iff.2 fun x hx hslot => ?_
    obtain ⟨m, -, rfl⟩ | ⟨r, hr, rfl⟩ | ⟨r, -, rfl⟩ := mem_entries.1 hx
    · cases hslot
    · exact hnone r hr (by simpa [RoleRuleset.slot, RoleRuleset.terms] using hslot)
    · cases hslot
  | accountRuleset account entitlement target =>
    obtain rfl := Option.some.inj hc
    have hnone := reply_accountRuleset_eq_none.1 (Option.isNone_iff_eq_none.1 h)
    refine count_eq_zero_iff.2 fun x hx hslot => ?_
    obtain ⟨m, -, rfl⟩ | ⟨r, -, rfl⟩ | ⟨r, hr, rfl⟩ := mem_entries.1 hx
    · cases hslot
    · cases hslot
    · exact hnone r hr (by simpa [AccountRuleset.slot, AccountRuleset.terms] using hslot)
  | _ => cases hc

theorem perm_entries_after {c : Call} {x : Slot × String} (hc : c.adds? = some x)
    (hnew : ∀ y ∈ t.entries, y.2 ≠ x.2) : (t.after c).entries.Perm (x :: t.entries) := by
  cases c with
  | putMembership m =>
    obtain rfl := Option.some.inj hc
    have hrows : (t.memberships.insert m).rows = t.memberships.rows ++ [m] :=
      Table.insert_new fun n hn => hnew _ (mem_entries.2 (.inl ⟨n, hn, rfl⟩))
    rw [after, entries, hrows, List.map_append, List.append_assoc]
    exact List.perm_middle
  | putRoleRuleset r =>
    obtain rfl := Option.some.inj hc
    have hrows : (t.roleRulesets.insert r).rows = t.roleRulesets.rows ++ [r] :=
      Table.insert_new fun n hn => hnew _ (mem_entries.2 (.inr (.inl ⟨n, hn, rfl⟩)))
    rw [after, entries, hrows, List.map_append, List.append_assoc]
    exact (List.perm_middle.append_left _).trans List.perm_middle
  | putAccountRuleset r =>
    obtain rfl := Option.some.inj hc
    have hrows : (t.accountRulesets.insert r).rows = t.accountRulesets.rows ++ [r] :=
      Table.insert_new fun n hn => hnew _ (mem_entries.2 (.inr (.inr ⟨n, hn, rfl⟩)))
    have hentries : (t.after (.putAccountRuleset r)).entries = t.entries ++ [(r.slot, r.id)] := by
      simp only [after, entries, hrows, List.map_append, List.append_assoc, List.map_singleton]
    rw [hentries]
    exact List.perm_append_singleton ..
  | _ => cases hc

theorem perm_entries_dropMembership {m : Membership} (hm : m ∈ t.memberships.rows) :
    t.entries.Perm ((m.slot, m.id) :: (t.after (.dropMembership m.id)).entries) := by
  obtain ⟨before, rest, hrows, herase⟩ := Table.exists_rows_erase hm
  have hafter : (t.after (.dropMembership m.id)).memberships.rows = before ++ rest := herase
  rw [entries, entries, hrows, hafter, List.map_append, List.map_cons, List.append_assoc,
    List.map_append, List.append_assoc]
  exact List.perm_middle

theorem entries_dropMembership_subset (id : String) :
    (t.after (.dropMembership id)).entries ⊆ t.entries := by
  intro x hx
  rw [mem_entries] at hx ⊢
  refine hx.imp_left ?_
  rintro ⟨m, hm, hslot⟩
  exact ⟨m, List.mem_of_mem_filter hm, hslot⟩

theorem dropMembership_eq_self {id : String} (h : t.reply (.dropMembership id) = false) :
    t.after (.dropMembership id) = t := by
  have hrows : t.memberships.erase id = t.memberships := by
    refine Table.filter_eq_self.2 fun m hm => decide_eq_true fun heq => ?_
    rw [reply, Bool.eq_false_iff] at h
    exact h (Table.contains_iff.2 ⟨m, hm, heq⟩)
  rw [after, hrows]

theorem count_of_perm {u : Tables} {x : Slot × String} (h : u.entries.Perm (x :: t.entries)) :
    u.count s = t.count s + if x.1 = s then 1 else 0 := by
  rw [count, h.countP_eq, List.countP_cons]
  simp only [decide_eq_true_eq]
  rfl

end Tables

end Store

namespace Operation

/-- What a grant adds a row about and a revocation of a membership removes one about. -/
def slot? : Operation → Option Slot
  | .grantMembership role account | .revokeMembership role account =>
    some (.membership role account)
  | .grantRoleRuleset role entitlement target .. => some (.roleRuleset role entitlement target)
  | .grantAccountRuleset account entitlement target _ =>
    some (.accountRuleset account entitlement target)
  | _ => none

theorem count_revokeMembership {cache : Option GrantCache} {role account : String} {w : World}
    (hok : (((revokeMembership role account).run cache).run w).1 = .ok ()) :
    w.ledger.tables.count (.membership role account) =
      (((revokeMembership role account).run cache).run w).2.ledger.tables.count
        (.membership role account) + 1 := by
  obtain ⟨hrefuses, htables⟩ := run_plan_ok hok
  obtain ⟨m, hm⟩ := Plan.exists_of_demanding hrefuses
  obtain ⟨hmem, hparties⟩ := Tables.of_reply_membership hm
  rw [plan, Plan.reading, hm] at htables
  rw [htables, Tables.count_of_perm (Tables.perm_entries_dropMembership hmem),
    if_pos (Membership.slot_eq_iff.2 hparties)]
  rfl

end Operation

end AccessControl
