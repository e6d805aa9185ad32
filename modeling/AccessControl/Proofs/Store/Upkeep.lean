import AccessControl.Proofs.Cache.Wire
import AccessControl.Proofs.Store.Reachability
import AccessControl.World

/-!
The upkeep of the tables: identifiers that are still to be made are in no table, so that a new row
stands beside the others. What an account can reach changes for those accounts only that a change
is about.
-/

namespace AccessControl

open Keyed (key)

theorem identifier_eq (n : Nat) :
    identifier n = "00000000-0000-4000-8000-" ++ String.ofList (Text.padded 12 n) := by
  have hpadded : Text.padded 12 n =
      List.replicate (12 - (toString n).toList.length) '0' ++ (toString n).toList := by
    rw [Text.padded, Int.toNat_natCast]
  rw [hpadded]
  delta identifier
  rfl

theorem identifier_injective : Function.Injective identifier := by
  intro m n h
  have hpadded : Text.padded 12 m = Text.padded 12 n := by
    rwa [identifier_eq, identifier_eq, String.append_right_inj, String.ofList_inj] at h
  have hnat := congrArg Text.nat? hpadded
  rw [Text.nat?_padded, Text.nat?_padded, Int.toNat_natCast, Int.toNat_natCast] at hnat
  exact Option.some.inj hnat

def IsMade (n : Nat) (id : String) : Prop := ∀ i, n ≤ i → id ≠ identifier i

theorem IsMade.mono {m n : Nat} {id : String} (h : IsMade m id) (hmn : m ≤ n) : IsMade n id :=
  fun i hi => h i (hmn.trans hi)

theorem isMade_identifier (n : Nat) : IsMade (n + 1) (identifier n) := by
  intro i hi h
  have := identifier_injective h
  omega

namespace Table

variable {ρ : Type} [Keyed ρ]

theorem mem_upsert {row s : ρ} {rows : List ρ} (h : s ∈ upsert row rows) :
    s = row ∨ s ∈ rows := by
  induction rows with
  | nil => exact .inl (List.mem_singleton.1 h)
  | cons r rest ih =>
    rw [upsert] at h
    split at h
    · rcases List.mem_cons.1 h with h | h
      · exact .inl h
      · exact .inr (List.mem_cons_of_mem _ h)
    · rcases List.mem_cons.1 h with rfl | h
      · exact .inr List.mem_cons_self
      · exact (ih h).imp_right (List.mem_cons_of_mem _)

theorem mem_insert {t : Table ρ} {row s : ρ} (h : s ∈ (t.insert row).rows) :
    s = row ∨ s ∈ t.rows :=
  mem_upsert h

theorem insert_new {t : Table ρ} {row : ρ} (h : ∀ r ∈ t.rows, key r ≠ key row) :
    (t.insert row).rows = t.rows ++ [row] := by
  change upsert row t.rows = _
  revert h
  induction t.rows with
  | nil => exact fun _ => rfl
  | cons r rest ih =>
    intro h
    rw [upsert, if_neg (h r List.mem_cons_self), ih fun s hs => h s (List.mem_cons_of_mem _ hs)]
    rfl

theorem contains_insert (t : Table ρ) (row : ρ) (k : String) :
    (t.insert row).contains k = true ↔ k = key row ∨ t.contains k = true := by
  have h : k ∈ (upsert row t.rows).map key ↔ k = key row ∨ k ∈ t.rows.map key :=
    mem_map_key_upsert
  rw [contains_iff, contains_iff]
  rw [List.mem_map, List.mem_map] at h
  exact h

end Table

namespace Store

/-- A row that a call stores has an identifier that was made, and a time that can be written. -/
def Call.IsKept (n : Nat) : Call → Prop
  | .putRole r => IsMade n r.id
  | .putMembership m => IsMade n m.id ∧ IsMade n m.role
  | .putRoleRuleset r => IsMade n r.id ∧ r.createdAt.IsDated
  | .putAccountRuleset r => IsMade n r.id ∧ r.createdAt.IsDated
  | _ => True

/-- The tables as they are when `n` identifiers were made. -/
structure Tables.IsKept (t : Tables) (n : Nat) : Prop where
  roles : ∀ r ∈ t.roles.rows, IsMade n r.id
  memberships : ∀ m ∈ t.memberships.rows, IsMade n m.id ∧ IsMade n m.role
  roleRulesets : ∀ r ∈ t.roleRulesets.rows, IsMade n r.id ∧ r.createdAt.IsDated
  accountRulesets : ∀ r ∈ t.accountRulesets.rows, IsMade n r.id ∧ r.createdAt.IsDated

namespace Tables

theorem IsKept.mono {t : Tables} {m n : Nat} (h : t.IsKept m) (hmn : m ≤ n) : t.IsKept n where
  roles r hr := (h.roles r hr).mono hmn
  memberships r hr := ⟨(h.memberships r hr).1.mono hmn, (h.memberships r hr).2.mono hmn⟩
  roleRulesets r hr := ⟨(h.roleRulesets r hr).1.mono hmn, (h.roleRulesets r hr).2⟩
  accountRulesets r hr := ⟨(h.accountRulesets r hr).1.mono hmn, (h.accountRulesets r hr).2⟩

theorem IsKept.after {t : Tables} {n : Nat} (h : t.IsKept n) {c : Call} (hc : c.IsKept n) :
    (t.after c).IsKept n := by
  cases c with
  | putRole r =>
    refine { h with roles := fun s hs => ?_ }
    rcases Table.mem_insert hs with rfl | hs
    · exact hc
    · exact h.roles s hs
  | putMembership m =>
    refine { h with memberships := fun s hs => ?_ }
    rcases Table.mem_insert hs with rfl | hs
    · exact hc
    · exact h.memberships s hs
  | putRoleRuleset r =>
    refine { h with roleRulesets := fun s hs => ?_ }
    rcases Table.mem_insert hs with rfl | hs
    · exact hc
    · exact h.roleRulesets s hs
  | putAccountRuleset r =>
    refine { h with accountRulesets := fun s hs => ?_ }
    rcases Table.mem_insert hs with rfl | hs
    · exact hc
    · exact h.accountRulesets s hs
  | dropRole id => exact { h with roles := fun s hs => h.roles s (List.mem_of_mem_filter hs) }
  | dropMembership id =>
    exact { h with memberships := fun s hs => h.memberships s (List.mem_of_mem_filter hs) }
  | dropMemberships role account =>
    exact { h with memberships := fun s hs => h.memberships s (List.mem_of_mem_filter hs) }
  | dropRoleRuleset id =>
    exact { h with roleRulesets := fun s hs => h.roleRulesets s (List.mem_of_mem_filter hs) }
  | dropRulesetsOfRole role =>
    exact { h with roleRulesets := fun s hs => h.roleRulesets s (List.mem_of_mem_filter hs) }
  | dropAccountRuleset id =>
    exact { h with accountRulesets := fun s hs => h.accountRulesets s (List.mem_of_mem_filter hs) }
  | dropRulesetsOfAccount account =>
    exact { h with accountRulesets := fun s hs => h.accountRulesets s (List.mem_of_mem_filter hs) }
  | putEntitlement e => exact { h with }
  | _ => exact h

/-! What a change leaves reachable. -/

def membersOf (t : Tables) (role : String) : List String :=
  (t.reply (.membersOf role)).map Membership.account

theorem mem_membersOf {t : Tables} {role account : String} :
    account ∈ t.membersOf role ↔ ∃ m ∈ t.memberships.rows, m.role = role ∧ m.account = account := by
  simp only [membersOf, reply, List.mem_map, List.mem_filter, decide_eq_true_eq, and_assoc]

theorem holds_eq_true_iff {t : Tables} {account role : String} :
    t.holds account role = true ↔ t.roles.contains role = true ∧ account ∈ t.membersOf role := by
  rw [holds, Bool.and_eq_true, List.any_eq_true, mem_membersOf]
  simp only [Bool.and_eq_true, decide_eq_true_eq]

theorem reachable_congr {t u : Tables} {account : String}
    (hrole : u.roleRulesets.rows.filter (fun r => u.holds account r.role) =
      t.roleRulesets.rows.filter fun r => t.holds account r.role)
    (haccount : u.accountRulesets.rows.filter (·.account = account) =
      t.accountRulesets.rows.filter (·.account = account)) :
    u.reachable account = t.reachable account := by
  rw [reachable, reachable, hrole, haccount]

theorem reachable_of_holds {t u : Tables} {account : String}
    (hroles : u.roleRulesets = t.roleRulesets) (haccounts : u.accountRulesets = t.accountRulesets)
    (h : ∀ role, u.holds account role = true ↔ t.holds account role = true) :
    u.reachable account = t.reachable account := by
  have hholds (role : String) : u.holds account role = t.holds account role :=
    Bool.eq_iff_iff.2 (h role)
  refine reachable_congr ?_ (by rw [haccounts])
  simp only [hroles, hholds]

theorem filter_filter_of_imp {ρ : Type} {p q : ρ → Bool} {rows : List ρ}
    (h : ∀ r ∈ rows, q r = true → p r = true) : (rows.filter p).filter q = rows.filter q := by
  rw [List.filter_filter]
  refine List.filter_congr fun r hr => ?_
  rw [Bool.eq_iff_iff, Bool.and_eq_true]
  exact ⟨And.left, fun hq => ⟨hq, h r hr hq⟩⟩

theorem reachable_putRole {t : Tables} {r : Role}
    (h : t.roles.contains r.id = true ∨ ∀ m ∈ t.memberships.rows, m.role ≠ r.id)
    (account : String) : (t.after (.putRole r)).reachable account = t.reachable account := by
  refine reachable_of_holds rfl rfl fun role => ?_
  rw [holds_eq_true_iff, holds_eq_true_iff]
  change (t.roles.insert r).contains role = true ∧ account ∈ t.membersOf role ↔ _
  rw [Table.contains_insert]
  constructor
  · rintro ⟨rfl | hrole, hm⟩
    · refine ⟨h.resolve_right fun hne => ?_, hm⟩
      obtain ⟨m, hmem, hr, -⟩ := mem_membersOf.1 hm
      exact hne m hmem hr
    · exact ⟨hrole, hm⟩
  · rintro ⟨hrole, hm⟩
    exact ⟨.inr hrole, hm⟩

theorem reachable_putMembership {t : Tables} {m : Membership}
    (hnew : ∀ s ∈ t.memberships.rows, s.id ≠ m.id) {account : String} (ha : account ≠ m.account) :
    (t.after (.putMembership m)).reachable account = t.reachable account := by
  refine reachable_of_holds rfl rfl fun role => ?_
  have hrows : (t.after (.putMembership m)).memberships.rows = t.memberships.rows ++ [m] :=
    Table.insert_new hnew
  rw [holds_eq_true_iff, holds_eq_true_iff, mem_membersOf, mem_membersOf, hrows]
  refine and_congr_right fun _ => ?_
  constructor
  · rintro ⟨s, hs, hr, hsa⟩
    rcases List.mem_append.1 hs with hs | hs
    · exact ⟨s, hs, hr, hsa⟩
    · obtain rfl := List.mem_singleton.1 hs
      exact absurd hsa.symm ha
  · rintro ⟨s, hs, hr, hsa⟩
    exact ⟨s, List.mem_append_left _ hs, hr, hsa⟩

theorem reachable_dropMembership {t : Tables} {m : Membership} (hm : m ∈ t.memberships.rows)
    {account : String} (ha : account ≠ m.account) :
    (t.after (.dropMembership m.id)).reachable account = t.reachable account := by
  refine reachable_of_holds rfl rfl fun role => ?_
  rw [holds_eq_true_iff, holds_eq_true_iff, mem_membersOf, mem_membersOf]
  refine and_congr_right fun _ => ?_
  constructor
  · rintro ⟨s, hs, hr, hsa⟩
    exact ⟨s, List.mem_of_mem_filter hs, hr, hsa⟩
  · rintro ⟨s, hs, hr, hsa⟩
    refine ⟨s, List.mem_filter.2 ⟨hs, decide_eq_true fun hk => ?_⟩, hr, hsa⟩
    rw [Table.eq_of_key_eq hs hm hk] at hsa
    exact ha hsa.symm

theorem reachable_putRoleRuleset {t : Tables} {r : RoleRuleset}
    (hnew : ∀ s ∈ t.roleRulesets.rows, s.id ≠ r.id) {account : String}
    (ha : account ∉ t.membersOf r.role) :
    (t.after (.putRoleRuleset r)).reachable account = t.reachable account := by
  have hrows : (t.after (.putRoleRuleset r)).roleRulesets.rows = t.roleRulesets.rows ++ [r] :=
    Table.insert_new hnew
  refine reachable_congr ?_ rfl
  rw [hrows, List.filter_append, List.filter_cons_of_neg, List.filter_nil, List.append_nil]
  · rfl
  · exact fun h => ha (holds_eq_true_iff.1 h).2

theorem reachable_dropRoleRuleset {t : Tables} {r : RoleRuleset} (hr : r ∈ t.roleRulesets.rows)
    {account : String} (ha : account ∉ t.membersOf r.role) :
    (t.after (.dropRoleRuleset r.id)).reachable account = t.reachable account := by
  refine reachable_congr (filter_filter_of_imp fun s hs h => decide_eq_true fun hk => ?_) rfl
  rw [Table.eq_of_key_eq hs hr hk] at h
  exact ha (holds_eq_true_iff.1 h).2

theorem reachable_putAccountRuleset {t : Tables} {r : AccountRuleset}
    (hnew : ∀ s ∈ t.accountRulesets.rows, s.id ≠ r.id) {account : String}
    (ha : account ≠ r.account) :
    (t.after (.putAccountRuleset r)).reachable account = t.reachable account := by
  have hrows : (t.after (.putAccountRuleset r)).accountRulesets.rows =
      t.accountRulesets.rows ++ [r] :=
    Table.insert_new hnew
  refine reachable_congr rfl ?_
  rw [hrows, List.filter_append, List.filter_cons_of_neg, List.filter_nil, List.append_nil]
  exact fun h => ha (of_decide_eq_true h).symm

theorem reachable_dropAccountRuleset {t : Tables} {r : AccountRuleset}
    (hr : r ∈ t.accountRulesets.rows) {account : String} (ha : account ≠ r.account) :
    (t.after (.dropAccountRuleset r.id)).reachable account = t.reachable account := by
  refine reachable_congr rfl (filter_filter_of_imp fun s hs h => decide_eq_true fun hk => ?_)
  rw [Table.eq_of_key_eq hs hr hk] at h
  exact ha (of_decide_eq_true h).symm

theorem reachable_dropRulesetsOfRole {t : Tables} {role account : String}
    (ha : account ∉ t.membersOf role) :
    (t.after (.dropRulesetsOfRole role)).reachable account = t.reachable account := by
  refine reachable_congr (filter_filter_of_imp fun r _ h => decide_eq_true fun hr => ?_) rfl
  rw [← hr] at ha
  exact ha (holds_eq_true_iff.1 h).2

theorem reachable_dropMembershipsOfRole {t : Tables} {role account : String}
    (ha : account ∉ t.membersOf role) :
    (t.after (.dropMemberships (some role) none)).reachable account = t.reachable account := by
  refine reachable_of_holds rfl rfl fun other => ?_
  rw [holds_eq_true_iff, holds_eq_true_iff, mem_membersOf, mem_membersOf]
  refine and_congr_right fun _ => ?_
  constructor
  · rintro ⟨m, hm, h⟩
    exact ⟨m, List.mem_of_mem_filter hm, h⟩
  · rintro ⟨m, hm, hmr, hma⟩
    refine ⟨m, List.mem_filter.2 ⟨hm, ?_⟩, hmr, hma⟩
    have hne : m.role ≠ role := fun h => ha (mem_membersOf.2 ⟨m, hm, h, hma⟩)
    simp [removedMembership, hne]

theorem reachable_eraseRole {t : Tables} {role account : String} (ha : account ∉ t.membersOf role) :
    (t.after (.dropRole role)).reachable account = t.reachable account := by
  refine reachable_of_holds rfl rfl fun other => ?_
  rw [holds_eq_true_iff, holds_eq_true_iff, Table.contains_iff, Table.contains_iff]
  refine and_congr_left fun hm => ?_
  constructor
  · rintro ⟨r, hr, hk⟩
    exact ⟨r, List.mem_of_mem_filter hr, hk⟩
  · rintro ⟨r, hr, rfl⟩
    refine ⟨r, List.mem_filter.2 ⟨hr, decide_eq_true ?_⟩, rfl⟩
    rintro rfl
    exact ha hm

theorem not_mem_membersOf_dropMemberships {t : Tables} {role account : String}
    (ha : account ∉ t.membersOf role) (r a : Option String) :
    account ∉ (t.after (.dropMemberships r a)).membersOf role := by
  rw [mem_membersOf] at ha ⊢
  rintro ⟨m, hm, h⟩
  exact ha ⟨m, List.mem_of_mem_filter hm, h⟩

theorem reachable_dropRole {t : Tables} {role account : String} (ha : account ∉ t.membersOf role) :
    (((t.after (.dropRulesetsOfRole role)).after (.dropMemberships (some role) none)).after
      (.dropRole role)).reachable account = t.reachable account := by
  have hrulesets : account ∉ (t.after (.dropRulesetsOfRole role)).membersOf role := ha
  have hmemberships := not_mem_membersOf_dropMemberships hrulesets (some role) none
  exact (reachable_eraseRole hmemberships).trans
    ((reachable_dropMembershipsOfRole hrulesets).trans (reachable_dropRulesetsOfRole ha))

theorem reachable_dropMemberships {t : Tables} {account other : String} (ha : other ≠ account) :
    (t.after (.dropMemberships none (some account))).reachable other = t.reachable other := by
  refine reachable_of_holds rfl rfl fun role => ?_
  rw [holds_eq_true_iff, holds_eq_true_iff, mem_membersOf, mem_membersOf]
  refine and_congr_right fun _ => ?_
  constructor
  · rintro ⟨m, hm, h⟩
    exact ⟨m, List.mem_of_mem_filter hm, h⟩
  · rintro ⟨m, hm, hmr, rfl⟩
    refine ⟨m, List.mem_filter.2 ⟨hm, ?_⟩, hmr, rfl⟩
    simp [removedMembership, ha]

theorem reachable_dropRulesetsOfAccount {t : Tables} {account other : String}
    (ha : other ≠ account) :
    (t.after (.dropRulesetsOfAccount account)).reachable other = t.reachable other := by
  refine reachable_congr rfl (filter_filter_of_imp fun r _ h => decide_eq_true fun hr => ?_)
  exact ha ((of_decide_eq_true h).symm.trans hr)

theorem reachable_forget {t : Tables} {account other : String} (ha : other ≠ account) :
    ((t.after (.dropMemberships none (some account))).after
      (.dropRulesetsOfAccount account)).reachable other = t.reachable other :=
  (reachable_dropRulesetsOfAccount ha).trans (reachable_dropMemberships ha)

theorem IsKept.isDated {t : Tables} {n : Nat} (h : t.IsKept n) (account : String) :
    (t.reachable account).IsDated where
  role r hr := (h.roleRulesets r (List.mem_of_mem_filter hr)).2
  account r hr := (h.accountRulesets r (List.mem_of_mem_filter hr)).2

end Tables

end Store

end AccessControl
