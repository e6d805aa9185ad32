import AccessControl.Proofs.Administration.Revocation
import AccessControl.Proofs.Cache.Shelves
import AccessControl.Proofs.Entitlements.Course
import AccessControl.Proofs.Program.Heeding
import AccessControl.Proofs.Store.Integrity

/-!
What changes the tables sweeps the cache: it changes what belongs on some shelves only, and drops
what they hold once it has changed the tables for the last time.
-/

namespace AccessControl

open Program Administration Store

/-- What is on record while something changes the tables. -/
structure Sweep where
  tables : Tables
  minted : Nat
  /-- The shelves that may hold what does not belong there any more. -/
  stale : Shelf → Prop

namespace Sweep

def law (swept : Shelf → Prop) : Law Sweep where
  allows g
    | .store c => ∀ s, ¬ swept s → s.Same g.tables (g.tables.after c)
    | .cache (.delete _) => True
    | .cache _ | .database _ => False
    | _ => True
  expects g
    | .store c, r => r = .ok (g.tables.reply c)
    | .mint, r => r = identifier g.minted
    | .now, r => r.IsDated
    | _, _ => True
  record g
    | .store c, _ => if c.isWrite then ⟨g.tables.after c, g.minted, swept⟩ else g
    | .cache (.delete keys), _ => { g with stale := fun s => g.stale s ∧ s.key ∉ keys }
    | .mint, _ => { g with minted := g.minted + 1 }
    | _, _ => g

structure IsFit (g : Sweep) : Prop where
  tables : g.tables.IsKept g.minted
  entitlements : ∀ e ∈ g.tables.entitlements.rows, e.IsWritable

structure IsClean (g : Sweep) : Prop extends g.IsFit where
  stale : ∀ s, ¬ g.stale s

theorem IsFit.minted {g : Sweep} (h : g.IsFit) : IsFit { g with minted := g.minted + 1 } :=
  ⟨h.tables.mono (Nat.le_succ _), h.entitlements⟩

theorem IsClean.minted {g : Sweep} (h : g.IsClean) : IsClean { g with minted := g.minted + 1 } :=
  ⟨h.toIsFit.minted, h.stale⟩

variable {swept : Shelf → Prop} {α β : Type} {A : α → Sweep → Prop} {E : Sweep → Prop} {g : Sweep}

theorem ignores {e : Effect} (he : e.isQuiet = true) : (law swept).Ignores e := by
  intro g
  cases e with
  | store | cache | database | publish | mint => cases he
  | _ => exact ⟨trivial, fun _ => rfl⟩

theorem heeds_call {c : Call} {f : c.Reply → Program α}
    (hc : ∀ s, ¬ swept s → s.Same g.tables (g.tables.after c))
    (hf : (f (g.tables.reply c)).Heeds (law swept) A E
      (if c.isWrite then ⟨g.tables.after c, g.minted, swept⟩ else g)) :
    (call c >>= f).Heeds (law swept) A E g := by
  refine heeds_perform hc ?_
  rintro _ rfl
  exact hf

theorem heeds_read {c : Call} {f : c.Reply → Program α} (hc : c.isWrite = false)
    (hf : (f (g.tables.reply c)).Heeds (law swept) A E g) :
    (call c >>= f).Heeds (law swept) A E g := by
  refine heeds_call (fun s _ d _ => by rw [Tables.after_eq_self hc]) ?_
  rwa [hc, if_neg Bool.false_ne_true]

theorem heeds_write {c : Call} {f : c.Reply → Program α} (hc : c.isWrite = true)
    (hs : ∀ s, ¬ swept s → s.Same g.tables (g.tables.after c))
    (hf : (f (g.tables.reply c)).Heeds (law swept) A E ⟨g.tables.after c, g.minted, swept⟩) :
    (call c >>= f).Heeds (law swept) A E g := by
  refine heeds_call hs ?_
  rwa [if_pos hc]

theorem heeds_mint {f : String → Program α}
    (hf : (f (identifier g.minted)).Heeds (law swept) A E { g with minted := g.minted + 1 }) :
    (perform .mint >>= f).Heeds (law swept) A E g := by
  refine heeds_perform trivial ?_
  rintro _ rfl
  exact hf

theorem heeds_now {f : Instant → Program α}
    (hf : ∀ now, now.IsDated → (f now).Heeds (law swept) A E g) :
    (perform .now >>= f).Heeds (law swept) A E g :=
  heeds_perform trivial hf

theorem heeds_log {level : Log.Level} {logger message : String} {fields : Value.Fields}
    {f : Unit → Program α} (hf : (f ()).Heeds (law swept) A E g) :
    (log level logger message fields >>= f).Heeds (law swept) A E g :=
  heeds_ignored (ignores rfl) fun _ _ => hf

theorem heeds_storing {p : Program α} (hp : p.Heeds (law swept) A E g)
    (logger operation : String) : (storing logger operation p).Heeds (law swept) A E g :=
  hp.storing (fun _ => ignores rfl) logger operation

theorem heeds_stored {c : Call} {f : c.Reply → Program α} {logger operation : String}
    (hc : ∀ s, ¬ swept s → s.Same g.tables (g.tables.after c))
    (hf : (f (g.tables.reply c)).Heeds (law swept) A E
      (if c.isWrite then ⟨g.tables.after c, g.minted, swept⟩ else g)) :
    (storing logger operation (call c) >>= f).Heeds (law swept) A E g := by
  have hcall : (call c).Heeds (law swept)
      (fun r h => r = g.tables.reply c ∧
        h = if c.isWrite then ⟨g.tables.after c, g.minted, swept⟩ else g) E g := by
    rw [← bind_pure (call c)]
    exact heeds_call hc (heeds_pure ⟨rfl, rfl⟩)
  refine (heeds_storing hcall logger operation).bind ?_
  rintro r h ⟨rfl, rfl⟩
  exact hf

theorem heeds_found {c : Call} {f : c.Reply → Program α} {logger operation : String}
    (hc : c.isWrite = false) (hf : (f (g.tables.reply c)).Heeds (law swept) A E g) :
    (storing logger operation (call c) >>= f).Heeds (law swept) A E g := by
  refine heeds_stored (fun s _ d _ => by rw [Tables.after_eq_self hc]) ?_
  rwa [hc, if_neg Bool.false_ne_true]

theorem heeds_saved {c : Call} {f : c.Reply → Program α} {logger operation : String}
    (hc : c.isWrite = true) (hs : ∀ s, ¬ swept s → s.Same g.tables (g.tables.after c))
    (hf : (f (g.tables.reply c)).Heeds (law swept) A E ⟨g.tables.after c, g.minted, swept⟩) :
    (storing logger operation (call c) >>= f).Heeds (law swept) A E g := by
  refine heeds_stored hs ?_
  rwa [if_pos hc]

theorem heeds_demand {id : String} {f : Role → Program α} (hg : E g)
    (hf : ∀ r, g.tables.roles.get? id = some r → (f r).Heeds (law swept) A E g) :
    (Role.demand id >>= f).Heeds (law swept) A E g := by
  rw [Role.demand, Role.find?, bind_assoc]
  refine heeds_found rfl ?_
  cases hr : g.tables.reply (.role id) with
  | none => exact heeds_fail hg
  | some r => exact hf r hr

theorem heeds_demandEntitlement {name : String} {f : Entitlement → Program α} (hg : E g)
    (hf : ∀ e, (f e).Heeds (law swept) A E g) :
    (Entitlement.demand name >>= f).Heeds (law swept) A E g := by
  rw [Entitlement.demand, Entitlements.find?, bind_assoc]
  refine heeds_found rfl ?_
  cases g.tables.reply (.entitlement name) with
  | none => exact heeds_fail hg
  | some e => exact hf e

/-! The accounts whose shelves are swept. -/

def ofAccounts (accounts : List String) : Shelf → Prop
  | .rows a => a ∈ accounts
  | .table => False

theorem same_of_reachable {accounts : List String} {t u : Tables}
    (he : u.entitlements = t.entitlements)
    (hr : ∀ a, a ∉ accounts → u.reachable a = t.reachable a) (s : Shelf)
    (hs : ¬ ofAccounts accounts s) : s.Same t u := by
  cases s with
  | rows a => exact Shelf.same_rows (hr a hs)
  | table => exact Shelf.same_table he

/-- The rows can be written, and only the shelves of some accounts may be stale. -/
structure IsAbout (accounts : List String) (g : Sweep) : Prop extends g.IsFit where
  stale : ∀ s, g.stale s → ofAccounts accounts s

theorem IsClean.isAbout (h : g.IsClean) (accounts : List String) : g.IsAbout accounts :=
  ⟨h.toIsFit, fun s hs => absurd hs (h.stale s)⟩

theorem IsFit.after (h : g.IsFit) (accounts : List String) {c : Call} (hc : c.IsKept g.minted)
    (he : (g.tables.after c).entitlements = g.tables.entitlements) :
    IsAbout accounts ⟨g.tables.after c, g.minted, ofAccounts accounts⟩ where
  tables := h.tables.after hc
  entitlements := by
    rw [he]
    exact h.entitlements
  stale _ := id

variable {accounts : List String}

theorem heeds_dropped (key : String) (tally : Cache.Tally) (message : String)
    (fields : Value.Fields) :
    (GrantCache.succeeded (.delete [key]) tally message fields).Heeds (law swept)
      (fun _ h => h = { g with stale := fun s => g.stale s ∧ s.key ∉ [key] }) E g := by
  refine heeds_perform trivial fun x _ => ?_
  cases x with
  | error reason => exact heeds_log rfl
  | ok n => exact heeds_ignored (ignores rfl) fun _ _ => rfl

theorem heeds_dropAccounts (hg : g.IsAbout accounts) :
    (GrantCache.dropAccounts accounts).Heeds (law swept) (fun _ => IsClean) E g := by
  -- what may be stale shrinks with the names that are still to come
  have hdrop (names : List String) {g : Sweep} (hg : g.IsAbout names) :
      (names.forM fun a => do let _ ← GrantCache.dropAccount a).Heeds (law swept)
        (fun _ => IsClean) E g := by
    induction names generalizing g with
    | nil => exact ⟨hg.toIsFit, fun s hs => by cases s <;> cases hg.stale _ hs⟩
    | cons a names ih =>
      refine Heeds.bind ((heeds_dropped _ _ _ _).bind ?_) fun _ _ h => ih h
      rintro _ _ rfl
      refine heeds_pure ⟨⟨hg.tables, hg.entitlements⟩, fun s hs => ?_⟩
      have hmem := hg.stale s hs.1
      cases s with
      | table => exact hmem
      | rows b =>
        refine (List.mem_cons.1 hmem).resolve_left ?_
        rintro rfl
        exact hs.2 List.mem_cons_self
  refine hdrop _ ⟨hg.toIsFit, fun s hs => ?_⟩
  have hmem := hg.stale s hs
  cases s with
  | table => exact hmem
  | rows a => exact Text.mem_members.2 hmem

/-! The operations of the administration. -/

section Operations

variable (hg : g.IsClean)

include hg

theorem heeds_createRole (name description : String) :
    (Role.create name description).Heeds (law (ofAccounts [])) (fun _ => IsAbout []) IsClean g := by
  rw [Role.create]
  split
  · exact heeds_fail hg
  · refine heeds_mint (heeds_now fun now _ => ?_)
    refine heeds_saved rfl (same_of_reachable rfl fun a _ => ?_) (heeds_log ?_)
    · exact Tables.reachable_putRole (.inr fun m hm => (hg.tables.memberships m hm).2 _ le_rfl) a
    · exact heeds_pure (hg.toIsFit.minted.after _ (isMade_identifier _) rfl)

theorem heeds_changeRole (id : String) (name description : Option String) :
    (Role.change id name description).Heeds (law (ofAccounts [])) (fun _ => IsAbout []) IsClean
      g := by
  rw [Role.change]
  refine heeds_demand hg fun r hr => ?_
  obtain ⟨hmem, rfl⟩ := Table.get?_eq_some_iff.1 hr
  split
  · exact heeds_fail hg
  · refine heeds_now fun now _ => ?_
    refine heeds_saved rfl (same_of_reachable rfl fun a _ => ?_) (heeds_log ?_)
    · exact Tables.reachable_putRole (r := ⟨r.id, _, _, r.createdAt, now⟩)
        (.inl (Table.contains_iff.2 ⟨r, hmem, rfl⟩)) a
    · exact heeds_pure (hg.toIsFit.after _ (hg.tables.roles r hmem) rfl)

theorem heeds_deleteRole (id : String) :
    (Operation.change (.deleteRole id)).Heeds
      (law (ofAccounts (g.tables.membersOf id)))
      (fun u h => u.accounts = g.tables.membersOf id ∧ h.IsAbout (g.tables.membersOf id))
      IsClean g := by
  refine heeds_demand hg fun r _ => Heeds.bind
    (A := fun accounts (h : Sweep) =>
      accounts = g.tables.membersOf id ∧ h.IsAbout (g.tables.membersOf id))
    (heeds_storing ?_ _ _) fun accounts h hh => heeds_pure hh
  rw [Role.accounts, Store.removeRole]
  simp only [bind_assoc, pure_bind]
  have hrulesets := hg.toIsFit.after (g.tables.membersOf id)
    (c := .dropRulesetsOfRole id) trivial rfl
  have hmemberships := hrulesets.toIsFit.after (g.tables.membersOf id)
    (c := .dropMemberships (some id) none) trivial rfl
  refine heeds_read rfl (heeds_read rfl ?_)
  -- three writes, and a resolution may read between any two of them: so each is judged by itself
  refine heeds_write rfl (same_of_reachable rfl fun a ha => ?_) ?_
  · exact Tables.reachable_dropRulesetsOfRole ha
  refine heeds_write rfl (same_of_reachable rfl fun a ha => ?_) ?_
  · exact Tables.reachable_dropMembershipsOfRole (t := g.tables.after (.dropRulesetsOfRole id)) ha
  refine heeds_write rfl (same_of_reachable rfl fun a ha => ?_) ?_
  · have hmembers : a ∉ (g.tables.after (.dropRulesetsOfRole id)).membersOf id := ha
    exact Tables.reachable_eraseRole
      (Tables.not_mem_membersOf_dropMemberships hmembers (some id) none)
  · exact heeds_pure ⟨rfl, hmemberships.toIsFit.after _ (c := .dropRole id) trivial rfl⟩

theorem heeds_grantMembership (role account : String) :
    (Operation.change (.grantMembership role account)).Heeds
      (law (ofAccounts (Operation.touched g.tables (.grantMembership role account))))
      (fun u h => u.accounts = Operation.touched g.tables (.grantMembership role account) ∧
        h.IsAbout (Operation.touched g.tables (.grantMembership role account))) IsClean g := by
  refine heeds_demand hg fun r hr => ?_
  obtain ⟨hmem, rfl⟩ := Table.get?_eq_some_iff.1 hr
  rw [Operation.touched]
  refine Heeds.bind (A := fun x (h : Sweep) =>
    (if (g.tables.reply (.membership r.id account)).isSome then [] else [account]) =
      (if x.2 then [account] else []) ∧ h.IsAbout (if x.2 then [account] else []))
    (heeds_storing ?_ _ _) fun x h hh => ?_
  · refine heeds_read rfl ?_
    cases hm : g.tables.reply (.membership r.id account) with
    | some m => exact heeds_pure ⟨rfl, hg.isAbout []⟩
    | none =>
      refine heeds_mint (heeds_now fun now _ => ?_)
      refine heeds_write rfl (same_of_reachable rfl fun a ha => ?_) ?_
      · exact Tables.reachable_putMembership (fun s hs => (hg.tables.memberships s hs).1 _ le_rfl)
          (List.mem_singleton.not.1 ha)
      · refine heeds_pure ⟨rfl, hg.toIsFit.minted.after _ ⟨isMade_identifier _, ?_⟩ rfl⟩
        exact (hg.tables.roles r hmem).mono (Nat.le_succ _)
  · rcases x with ⟨m, _ | _⟩
    · exact heeds_pure ⟨hh.1.symm, hh.1 ▸ hh.2⟩
    · exact heeds_pure ⟨hh.1.symm, hh.1 ▸ hh.2⟩

theorem heeds_revokeMembership (role account : String) :
    (Operation.change (.revokeMembership role account)).Heeds
      (law (ofAccounts [account])) (fun u h => u.accounts = [account] ∧ h.IsAbout [account])
      IsClean g := by
  refine Heeds.bind (A := fun _ (h : Sweep) => h.IsAbout [account]) (heeds_storing ?_ _ _)
    fun _ _ hh => heeds_pure ⟨rfl, hh⟩
  refine heeds_read rfl ?_
  cases hm : g.tables.reply (.membership role account) with
  | none => exact heeds_fail hg
  | some m =>
    obtain ⟨hmem, hparties⟩ := Tables.of_reply_membership hm
    obtain rfl : m.account = account := congrArg Prod.snd hparties
    refine heeds_write rfl (same_of_reachable rfl fun a ha => ?_)
      (heeds_pure (hg.toIsFit.after _ trivial rfl))
    exact Tables.reachable_dropMembership hmem (List.mem_singleton.not.1 ha)

theorem heeds_grantRoleRuleset (role entitlement target name description : String)
    (featureScopes : Value) :
    (Operation.change
      (.grantRoleRuleset role entitlement target name description featureScopes)).Heeds
      (law (ofAccounts (g.tables.membersOf role)))
      (fun u h => u.accounts = g.tables.membersOf role ∧ h.IsAbout (g.tables.membersOf role))
      IsClean g := by
  refine heeds_demand hg fun r _ => heeds_demandEntitlement hg fun e => ?_
  refine Heeds.bind (A := fun x (h : Sweep) => x.2 = g.tables.membersOf role ∧
    h.IsAbout (g.tables.membersOf role)) (heeds_storing ?_ _ _) fun x _ hh => heeds_pure hh
  refine heeds_read rfl ?_
  split
  · exact heeds_fail hg
  · cases featureScopes.carryParts with
    | error e => exact heeds_fail hg
    | ok scopes =>
      simp only [Role.accounts, bind_assoc, pure_bind]
      refine heeds_mint (heeds_now fun now hnow => ?_)
      refine heeds_write rfl (same_of_reachable rfl fun a ha => ?_) ?_
      · exact Tables.reachable_putRoleRuleset
          (fun s hs => (hg.tables.roleRulesets s hs).1 _ le_rfl) ha
      · refine heeds_read rfl (heeds_pure ⟨rfl, ?_⟩)
        exact hg.toIsFit.minted.after _ ⟨isMade_identifier _, hnow⟩ rfl

theorem heeds_revokeRoleRuleset (role entitlement target : String) :
    (Operation.change (.revokeRoleRuleset role entitlement target)).Heeds
      (law (ofAccounts (g.tables.membersOf role)))
      (fun u h => u.accounts = g.tables.membersOf role ∧ h.IsAbout (g.tables.membersOf role))
      IsClean g := by
  refine Heeds.bind (A := fun accounts (h : Sweep) => accounts = g.tables.membersOf role ∧
    h.IsAbout (g.tables.membersOf role)) (heeds_storing ?_ _ _) fun x _ hh => heeds_pure hh
  refine heeds_read rfl ?_
  cases hr : g.tables.reply (.roleRuleset role entitlement target) with
  | none => exact heeds_fail hg
  | some r =>
    obtain ⟨hmem, hterms⟩ := Tables.of_reply_roleRuleset hr
    obtain rfl : r.role = role := congrArg Prod.fst hterms
    rw [Role.accounts]
    refine heeds_write rfl (same_of_reachable rfl fun a ha => ?_)
      (heeds_read rfl (heeds_pure ⟨rfl, ?_⟩))
    · exact Tables.reachable_dropRoleRuleset hmem ha
    · exact hg.toIsFit.after _ trivial rfl

theorem heeds_grantAccountRuleset (account entitlement target : String) (featureScopes : Value) :
    (Operation.change (.grantAccountRuleset account entitlement target featureScopes)).Heeds
      (law (ofAccounts [account])) (fun u h => u.accounts = [account] ∧ h.IsAbout [account])
      IsClean g := by
  refine heeds_demandEntitlement hg fun e => ?_
  refine Heeds.bind (A := fun _ (h : Sweep) => h.IsAbout [account]) (heeds_storing ?_ _ _)
    fun _ _ hh => heeds_pure ⟨rfl, hh⟩
  refine heeds_read rfl ?_
  split
  · exact heeds_fail hg
  · cases featureScopes.carryParts with
    | error e => exact heeds_fail hg
    | ok scopes =>
      refine heeds_mint (heeds_now fun now hnow => ?_)
      refine heeds_write rfl (same_of_reachable rfl fun a ha => ?_) ?_
      · exact Tables.reachable_putAccountRuleset
          (fun s hs => (hg.tables.accountRulesets s hs).1 _ le_rfl) (List.mem_singleton.not.1 ha)
      · exact heeds_pure (hg.toIsFit.minted.after _ ⟨isMade_identifier _, hnow⟩ rfl)

theorem heeds_revokeAccountRuleset (account entitlement target : String) :
    (Operation.change (.revokeAccountRuleset account entitlement target)).Heeds
      (law (ofAccounts [account])) (fun u h => u.accounts = [account] ∧ h.IsAbout [account])
      IsClean g := by
  refine Heeds.bind (A := fun _ (h : Sweep) => h.IsAbout [account]) (heeds_storing ?_ _ _)
    fun _ _ hh => heeds_pure ⟨rfl, hh⟩
  refine heeds_read rfl ?_
  cases hr : g.tables.reply (.accountRuleset account entitlement target) with
  | none => exact heeds_fail hg
  | some r =>
    obtain ⟨hmem, hterms⟩ := Tables.of_reply_accountRuleset hr
    obtain rfl : r.account = account := congrArg Prod.fst hterms
    refine heeds_write rfl (same_of_reachable rfl fun a ha => ?_)
      (heeds_pure (hg.toIsFit.after _ trivial rfl))
    exact Tables.reachable_dropAccountRuleset hmem (List.mem_singleton.not.1 ha)

theorem heeds_forgetAccount (account : String) :
    (Operation.change (.forgetAccount account)).Heeds
      (law (ofAccounts [account])) (fun u h => u.accounts = [account] ∧ h.IsAbout [account])
      IsClean g := by
  refine Heeds.bind (A := fun _ (h : Sweep) => h.IsAbout [account]) (heeds_storing ?_ _ _)
    fun _ _ hh => heeds_pure ⟨rfl, hh⟩
  have hmemberships := hg.toIsFit.after [account]
    (c := .dropMemberships none (some account)) trivial rfl
  rw [Store.removeAccount]
  refine heeds_read rfl (heeds_write rfl (same_of_reachable rfl fun a ha => ?_) ?_)
  · exact Tables.reachable_dropMemberships (List.mem_singleton.not.1 ha)
  refine heeds_write rfl (same_of_reachable rfl fun a ha => ?_) ?_
  · exact Tables.reachable_dropRulesetsOfAccount (List.mem_singleton.not.1 ha)
  · exact heeds_pure
      (hmemberships.toIsFit.after _ (c := .dropRulesetsOfAccount account) trivial rfl)

/-- An operation changes the rows of those accounts only whose shelves it sweeps then. It fails
before it changes any. -/
theorem heeds_change (op : Operation) :
    op.change.Heeds (law (ofAccounts (op.touched g.tables)))
      (fun u h => u.accounts = op.touched g.tables ∧ h.IsAbout (op.touched g.tables)) IsClean
      g := by
  cases op with
  | createRole name description =>
    exact (heeds_createRole hg name description).bind fun _ _ h => heeds_pure ⟨rfl, h⟩
  | changeRole id name description =>
    exact (heeds_changeRole hg id name description).bind fun _ _ h => heeds_pure ⟨rfl, h⟩
  | deleteRole id => exact heeds_deleteRole hg id
  | grantMembership role account => exact heeds_grantMembership hg role account
  | revokeMembership role account => exact heeds_revokeMembership hg role account
  | grantRoleRuleset role entitlement target name description featureScopes =>
    exact heeds_grantRoleRuleset hg role entitlement target name description featureScopes
  | revokeRoleRuleset role entitlement target =>
    exact heeds_revokeRoleRuleset hg role entitlement target
  | grantAccountRuleset account entitlement target featureScopes =>
    exact heeds_grantAccountRuleset hg account entitlement target featureScopes
  | revokeAccountRuleset account entitlement target =>
    exact heeds_revokeAccountRuleset hg account entitlement target
  | forgetAccount account => exact heeds_forgetAccount hg account

theorem heeds_run (cache : GrantCache) (op : Operation) :
    (op.run (some cache)).Heeds (law (ofAccounts (op.touched g.tables))) (fun _ => IsClean) IsClean
      g := by
  rw [Operation.run_eq]
  refine (heeds_change hg op).bind fun u h hu => ?_
  rw [Operation.settle_some]
  refine Heeds.bind (heeds_dropAccounts (hu.1 ▸ hu.2)) fun _ h hh => ?_
  obtain ⟨accounts, line⟩ := u
  cases line with
  | none => exact heeds_pure hh
  | some line => exact heeds_ignored (ignores rfl) fun _ _ => heeds_pure hh

end Operations

/-! A registration of an entitlement. -/

section Registrations

open Entitlements

theorem heeds_entitlement (hg : g.IsClean) (d : Definition) :
    d.entitlement.Heeds (law swept) (fun e h => e.IsWritable ∧ h.IsClean) IsClean g := by
  rw [Definition.entitlement]
  cases hcheck : d.check with
  | error e => exact heeds_fail hg
  | ok x =>
    have htexts := isText_permissions hcheck
    obtain ⟨name, rules⟩ := x
    have hwarn : (d.warnInert name rules).Heeds (law swept) (fun _ h => h = g) IsClean g := by
      rw [Definition.warnInert]
      split
      · exact heeds_pure rfl
      · exact heeds_log rfl
    refine hwarn.bind ?_
    rintro _ _ rfl
    exact heeds_mint (heeds_now fun now hnow => heeds_pure ⟨⟨htexts, hnow, hnow⟩, hg.minted⟩)

theorem heeds_save (hg : g.IsClean) {e : Entitlement} (he : e.IsWritable) :
    (save e).Heeds (law (· = .table)) (fun _ h => h.IsFit ∧ ∀ s, h.stale s → s = .table) IsClean
      g := by
  have hkept (f : Entitlement) : (g.tables.after (.putEntitlement f)).IsKept g.minted :=
    hg.tables.after trivial
  refine Heeds.locking (heeds_storing ?_ _ _) (ignores rfl) (ignores rfl)
  refine heeds_read rfl (heeds_log (heeds_write rfl (fun s hs => ?_) ?_))
  · cases s with
    | rows a => exact Shelf.same_rows rfl
    | table => exact absurd rfl hs
  · refine heeds_pure ⟨⟨hkept _, fun f hf => ?_⟩, fun s => id⟩
    rcases Table.mem_insert hf with rfl | hf
    · exact isWritable_renewed hg.entitlements he
    · exact hg.entitlements f hf

theorem ignores_telling {e : Effect} (he : e.isTelling = true) : (law swept).Ignores e := by
  intro g
  cases e with
  | store c =>
    cases c with
    | entitlements => exact ⟨fun _ _ _ _ => rfl, fun _ => rfl⟩
    | _ => cases he
  | record | notify | publish | pause => exact ⟨trivial, fun _ => rfl⟩
  | _ => cases he

theorem heeds_told {p : Program α} (hp : Only Effect.isTelling p) (hg : g.IsClean) :
    p.Heeds (law swept) (fun _ => IsClean) IsClean g := by
  refine (hp.heeds fun _ => ignores_telling).mono ?_ ?_
  · rintro _ _ rfl
    exact hg
  · rintro _ rfl
    exact hg

theorem heeds_hear (hg : g.IsClean) (name : String) (l : ChangeListener) :
    (l.hear name).Heeds (law swept) (fun _ => IsClean) IsClean g := by
  cases l with
  | named n l => exact heeds_told (telling_hear l _) hg
  | cache =>
    refine (heeds_dropped _ _ _ _).bind ?_
    rintro _ _ rfl
    exact heeds_pure ⟨⟨hg.tables, hg.entitlements⟩, fun s hs => hg.stale s hs.1⟩

theorem heeds_conclude (hg : g.IsFit) (hstale : ∀ s, g.stale s → s = .table) (c : Entitlements)
    (f : Entitlement) :
    (conclude c.withCache f).Heeds (law swept) (fun _ => IsClean) IsClean g := by
  have hlisteners : (c.withCache.listeners.forM (·.hear f.name)).Heeds (law swept)
      (fun _ => IsClean) IsClean g := by
    refine Heeds.bind ((heeds_dropped _ _ _ _).bind ?_) fun _ _ hh =>
      heeds_forM hh fun l _ _ hh => heeds_hear hh _ l
    rintro _ _ rfl
    refine heeds_pure ⟨⟨hg.tables, hg.entitlements⟩, fun s hs => hs.2 ?_⟩
    rw [hstale s hs.1]
    exact List.mem_cons_self
  refine hlisteners.bind fun _ _ hh => ?_
  refine Heeds.bind (heeds_told (telling_publish _) hh) fun _ _ hh => ?_
  exact heeds_ignored (ignores rfl) fun _ _ => heeds_pure hh

theorem registering_pending {c : Entitlements} (hc : c.backlog.phase = .pending) (d : Definition) :
    registering c (.ok d) = d.entitlement >>= fun e => count "queued" >>= fun _ => pure e := by
  obtain ⟨⟨phase, queue⟩, listeners, listing⟩ := c
  obtain rfl : phase = .pending := hc
  exact (value_lift_bind d.entitlement _ _).trans (bind_congr fun e => rfl)

theorem heeds_registering (hg : g.IsClean) (c : Entitlements) (d : Except Error Definition) :
    (registering c.withCache d).Heeds (law (· = .table)) (fun _ => IsClean) IsClean g := by
  cases d with
  | error e => exact heeds_fail hg
  | ok d =>
    cases hc : c.backlog.phase with
    | pending =>
      rw [registering_pending (c := c.withCache) hc]
      refine (heeds_entitlement hg d).bind fun e h hh => ?_
      exact heeds_ignored (ignores rfl) fun _ _ => heeds_pure hh.2
    | flushed =>
      rw [registering_ok c.withCache hc]
      refine (heeds_entitlement hg d).bind fun e h hh => ?_
      refine (heeds_save hh.2 hh.1).bind fun f h hf => ?_
      exact heeds_conclude hf.1 hf.2 c f

end Registrations

end Sweep

/-- What changes the tables of a service with a cache. -/
inductive Mutation where
  | operation (op : Operation)
  | registration (c : Entitlements) (d : Except Error Entitlements.Definition)

namespace Mutation

def program (cache : GrantCache) : Mutation → Program Unit
  | .operation op => op.run (some cache)
  | .registration c d => do let _ ← Entitlements.registering c.withCache d

def swept (t : Tables) : Mutation → Shelf → Prop
  | .operation op => Sweep.ofAccounts (op.touched t)
  | .registration .. => (· = .table)

theorem heeds_program {g : Sweep} (hg : g.IsClean) (cache : GrantCache) (m : Mutation) :
    (m.program cache).Heeds (Sweep.law (m.swept g.tables)) (fun _ => Sweep.IsClean) Sweep.IsClean
      g := by
  cases m with
  | operation op => exact Sweep.heeds_run hg cache op
  | registration c d => exact (Sweep.heeds_registering hg c d).bind fun _ _ hh => heeds_pure hh

end Mutation

end AccessControl
