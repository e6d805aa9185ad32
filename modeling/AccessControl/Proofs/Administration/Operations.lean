import AccessControl.Administration
import AccessControl.Proofs.Program.Accesses
import AccessControl.Proofs.Store.Healthy
import AccessControl.Proofs.Store.Integrity

/-!
The operations of the administration. Each of them changes the tables first, and drops cached rows
of some accounts then: of all those that do not reach the same rows any more.
-/

namespace AccessControl

open Program Administration Store

inductive Operation where
  | createRole (name description : String)
  | changeRole (id : String) (name description : Option String)
  | deleteRole (id : String)
  | grantMembership (role account : String)
  | revokeMembership (role account : String)
  | grantRoleRuleset (role entitlement target name description : String) (featureScopes : Value)
  | revokeRoleRuleset (role entitlement target : String)
  | grantAccountRuleset (account entitlement target : String) (featureScopes : Value)
  | revokeAccountRuleset (account entitlement target : String)
  | forgetAccount (account : String)

namespace Operation

def run (cache : Option GrantCache) : Operation → Program Unit
  | .createRole name description => do let _ ← Role.create name description
  | .changeRole id name description => do let _ ← Role.change id name description
  | .deleteRole id => Role.delete cache id
  | .grantMembership role account => do let _ ← Membership.grant cache role account
  | .revokeMembership role account => Membership.revoke cache role account
  | .grantRoleRuleset role entitlement target name description featureScopes => do
    let _ ← RoleRuleset.grant cache role entitlement target name description featureScopes
  | .revokeRoleRuleset role entitlement target => RoleRuleset.revoke cache role entitlement target
  | .grantAccountRuleset account entitlement target featureScopes => do
    let _ ← AccountRuleset.grant cache account entitlement target featureScopes
  | .revokeAccountRuleset account entitlement target =>
    AccountRuleset.revoke cache account entitlement target
  | .forgetAccount account => Account.forget cache account

structure Upshot where
  accounts : List String := []
  line : Option (String × Value.Fields) := none

def change : Operation → Program Upshot
  | .createRole name description => do
    let _ ← Role.create name description
    return {}
  | .changeRole id name description => do
    let _ ← Role.change id name description
    return {}
  | .deleteRole id => do
    let _ ← Role.demand id
    let accounts ← storing logger "delete_role" do
      let accounts ← Role.accounts id
      let _ ← Store.removeRole id
      return accounts
    return ⟨accounts,
      some ("Role deleted", [("role_id", .text id), ("members", .nat accounts.length)])⟩
  | .grantMembership role account => do
    let _ ← Role.demand role
    let (_, isNew) ← storing logger "add_membership" do
      match ← call (.membership role account) with
      | some m => return (m, false)
      | none =>
        let m : Membership := ⟨← perform .mint, role, account, ← perform .now⟩
        let _ ← call (.putMembership m)
        return (m, true)
    if isNew then
      return ⟨[account],
        some ("Role granted", [("role_id", .text role), ("account_id", .text account)])⟩
    else return {}
  | .revokeMembership role account => do
    storing logger "delete_membership" do
      match ← call (.membership role account) with
      | none => fail (.notMember role account)
      | some m =>
        let _ ← call (.dropMembership m.id)
    return ⟨[account],
      some ("Role revoked", [("role_id", .text role), ("account_id", .text account)])⟩
  | .grantRoleRuleset role entitlement target name description featureScopes => do
    let _ ← Role.demand role
    let _ ← Entitlement.demand entitlement
    let (_, accounts) ← storing logger "save_role_ruleset" do
      if (← call (.roleRuleset role entitlement target)).isSome then
        fail (.roleRulesetHeld role entitlement target)
      let featureScopes ← ofExcept featureScopes.carryParts
      let ruleset : RoleRuleset :=
        ⟨← perform .mint, role, entitlement, target, name, description, featureScopes,
          ← perform .now⟩
      let _ ← call (.putRoleRuleset ruleset)
      return (ruleset, ← Role.accounts role)
    return ⟨accounts,
      some ("Role ruleset granted", Error.rulesetKey "role_id" role entitlement target)⟩
  | .revokeRoleRuleset role entitlement target => do
    let accounts ← storing logger "delete_role_ruleset" do
      match ← call (.roleRuleset role entitlement target) with
      | none => fail (.roleRulesetMissing role entitlement target)
      | some ruleset =>
        let _ ← call (.dropRoleRuleset ruleset.id)
        Role.accounts role
    return ⟨accounts,
      some ("Role ruleset revoked", Error.rulesetKey "role_id" role entitlement target)⟩
  | .grantAccountRuleset account entitlement target featureScopes => do
    let _ ← Entitlement.demand entitlement
    let _ ← storing logger "save_account_ruleset" do
      if (← call (.accountRuleset account entitlement target)).isSome then
        fail (.accountRulesetHeld account entitlement target)
      let featureScopes ← ofExcept featureScopes.carryParts
      let ruleset : AccountRuleset :=
        ⟨← perform .mint, account, entitlement, target, featureScopes, ← perform .now⟩
      let _ ← call (.putAccountRuleset ruleset)
      return ruleset
    return ⟨[account],
      some ("Account ruleset granted", Error.rulesetKey "account_id" account entitlement target)⟩
  | .revokeAccountRuleset account entitlement target => do
    storing logger "delete_account_ruleset" do
      match ← call (.accountRuleset account entitlement target) with
      | none => fail (.accountRulesetMissing account entitlement target)
      | some ruleset =>
        let _ ← call (.dropAccountRuleset ruleset.id)
    return ⟨[account],
      some ("Account ruleset revoked", Error.rulesetKey "account_id" account entitlement target)⟩
  | .forgetAccount account => do
    let (memberships, rulesets) ← storing logger "delete_account" (Store.removeAccount account)
    return ⟨[account], some ("Account grants removed",
      [("account_id", .text account), ("memberships", .int memberships),
       ("rulesets", .int rulesets)])⟩

def Upshot.settle (cache : Option GrantCache) (u : Upshot) : Program Unit := do
  uncache cache u.accounts
  match u.line with
  | some (message, fields) => log .info logger message fields
  | none => return

theorem settle_none (cache : Option GrantCache) : Upshot.settle cache {} = pure () := by
  have h : uncache cache [] = pure () := by
    rw [uncache, GrantCache.dropAccounts, Text.members, Text.distinct, List.foldl_nil,
      Text.sorted, List.mergeSort_nil]
    split <;> rfl
  rw [Upshot.settle, h]
  rfl

theorem settle_some (cache : GrantCache) (u : Upshot) :
    u.settle (some cache) = GrantCache.dropAccounts u.accounts >>= fun _ => u.settle none :=
  rfl

theorem run_eq (cache : Option GrantCache) (op : Operation) :
    op.run cache = op.change >>= Upshot.settle cache := by
  cases op with
  | createRole | changeRole =>
    simp only [run, change, bind_assoc, pure_bind, settle_none]
  | deleteRole id =>
    simp only [run, change, Role.delete, bind_assoc, pure_bind, Upshot.settle]
  | grantMembership role account =>
    simp only [run, change, Membership.grant, bind_assoc]
    refine bind_congr fun _ => bind_congr fun x => ?_
    rcases x with ⟨m, _ | _⟩
    · exact (settle_none cache).symm
    · simp only [if_true, bind_assoc, pure_bind, bind_pure_unit, Upshot.settle]
  | revokeMembership | revokeAccountRuleset | revokeRoleRuleset =>
    simp only [run, change, bind_assoc, pure_bind]
    rfl
  | forgetAccount account =>
    simp only [run, change, Account.forget, bind_assoc, pure_bind, Upshot.settle]
  | grantRoleRuleset | grantAccountRuleset =>
    simp only [run, change, RoleRuleset.grant, AccountRuleset.grant, bind_assoc, pure_bind,
      bind_pure_unit, Upshot.settle]

end Operation

/-! What a change asks for. -/

def Effect.isPlain : Effect → Bool
  | .store _ | .mint | .now | .record _ => true
  | _ => false

section Plain

variable {α β : Type} {kind : Effect → Bool} {id name role : String}

theorem only_demand (hcall : kind (.store (.role id)) = true)
    (hlog : ∀ line, kind (.record line) = true) : Only kind (Role.demand id) := by
  refine ((only_call hcall).storing (fun _ _ => hlog _) _).bind fun r => ?_
  cases r <;> trivial

theorem only_demandEntitlement (hcall : kind (.store (.entitlement name)) = true)
    (hlog : ∀ line, kind (.record line) = true) : Only kind (Entitlement.demand name) := by
  refine ((only_call hcall).storing (fun _ _ => hlog _) _).bind fun e => ?_
  cases e <;> trivial

theorem only_accounts (hcall : kind (.store (.membersOf role)) = true) :
    Only kind (Role.accounts role) :=
  (only_call hcall).bind fun _ => trivial

theorem only_made {f : String → Instant → Program α} (hf : ∀ id now, Only Effect.isPlain (f id now)) :
    Only Effect.isPlain (do f (← perform .mint) (← perform .now)) :=
  (only_perform rfl).bind fun id => (only_perform rfl).bind fun now => hf id now

theorem only_stored {c : Call} {f : c.Reply → Program β} {logger operation : String}
    (hf : ∀ r, Only Effect.isPlain (f r)) :
    Only Effect.isPlain (storing logger operation (call c) >>= f) :=
  ((only_call rfl).storing (fun _ _ => rfl) _).bind hf

end Plain

namespace Operation

theorem only_change (op : Operation) : Only Effect.isPlain op.change := by
  have hlog {level : Log.Level} {message : String} {fields : Value.Fields} :
      Only Effect.isPlain (log level logger message fields) := only_log rfl
  have hsealed {α : Type} {p : Program α} (hp : Only Effect.isPlain p) (operation : String) :
      Only Effect.isPlain (storing logger operation p) := hp.storing (fun _ _ => rfl) operation
  cases op with
  | createRole name description =>
    refine Only.bind ?_ fun _ => trivial
    rw [Role.create]
    split
    · trivial
    · exact only_made fun id now => only_stored fun _ => hlog.bind fun _ => trivial
  | changeRole id name description =>
    refine Only.bind ((only_demand rfl fun _ => rfl).bind fun r => ?_) fun _ => trivial
    split
    · trivial
    · exact (only_perform rfl).bind fun now => only_stored fun _ => hlog.bind fun _ => trivial
  | deleteRole id =>
    refine (only_demand rfl fun _ => rfl).bind fun _ => Only.bind (hsealed ?_ _) fun _ => trivial
    refine (only_accounts rfl).bind fun _ => Only.bind ?_ fun _ => trivial
    exact (only_call rfl).bind fun _ => (only_call rfl).bind fun _ => (only_call rfl).bind fun _ =>
      only_call rfl
  | grantMembership role account =>
    refine (only_demand rfl fun _ => rfl).bind fun _ => Only.bind (hsealed ?_ _) fun x => ?_
    · refine (only_call rfl).bind fun m => ?_
      cases m with
      | some m => trivial
      | none => exact only_made fun id now => (only_call rfl).bind fun _ => trivial
    · rcases x with ⟨m, _ | _⟩ <;> trivial
  | revokeMembership role account =>
    refine Only.bind (hsealed ?_ _) fun _ => trivial
    refine (only_call rfl).bind fun m => ?_
    cases m with
    | none => trivial
    | some m => exact (only_call rfl).bind fun _ => trivial
  | grantRoleRuleset role entitlement target name description featureScopes =>
    refine (only_demand rfl fun _ => rfl).bind fun _ =>
      (only_demandEntitlement rfl fun _ => rfl).bind fun _ => ?_
    refine Only.bind (hsealed ?_ _) fun _ => trivial
    refine (only_call rfl).bind fun held => ?_
    split
    · trivial
    · refine (only_ofExcept _).bind fun scopes => only_made fun id now => ?_
      exact (only_call rfl).bind fun _ => (only_accounts rfl).bind fun _ => trivial
  | revokeRoleRuleset role entitlement target =>
    refine Only.bind (hsealed ?_ _) fun _ => trivial
    refine (only_call rfl).bind fun r => ?_
    cases r with
    | none => trivial
    | some r => exact (only_call rfl).bind fun _ => only_accounts rfl
  | grantAccountRuleset account entitlement target featureScopes =>
    refine (only_demandEntitlement rfl fun _ => rfl).bind fun _ => ?_
    refine Only.bind (hsealed ?_ _) fun _ => trivial
    refine (only_call rfl).bind fun held => ?_
    split
    · trivial
    · refine (only_ofExcept _).bind fun scopes => only_made fun id now => ?_
      exact (only_call rfl).bind fun _ => trivial
  | revokeAccountRuleset account entitlement target =>
    refine Only.bind (hsealed ?_ _) fun _ => trivial
    refine (only_call rfl).bind fun r => ?_
    cases r with
    | none => trivial
    | some r => exact (only_call rfl).bind fun _ => trivial
  | forgetAccount account =>
    refine Only.bind (hsealed ?_ _) fun _ => trivial
    exact (only_call rfl).bind fun _ => (only_call rfl).bind fun _ => (only_call rfl).bind fun _ =>
      trivial

end Operation

/-! The tables, and the identifiers that were made. -/

/-- The store holds the tables, so many identifiers were made, and the time can be written. A store
that is healthy does not fail. -/
structure World.At (isHealthy : Prop) (t : Tables) (n : Nat) (w : World) : Prop where
  tables : w.ledger.tables = t
  minted : w.minted = n
  clock : w.clock.IsDated
  faults : isHealthy → w.ledger.faults = .none

variable {isHealthy : Prop} {t : Tables} {n : Nat}

theorem World.At.quiet {w : World} (h : w.At isHealthy t n) {e : Effect} (he : e.isQuiet) :
    (w.answer e).2.At isHealthy t n := by
  cases e with
  | store | cache | database | publish | mint => cases he
  | _ => exact ⟨h.tables, h.minted, h.clock, h.faults⟩

theorem World.At.call {w : World} (h : w.At isHealthy t n) (c : Call) :
    (¬ isHealthy ∧ (∃ e, (w.answer (.store c)).1 = .error e) ∧
        (w.answer (.store c)).2.At isHealthy t n) ∨
      (w.answer (.store c)).1 = .ok (t.reply c) ∧
        (w.answer (.store c)).2.At isHealthy (t.after c) n := by
  rcases htake : w.ledger.faults.take c.methods with ⟨_ | e, faults⟩
  · have hcall : w.ledger.call c =
        (.ok (w.ledger.tables.reply c), ⟨w.ledger.tables.after c, faults⟩) := by
      rw [Ledger.call, htake]
    refine .inr ?_
    simp only [World.answer, hcall, h.tables]
    refine ⟨trivial, rfl, h.minted, h.clock, fun hh => ?_⟩
    rw [h.faults hh, Faults.take_none] at htake
    exact (congrArg Prod.snd htake).symm
  · refine .inl ⟨fun hh => ?_, ?_⟩
    · rw [h.faults hh, Faults.take_none] at htake
      cases congrArg Prod.fst htake
    · have hcall : w.ledger.call c = (.error e, { w.ledger with faults }) := by
        rw [Ledger.call, htake]
      simp only [World.answer, hcall]
      refine ⟨⟨e, rfl⟩, h.tables, h.minted, h.clock, fun hh => ?_⟩
      rw [h.faults hh, Faults.take_none] at htake
      cases congrArg Prod.fst htake

def World.Left (isHealthy : Prop) (t : Tables) (w : World) : Prop :=
  ∃ u m, w.At isHealthy u m ∧ u.IsKept m ∧ (isHealthy → u = t)

theorem World.Left.quiet {w : World} (h : w.Left isHealthy t) {e : Effect} (he : e.isQuiet) :
    (w.answer e).2.Left isHealthy t := by
  obtain ⟨u, m, hw, hkept, hu⟩ := h
  exact ⟨u, m, hw.quiet he, hkept, hu⟩

def World.Changed (isHealthy : Prop) (t : Tables) (accounts : List String) (w : World) : Prop :=
  ∃ u m, w.At isHealthy u m ∧ u.IsKept m ∧ u.entitlements = t.entitlements ∧
    ∀ a, a ∉ accounts → u.reachable a = t.reachable a

section Steps

variable {α β : Type} {u : Tables} {B : β → World → Prop}

theorem World.At.left {w : World} (h : w.At isHealthy t n) (hk : t.IsKept n) :
    w.Left isHealthy t :=
  ⟨t, n, h, hk, fun _ => rfl⟩

theorem World.At.changed {accounts : List String} {w : World} (h : w.At isHealthy u n)
    (hk : u.IsKept n) (he : u.entitlements = t.entitlements)
    (hr : ∀ a, a ∉ accounts → u.reachable a = t.reachable a) : w.Changed isHealthy t accounts :=
  ⟨u, n, h, hk, he, hr⟩

theorem attains_call {c : Call} {f : c.Reply → Program β} (hk : u.IsKept n)
    (hf : Attains World.answer (World.At isHealthy (u.after c) n) (f (u.reply c)) B
      (World.Left isHealthy t)) :
    Attains World.answer (World.At isHealthy u n) (call c >>= f) B (World.Left isHealthy t) := by
  intro w hw
  have hrun : (call c >>= f).runBy World.answer w =
      (ofExcept (w.answer (.store c)).1 >>= f).runBy World.answer (w.answer (.store c)).2 := rfl
  rw [hrun]
  rcases hw.call c with ⟨hh, ⟨e, he⟩, hw⟩ | ⟨hr, hw⟩
  · rw [he]
    exact ⟨u, n, hw, hk, fun h => absurd h hh⟩
  · rw [hr]
    exact hf _ hw

theorem attains_mint {f : String → Program β} {E : World → Prop}
    (hf : Attains World.answer (World.At isHealthy u (n + 1)) (f (identifier n)) B E) :
    Attains World.answer (World.At isHealthy u n) (perform .mint >>= f) B E := by
  rintro w ⟨ht, rfl, hc, hh⟩
  exact hf _ ⟨ht, rfl, hc, hh⟩

theorem attains_now {f : Instant → Program β} {E : World → Prop}
    (hf : ∀ now, now.IsDated →
      Attains World.answer (World.At isHealthy u n) (f now) B E) :
    Attains World.answer (World.At isHealthy u n) (perform .now >>= f) B E :=
  fun w hw => hf w.clock hw.clock w hw

theorem attains_log {level : Log.Level} {logger message : String} {fields : Value.Fields}
    {f : Unit → Program β} {E : World → Prop}
    (hf : Attains World.answer (World.At isHealthy u n) (f ()) B E) :
    Attains World.answer (World.At isHealthy u n) (log level logger message fields >>= f) B E :=
  fun _ hw => hf _ (hw.quiet rfl)

theorem attains_storing {p : Program α} {A : α → World → Prop} {P : World → Prop}
    (hp : Attains World.answer P p A (World.Left isHealthy t)) (logger operation : String) :
    Attains World.answer P (storing logger operation p) A (World.Left isHealthy t) :=
  hp.storing logger operation fun _ _ h => h.quiet rfl

theorem attains_stored {c : Call} {f : c.Reply → Program β} {logger operation : String}
    (hk : u.IsKept n)
    (hf : Attains World.answer (World.At isHealthy (u.after c) n) (f (u.reply c)) B
      (World.Left isHealthy t)) :
    Attains World.answer (World.At isHealthy u n) (storing logger operation (call c) >>= f) B
      (World.Left isHealthy t) := by
  have hcall : Attains World.answer (World.At isHealthy u n) (call c)
      (fun r w => r = u.reply c ∧ w.At isHealthy (u.after c) n) (World.Left isHealthy t) := by
    rw [← bind_pure (call c)]
    exact attains_call hk (attains_pure fun _ hw => ⟨rfl, hw⟩)
  refine (attains_storing hcall logger operation).bind fun r => ?_
  rintro w ⟨rfl, hw⟩
  exact hf w hw

end Steps

/-! What the operations change. -/

section Spec

variable (hk : t.IsKept n)

include hk

theorem attains_left {β : Type} {B : β → World → Prop} {e : Error} :
    Attains World.answer (World.At isHealthy t n) (fail e) B (World.Left isHealthy t) :=
  fun _ hw => hw.left hk

theorem attains_demand {β : Type} {B : β → World → Prop} {id : String} {f : Role → Program β}
    (hf : ∀ r, t.roles.get? id = some r →
      Attains World.answer (World.At isHealthy t n) (f r) B (World.Left isHealthy t)) :
    Attains World.answer (World.At isHealthy t n) (Role.demand id >>= f) B
      (World.Left isHealthy t) := by
  rw [Role.demand, Role.find?, bind_assoc]
  refine attains_stored hk ?_
  cases hr : t.reply (.role id) with
  | none => exact attains_left hk
  | some r => exact hf r hr

theorem attains_demandEntitlement {β : Type} {B : β → World → Prop} {name : String}
    {f : Entitlement → Program β}
    (hf : ∀ e, Attains World.answer (World.At isHealthy t n) (f e) B (World.Left isHealthy t)) :
    Attains World.answer (World.At isHealthy t n) (Entitlement.demand name >>= f) B
      (World.Left isHealthy t) := by
  rw [Entitlement.demand, Entitlements.find?, bind_assoc]
  refine attains_stored hk ?_
  cases t.reply (.entitlement name) with
  | none => exact attains_left hk
  | some e => exact hf e

theorem attains_createRole (name description : String) :
    Attains World.answer (World.At isHealthy t n) (Role.create name description)
      (fun _ w => w.Changed isHealthy t []) (World.Left isHealthy t) := by
  have hk' := hk.mono (Nat.le_succ n)
  rw [Role.create]
  split
  · exact attains_left hk
  · refine attains_mint (attains_now fun now _ => attains_stored hk' (attains_log ?_))
    refine attains_pure fun w hw => hw.changed (hk'.after (isMade_identifier n)) rfl fun a _ => ?_
    exact Tables.reachable_putRole (.inr fun m hm => (hk.memberships m hm).2 n le_rfl) a

theorem attains_changeRole (id : String) (name description : Option String) :
    Attains World.answer (World.At isHealthy t n) (Role.change id name description)
      (fun _ w => w.Changed isHealthy t []) (World.Left isHealthy t) := by
  rw [Role.change]
  refine attains_demand hk fun r hr => ?_
  obtain ⟨hmem, rfl⟩ := Table.get?_eq_some_iff.1 hr
  split
  · exact attains_left hk
  · refine attains_now fun now _ => attains_stored hk (attains_log ?_)
    refine attains_pure fun w hw => hw.changed (hk.after (hk.roles r hmem)) rfl fun a _ => ?_
    exact Tables.reachable_putRole (r := ⟨r.id, _, _, r.createdAt, now⟩)
      (.inl (Table.contains_iff.2 ⟨r, hmem, rfl⟩)) a

end Spec

namespace Operation

/-- The accounts whose cached rows an operation drops when it succeeds. -/
def touched (t : Tables) : Operation → List String
  | .createRole .. | .changeRole .. => []
  | .deleteRole role | .grantRoleRuleset role .. | .revokeRoleRuleset role .. => t.membersOf role
  | .grantMembership role account =>
    if (t.reply (.membership role account)).isSome then [] else [account]
  | .revokeMembership _ account | .grantAccountRuleset account .. |
    .revokeAccountRuleset account .. | .forgetAccount account => [account]

section Spec

variable (hk : t.IsKept n)

include hk

theorem attains_deleteRole (id : String) :
    Attains World.answer (World.At isHealthy t n)
      (change (.deleteRole id))
      (fun u w => u.accounts = t.membersOf id ∧ w.Changed isHealthy t (t.membersOf id))
      (World.Left isHealthy t) := by
  have hrulesets := hk.after (c := .dropRulesetsOfRole id) trivial
  have hmemberships := hrulesets.after (c := .dropMemberships (some id) none) trivial
  have hrole := hmemberships.after (c := .dropRole id) trivial
  refine attains_demand hk fun r _ => Attains.bind
    (A := fun accounts (w : World) => accounts = t.membersOf id ∧
      w.Changed isHealthy t (t.membersOf id))
    (attains_storing ?_ _ _) fun accounts => attains_pure fun _ hw => hw
  rw [Role.accounts, Store.removeRole]
  simp only [bind_assoc, pure_bind]
  -- the members are read before their rows go
  refine attains_call hk (attains_call hk (attains_call hk (attains_call hrulesets ?_)))
  refine attains_call hmemberships (attains_pure fun w hw => ⟨rfl, ?_⟩)
  exact hw.changed hrole rfl fun a ha => Tables.reachable_dropRole ha

theorem attains_grantMembership (role account : String) :
    Attains World.answer (World.At isHealthy t n) (change (.grantMembership role account))
      (fun u w => u.accounts = touched t (.grantMembership role account) ∧
        w.Changed isHealthy t (touched t (.grantMembership role account)))
      (World.Left isHealthy t) := by
  have hk' := hk.mono (Nat.le_succ n)
  refine attains_demand hk fun r hr => ?_
  obtain ⟨hmem, rfl⟩ := Table.get?_eq_some_iff.1 hr
  refine Attains.bind (A := fun x (w : World) =>
    touched t (.grantMembership r.id account) = (if x.2 then [account] else []) ∧
      w.Changed isHealthy t (if x.2 then [account] else [])) (attains_storing ?_ _ _) fun x => ?_
  · refine attains_call hk ?_
    rw [touched]
    cases hm : t.reply (.membership r.id account) with
    | some m =>
      exact attains_pure fun w hw => ⟨rfl, hw.changed hk rfl fun _ _ => rfl⟩
    | none =>
      refine attains_mint (attains_now fun now _ => ?_)
      have hput := hk'.after (c := .putMembership ⟨identifier n, r.id, account, now⟩)
        ⟨isMade_identifier n, (hk.roles r hmem).mono (Nat.le_succ n)⟩
      refine attains_call hk' (attains_pure fun w hw => ⟨rfl, ?_⟩)
      refine hw.changed hput rfl fun a ha => ?_
      exact Tables.reachable_putMembership (fun s hs => (hk.memberships s hs).1 n le_rfl)
        (List.mem_singleton.not.1 ha)
  · rcases x with ⟨m, _ | _⟩
    · exact fun _ hw => ⟨hw.1.symm, hw.1 ▸ hw.2⟩
    · exact fun _ hw => ⟨hw.1.symm, hw.1 ▸ hw.2⟩

theorem attains_revokeMembership (role account : String) :
    Attains World.answer (World.At isHealthy t n)
      (change (.revokeMembership role account))
      (fun u w => u.accounts = [account] ∧ w.Changed isHealthy t [account])
      (World.Left isHealthy t) := by
  refine Attains.bind (A := fun _ (w : World) => w.Changed isHealthy t [account])
    (attains_storing ?_ _ _) fun _ => attains_pure fun _ hw => ⟨rfl, hw⟩
  refine attains_call hk ?_
  cases hm : t.reply (.membership role account) with
  | none => exact attains_left hk
  | some m =>
    obtain ⟨hmem, hparties⟩ := Tables.of_reply_membership hm
    obtain rfl : m.account = account := congrArg Prod.snd hparties
    refine attains_call hk (attains_pure fun w hw => ?_)
    refine hw.changed (hk.after (c := .dropMembership m.id) trivial) rfl fun a ha => ?_
    exact Tables.reachable_dropMembership hmem (List.mem_singleton.not.1 ha)

theorem attains_grantRoleRuleset (role entitlement target name description : String)
    (featureScopes : Value) :
    Attains World.answer (World.At isHealthy t n)
      (change (.grantRoleRuleset role entitlement target name description featureScopes))
      (fun u w => u.accounts = t.membersOf role ∧ w.Changed isHealthy t (t.membersOf role))
      (World.Left isHealthy t) := by
  have hk' := hk.mono (Nat.le_succ n)
  refine attains_demand hk fun r _ => attains_demandEntitlement hk fun e => ?_
  refine Attains.bind (A := fun x (w : World) => x.2 = t.membersOf role ∧
    w.Changed isHealthy t (t.membersOf role)) (attains_storing ?_ _ _)
    fun x => attains_pure fun _ hw => hw
  refine attains_call hk ?_
  split
  · exact attains_left hk
  · refine Attains.bind (A := fun _ => World.At isHealthy t n)
      (attains_ofExcept (fun _ _ _ hw => hw) fun _ hw => hw.left hk) fun scopes => ?_
    refine attains_mint (attains_now fun now hnow => ?_)
    have hput := hk'.after (c := .putRoleRuleset ⟨identifier n, role, entitlement, target, name,
      description, scopes, now⟩) ⟨isMade_identifier n, hnow⟩
    simp only [Role.accounts, bind_assoc, pure_bind]
    refine attains_call hk' (attains_call hput (attains_pure fun w hw => ⟨rfl, ?_⟩))
    refine hw.changed hput rfl fun a ha => ?_
    exact Tables.reachable_putRoleRuleset (fun s hs => (hk.roleRulesets s hs).1 n le_rfl) ha

theorem attains_revokeRoleRuleset (role entitlement target : String) :
    Attains World.answer (World.At isHealthy t n)
      (change (.revokeRoleRuleset role entitlement target))
      (fun u w => u.accounts = t.membersOf role ∧ w.Changed isHealthy t (t.membersOf role))
      (World.Left isHealthy t) := by
  refine Attains.bind (A := fun accounts (w : World) => accounts = t.membersOf role ∧
    w.Changed isHealthy t (t.membersOf role)) (attains_storing ?_ _ _)
    fun accounts => attains_pure fun _ hw => hw
  refine attains_call hk ?_
  cases hr : t.reply (.roleRuleset role entitlement target) with
  | none => exact attains_left hk
  | some r =>
    obtain ⟨hmem, hterms⟩ := Tables.of_reply_roleRuleset hr
    obtain rfl : r.role = role := congrArg Prod.fst hterms
    have hdrop := hk.after (c := .dropRoleRuleset r.id) trivial
    rw [Role.accounts]
    refine attains_call hk (attains_call hdrop (attains_pure fun w hw => ⟨rfl, ?_⟩))
    refine hw.changed hdrop rfl fun a ha => ?_
    exact Tables.reachable_dropRoleRuleset hmem ha

theorem attains_grantAccountRuleset (account entitlement target : String) (featureScopes : Value) :
    Attains World.answer (World.At isHealthy t n)
      (change (.grantAccountRuleset account entitlement target featureScopes))
      (fun u w => u.accounts = [account] ∧ w.Changed isHealthy t [account])
      (World.Left isHealthy t) := by
  have hk' := hk.mono (Nat.le_succ n)
  refine attains_demandEntitlement hk fun e => ?_
  refine Attains.bind (A := fun _ (w : World) => w.Changed isHealthy t [account])
    (attains_storing ?_ _ _) fun _ => attains_pure fun _ hw => ⟨rfl, hw⟩
  refine attains_call hk ?_
  split
  · exact attains_left hk
  · refine Attains.bind (A := fun _ => World.At isHealthy t n)
      (attains_ofExcept (fun _ _ _ hw => hw) fun _ hw => hw.left hk) fun scopes => ?_
    refine attains_mint (attains_now fun now hnow => ?_)
    have hput := hk'.after (c := .putAccountRuleset ⟨identifier n, account, entitlement, target,
      scopes, now⟩) ⟨isMade_identifier n, hnow⟩
    refine attains_call hk' (attains_pure fun w hw => ?_)
    refine hw.changed hput rfl fun a ha => ?_
    exact Tables.reachable_putAccountRuleset (fun s hs => (hk.accountRulesets s hs).1 n le_rfl)
      (List.mem_singleton.not.1 ha)

theorem attains_revokeAccountRuleset (account entitlement target : String) :
    Attains World.answer (World.At isHealthy t n)
      (change (.revokeAccountRuleset account entitlement target))
      (fun u w => u.accounts = [account] ∧ w.Changed isHealthy t [account])
      (World.Left isHealthy t) := by
  refine Attains.bind (A := fun _ (w : World) => w.Changed isHealthy t [account])
    (attains_storing ?_ _ _) fun _ => attains_pure fun _ hw => ⟨rfl, hw⟩
  refine attains_call hk ?_
  cases hr : t.reply (.accountRuleset account entitlement target) with
  | none => exact attains_left hk
  | some r =>
    obtain ⟨hmem, hterms⟩ := Tables.of_reply_accountRuleset hr
    obtain rfl : r.account = account := congrArg Prod.fst hterms
    refine attains_call hk (attains_pure fun w hw => ?_)
    refine hw.changed (hk.after (c := .dropAccountRuleset r.id) trivial) rfl fun a ha => ?_
    exact Tables.reachable_dropAccountRuleset hmem (List.mem_singleton.not.1 ha)

theorem attains_forgetAccount (account : String) :
    Attains World.answer (World.At isHealthy t n)
      (change (.forgetAccount account))
      (fun u w => u.accounts = [account] ∧ w.Changed isHealthy t [account])
      (World.Left isHealthy t) := by
  have hmemberships := hk.after (c := .dropMemberships none (some account)) trivial
  have hrulesets := hmemberships.after (c := .dropRulesetsOfAccount account) trivial
  refine Attains.bind (A := fun _ (w : World) => w.Changed isHealthy t [account])
    (attains_storing ?_ _ _) fun _ => attains_pure fun _ hw => ⟨rfl, hw⟩
  rw [Store.removeAccount]
  refine attains_call hk (attains_call hk (attains_call hmemberships (attains_pure fun w hw => ?_)))
  exact hw.changed hrulesets rfl fun a ha => Tables.reachable_forget (List.mem_singleton.not.1 ha)

/-- An operation that succeeds drops the rows of all accounts that do not reach the same rows any
more. -/
theorem attains_change (isHealthy : Prop) (op : Operation) :
    Attains World.answer (World.At isHealthy t n) op.change
      (fun u w => u.accounts = op.touched t ∧ w.Changed isHealthy t (op.touched t))
      (World.Left isHealthy t) := by
  cases op with
  | createRole name description =>
    exact (attains_createRole hk name description).bind fun _ => fun _ hw => ⟨rfl, hw⟩
  | changeRole id name description =>
    exact (attains_changeRole hk id name description).bind fun _ => fun _ hw => ⟨rfl, hw⟩
  | deleteRole id => exact attains_deleteRole hk id
  | grantMembership role account => exact attains_grantMembership hk role account
  | revokeMembership role account => exact attains_revokeMembership hk role account
  | grantRoleRuleset role entitlement target name description featureScopes =>
    exact attains_grantRoleRuleset hk role entitlement target name description featureScopes
  | revokeRoleRuleset role entitlement target =>
    exact attains_revokeRoleRuleset hk role entitlement target
  | grantAccountRuleset account entitlement target featureScopes =>
    exact attains_grantAccountRuleset hk account entitlement target featureScopes
  | revokeAccountRuleset account entitlement target =>
    exact attains_revokeAccountRuleset hk account entitlement target
  | forgetAccount account => exact attains_forgetAccount hk account

end Spec

end Operation

end AccessControl
