import AccessControl.Proofs.Administration.Provided
import AccessControl.Proofs.Decision.Order
import AccessControl.Proofs.Decision.Provided
import AccessControl.Proofs.Grant.Tags
import AccessControl.Proofs.Store.Agreement

/-!
Unions of roles. Roles allow together what one of them allows, and an account is allowed what its
roles allow together or a ruleset of its own allows. So what a role would add to an account can be
looked at before the account becomes a member.
-/

namespace AccessControl

inductive Role.Mention where
  | row (r : Role)
  | named (id : String)

def Role.Mention.id : Role.Mention → String
  | .row r => r.id
  | .named id => id

namespace Outcome

variable {ε α : Type}

def either (x y : Except ε Bool) : Except ε Bool := do
  let a ← x
  let b ← y
  return a || b

theorem either_eq_ok_iff {x y : Except ε Bool} {c : Bool} :
    either x y = .ok c ↔ ∃ a b, x = .ok a ∧ y = .ok b ∧ (a || b) = c := by
  simp only [either, bind_eq_ok_iff, pure, Except.pure, Except.ok.injEq]
  constructor
  · rintro ⟨a, ha, b, hb, rfl⟩
    exact ⟨a, b, ha, hb, rfl⟩
  · rintro ⟨a, b, ha, hb, rfl⟩
    exact ⟨a, ha, b, hb, rfl⟩

theorem anyM_append {p : α → Except ε Bool} (hp : Steady p) (xs ys : List α) :
    (xs ++ ys).anyM p = either (xs.anyM p) (ys.anyM p) := by
  obtain ⟨e, rfl⟩ | ⟨f, rfl⟩ := hp
  · rw [anyM_error, anyM_error, anyM_error]
    cases xs <;> cases ys <;> rfl
  · rw [anyM_ok, anyM_ok, anyM_ok, List.any_append]
    rfl

theorem exists_mapM_ok {β : Type} {f : α → Except ε β} {xs : List α}
    (h : ∀ x ∈ xs, ∃ y, f x = .ok y) : ∃ ys, xs.mapM f = .ok ys := by
  have hok : (xs.mapM f).isOk = true := by
    rw [isOk_mapM, List.all_eq_true]
    intro x hx
    obtain ⟨y, hy⟩ := h x hx
    rw [hy]
    rfl
  cases hxs : xs.mapM f with
  | error e =>
    rw [hxs] at hok
    cases hok
  | ok ys => exact ⟨ys, rfl⟩

theorem mapM_either_eq_ok_iff {f g : α → Except ε Bool} {xs : List α} {cs : List Bool} :
    xs.mapM (fun x => either (f x) (g x)) = .ok cs ↔
      ∃ as bs, xs.mapM f = .ok as ∧ xs.mapM g = .ok bs ∧ List.zipWith (· || ·) as bs = cs := by
  simp only [mapM_eq_ok_iff, either_eq_ok_iff]
  induction xs generalizing cs with
  | nil =>
    simp only [List.forall₂_nil_left_iff]
    constructor
    · rintro rfl
      exact ⟨[], [], rfl, rfl, rfl⟩
    · rintro ⟨_, _, rfl, rfl, rfl⟩
      rfl
  | cons x xs ih =>
    simp only [List.forall₂_cons_left_iff, ih]
    constructor
    · rintro ⟨_, _, ⟨a, b, ha, hb, rfl⟩, ⟨as, bs, has, hbs, rfl⟩, rfl⟩
      exact ⟨_, _, ⟨a, as, ha, has, rfl⟩, ⟨b, bs, hb, hbs, rfl⟩, rfl⟩
    · rintro ⟨_, _, ⟨a, as, ha, has, rfl⟩, ⟨b, bs, hb, hbs, rfl⟩, rfl⟩
      exact ⟨_, _, ⟨a, b, ha, hb, rfl⟩, ⟨as, bs, has, hbs, rfl⟩, rfl⟩

end Outcome

open Program Store Outcome

/-! Snapshots that are put together. -/

namespace Snapshot

variable {s₁ s₂ s : Snapshot}

/-- A snapshot has the grants of two others, and no more. -/
def Joins (s₁ s₂ s : Snapshot) : Prop := ∀ g, g ∈ s.grants ↔ g ∈ s₁.grants ∨ g ∈ s₂.grants

theorem Joins.allows (h : Joins s₁ s₂ s) (record : Record) (action : String) :
    s.allows record action = either (s₁.allows record action) (s₂.allows record action) := by
  have hmatches : s.Matches ⟨s.subject, s₁.grants ++ s₂.grants⟩ := fun g => by
    rw [h g, List.mem_append]
  rw [hmatches.allows]
  exact anyM_append (record.attributes.steady_holds Grant.target fun g =>
    g.capability.allowsRecord record.entityType action) s₁.grants s₂.grants

theorem allows_eq_true_iff {record : Record} {action : String} :
    s.allows record action = .ok true ↔
      ∃ g ∈ s.grants, g.capability.allowsOn g.target record action = .ok true := by
  constructor
  · exact exists_of_anyM
  · rintro ⟨g, hg, hallows⟩
    have hsteady := record.attributes.steady_holds Grant.target fun g =>
      g.capability.allowsRecord record.entityType action
    obtain ⟨e, he⟩ | ⟨holds, hholds⟩ := hsteady
    · cases hallows.symm.trans (congrFun he g)
    · have hg' : holds g = true := Except.ok.inj ((congrFun hholds g).symm.trans hallows)
      refine (congrArg s.grants.anyM hholds).trans ?_
      rw [anyM_ok, List.any_eq_true.2 ⟨g, hg, hg'⟩]

theorem Joins.allows_iff (h : Joins s₁ s₂ s) (record : Record) (action : String) :
    s.allows record action = .ok true ↔
      s₁.allows record action = .ok true ∨ s₂.allows record action = .ok true := by
  simp only [allows_eq_true_iff, h _, or_and_right, exists_or]

theorem Joins.ruling (h : Joins s₁ s₂ s) (p : Policy) (account : Option Account) (action : Action)
    (record : Record) :
    let verdict (s : Snapshot) := ((Case.access account action record).ruling p s).map Decision.allowed
    verdict s = either (verdict s₁) (verdict s₂) := by
  intro verdict
  have hverdict (s : Snapshot) : verdict s = p.stage (Case.access account action record).request >>=
      fun d => d.elim (s.allows record action.name) fun d => .ok d.allowed :=
    p.map_allowed_ruling _ _
  rw [hverdict, hverdict, hverdict]
  rcases p.stage (Case.access account action record).request with e | _ | d
  · rfl
  · exact h.allows record action.name
  · change Except.ok d.allowed = Except.ok (d.allowed || d.allowed)
    rw [Bool.or_self]

end Snapshot

/-! The grants of roles and of accounts. -/

namespace Store.Tables

variable {t : Tables} {roles roles' : List String} {g : Grant}

theorem mem_grantsOfRoles : g ∈ t.grantsOfRoles roles ↔
    (∃ r ∈ t.roleRulesets.rows, r.role ∈ roles ∧ g.ruleset = .role r) ∧
      t.capability? g.ruleset.entitlement = some g.capability := by
  rw [grantsOfRoles, List.mem_filterMap]
  constructor
  · rintro ⟨_, hmem, hg⟩
    obtain ⟨r, hheld, rfl⟩ := List.mem_map.1 hmem
    obtain ⟨hr, hrole⟩ := List.mem_filter.1 hheld
    obtain ⟨c, hc, rfl⟩ := Option.map_eq_some_iff.1 hg
    exact ⟨⟨r, hr, List.contains_iff_mem.1 hrole, rfl⟩, hc⟩
  · rintro ⟨⟨r, hr, hrole, hg⟩, hc⟩
    refine ⟨g.ruleset, hg ▸ List.mem_map.2 ⟨r, List.mem_filter.2 ⟨hr, ?_⟩, rfl⟩,
      Option.map_eq_some_iff.2 ⟨g.capability, hc, rfl⟩⟩
    exact List.contains_iff_mem.2 hrole

theorem mem_grantsOfRoles_append :
    g ∈ t.grantsOfRoles (roles ++ roles') ↔
      g ∈ t.grantsOfRoles roles ∨ g ∈ t.grantsOfRoles roles' := by
  simp only [mem_grantsOfRoles, List.mem_append]
  constructor
  · rintro ⟨⟨r, hr, hrole | hrole, hg⟩, hc⟩
    · exact .inl ⟨⟨r, hr, hrole, hg⟩, hc⟩
    · exact .inr ⟨⟨r, hr, hrole, hg⟩, hc⟩
  · rintro (⟨⟨r, hr, hrole, hg⟩, hc⟩ | ⟨⟨r, hr, hrole, hg⟩, hc⟩)
    · exact ⟨⟨r, hr, .inl hrole, hg⟩, hc⟩
    · exact ⟨⟨r, hr, .inr hrole, hg⟩, hc⟩

theorem mem_grantsOfRoles_congr (h : ∀ id, id ∈ roles ↔ id ∈ roles') :
    g ∈ t.grantsOfRoles roles ↔ g ∈ t.grantsOfRoles roles' := by
  simp only [mem_grantsOfRoles, h]

def ownGrants (t : Tables) (account : String) : List Grant :=
  ((t.reachable account).account.map .account).filterMap t.grant?

theorem mem_ownGrants {account : String} : g ∈ t.ownGrants account ↔
    (∃ r ∈ t.accountRulesets.rows, r.account = account ∧ g.ruleset = .account r) ∧
      t.capability? g.ruleset.entitlement = some g.capability := by
  rw [ownGrants, List.mem_filterMap]
  constructor
  · rintro ⟨_, hmem, hg⟩
    obtain ⟨r, hheld, rfl⟩ := List.mem_map.1 hmem
    obtain ⟨hr, haccount⟩ := List.mem_filter.1 hheld
    obtain ⟨c, hc, rfl⟩ := Option.map_eq_some_iff.1 hg
    exact ⟨⟨r, hr, of_decide_eq_true haccount, rfl⟩, hc⟩
  · rintro ⟨⟨r, hr, haccount, hg⟩, hc⟩
    refine ⟨g.ruleset, hg ▸ List.mem_map.2 ⟨r, List.mem_filter.2 ⟨hr, ?_⟩, rfl⟩,
      Option.map_eq_some_iff.2 ⟨g.capability, hc, rfl⟩⟩
    exact decide_eq_true haccount

theorem grantsOf_eq (t : Tables) (account : String) :
    t.grantsOf account =
      t.grantsOfRoles ((t.rolesHeldBy account).map Role.id) ++ t.ownGrants account := by
  rw [grantsOf, Rulesets.toList, List.filterMap_append, ← reply_rulesetsThroughRoles]
  rfl

theorem joins_grantsOf (t : Tables) (account : String) (subject : String) :
    Snapshot.Joins ⟨subject, t.grantsOfRoles ((t.rolesHeldBy account).map Role.id)⟩
      ⟨account, t.ownGrants account⟩ ⟨account, t.grantsOf account⟩ := by
  intro g
  rw [grantsOf_eq]
  exact List.mem_append

/-- An account becomes a member of a role, unless it is one already, and nothing else changes for
it. -/
structure Enrols (role account : String) (t u : Tables) : Prop where
  holds : ∀ r, u.holds account r = true ↔ t.holds account r = true ∨ r = role
  roleRulesets : u.roleRulesets = t.roleRulesets
  accountRulesets : u.accountRulesets = t.accountRulesets
  entitlements : u.entitlements = t.entitlements

theorem Enrols.joins {role account : String} {u : Tables} (h : Enrols role account t u)
    (subject : String) :
    Snapshot.Joins ⟨account, t.grantsOf account⟩ ⟨subject, t.grantsOfRoles [role]⟩
      ⟨account, u.grantsOf account⟩ := by
  intro g
  change g ∈ u.grantsOf account ↔ g ∈ t.grantsOf account ∨ g ∈ t.grantsOfRoles [role]
  rw [mem_grantsOf, mem_grantsOf, mem_grantsOfRoles, ← or_and_right, capability?, capability?,
    h.entitlements]
  refine and_congr_left fun _ => ?_
  rw [mem_reachable_iff, mem_reachable_iff]
  cases g.ruleset with
  | role r =>
    simp only [h.roleRulesets, h.holds, List.mem_singleton, Ruleset.role.injEq]
    constructor
    · rintro ⟨hr, hholds | hrole⟩
      · exact .inl ⟨hr, hholds⟩
      · exact .inr ⟨r, hr, hrole, rfl⟩
    · rintro (⟨hr, hholds⟩ | ⟨_, hr, hrole, rfl⟩)
      · exact ⟨hr, .inl hholds⟩
      · exact ⟨hr, .inr hrole⟩
  | account r =>
    rw [h.accountRulesets]
    simp

theorem enrols_putMembership {m : Membership} (hrole : t.roles.contains m.role = true)
    (hnew : ∀ s ∈ t.memberships.rows, s.id ≠ m.id) :
    Enrols m.role m.account t (t.after (.putMembership m)) where
  holds r := by
    have hrows : (t.after (.putMembership m)).memberships.rows = t.memberships.rows ++ [m] :=
      Table.insert_new hnew
    rw [holds_eq_true_iff, holds_eq_true_iff, mem_membersOf, mem_membersOf, hrows]
    constructor
    · rintro ⟨hr, s, hs, rfl, haccount⟩
      rcases List.mem_append.1 hs with hs | hs
      · exact .inl ⟨hr, s, hs, rfl, haccount⟩
      · exact .inr (congrArg Membership.role (List.mem_singleton.1 hs))
    · rintro (⟨hr, s, hs, rfl, haccount⟩ | rfl)
      · exact ⟨hr, s, List.mem_append_left _ hs, rfl, haccount⟩
      · exact ⟨hrole, m, List.mem_append_right _ (List.mem_singleton_self m), rfl, rfl⟩
  roleRulesets := rfl
  accountRulesets := rfl
  entitlements := rfl

theorem enrols_member {role account : String} (h : t.holds account role = true) :
    Enrols role account t t where
  holds r := by
    constructor
    · exact .inl
    · rintro (hr | rfl)
      · exact hr
      · exact h
  roleRulesets := rfl
  accountRulesets := rfl
  entitlements := rfl

end Store.Tables

namespace Operation

variable {t : Tables} {role account id : String} {now : Instant}

theorem plan_grantMembership (h : t.roles.contains role = true) :
    (grantMembership role account).plan t id now =
      .last (.role role :: .membership role account ::
        if (t.reply (.membership role account)).isSome then []
        else [.putMembership ⟨id, role, account, now⟩]) := by
  obtain ⟨r, hr⟩ := Option.isSome_iff_exists.1 h
  have hreply : t.reply (.role role) = some r := hr
  rw [plan, Plan.reading, hreply]
  simp only [Plan.demanding, Plan.reading, Plan.last]
  split <;> rfl

theorem refuses_grantMembership :
    ((grantMembership role account).plan t id now).refuses = !t.roles.contains role := by
  cases h : t.roles.contains role with
  | true => rw [plan_grantMembership h]; rfl
  | false =>
    rw [Table.contains, Option.isSome_eq_false_iff, Option.isNone_iff_eq_none] at h
    have hreply : t.reply (.role role) = none := h
    rw [plan, Plan.reading, hreply]
    rfl

theorem enrols_plan {n : Nat} (hk : t.IsKept n) (hrole : t.roles.contains role = true) :
    t.Enrols role account
      (t.afterAll ((grantMembership role account).plan t (identifier n) now).calls) := by
  rw [plan_grantMembership hrole]
  cases hheld : t.reply (.membership role account) with
  | some m =>
    obtain ⟨hm, hparties⟩ := Tables.of_reply_membership hheld
    obtain ⟨rfl, rfl⟩ := Prod.mk.inj hparties
    exact Tables.enrols_member (Tables.holds_eq_true_iff.2
      ⟨hrole, Tables.mem_membersOf.2 ⟨m, hm, rfl, rfl⟩⟩)
  | none =>
    exact Tables.enrols_putMembership (m := ⟨identifier n, role, account, now⟩) hrole
      fun s hs => (hk.memberships s hs).1 n le_rfl

end Operation

theorem Membership.run_grant {cache : Option GrantCache} {t : Tables} {w : World}
    (hw : w.Provides ⟨cache⟩ t) (hk : t.IsKept w.minted) (role account : String) :
    let granted := (Membership.grant cache role account).run w
    ((∃ m, granted.1 = .ok m) ↔ t.roles.contains role = true) ∧
      ∀ m, granted.1 = .ok m → ∃ u, granted.2.Provides ⟨cache⟩ u ∧ t.Enrols role account u := by
  intro granted
  have hrun : (Operation.run cache (.grantMembership role account)).run w =
      (granted.1.map fun _ => (), granted.2) := by
    simp only [granted, Operation.run, run_bind]
    rcases (Membership.grant cache role account).run w with ⟨e | m, v⟩ <;> rfl
  obtain ⟨hok, hprovides⟩ := Operation.provides_run hw (.grantMembership role account)
  rw [hrun, Operation.refuses_grantMembership, Bool.not_not] at hok
  rw [hrun] at hprovides
  have hiff : (∃ m, granted.1 = .ok m) ↔ t.roles.contains role = true := by
    rw [← hok]
    cases granted.1 with
    | error e => simp [Except.map, Except.isOk, Except.toBool]
    | ok m => simp [Except.map, Except.isOk, Except.toBool]
  exact ⟨hiff, fun m hm => ⟨_, hprovides, Operation.enrols_plan hk (hiff.1 ⟨m, hm⟩)⟩⟩

/-! What is answered. -/

namespace Authority

variable {auth : Authority} {t : Tables}

def verdictOn (auth : Authority) (s : Snapshot) (action : Action) (record : Record) :
    Except Error Bool :=
  ((Case.access none action record).ruling auth.policy s).map Decision.allowed

theorem comesOver_verdictsOfRoles (roles : List String) (records : List Record) (action : Action) :
    (auth.verdictsOfRoles roles records action).ComesOver auth.grants t
      (records.mapM (auth.verdictOn ⟨Grants.subjectOfRoles roles, t.grantsOfRoles roles⟩ action)) := by
  intro w hw
  let f : Filter := ⟨auth, {}⟩
  have hask := World.Provides.run_ask (f := f) hw (.accessOfRoles roles records action)
  rw [Evaluation.fst_told rfl, List.mapM_map] at hask
  exact hask.trans (map_mapM _ Decision.allowed records)

theorem comesOver_roles (grants : Grants) (account : String) :
    (Grants.roles account).ComesOver grants t (.ok (t.rolesHeldBy account)) := by
  intro w hw
  refine hw.run_eq fun hs _ => settles_of_yields ?_
  exact (Grants.yields_call hs (c := .rolesOf account) rfl).storing hs.inert _ _

theorem comesOver_ofRoles (grants : Grants) (roles : List String) :
    (grants.ofRoles roles).ComesOver grants t
      (.ok ⟨Grants.subjectOfRoles roles, t.grantsOfRoles roles⟩) :=
  fun _ hw => hw.run_eq fun hs _ => settles_of_yields (Grants.yields_grantsOfRoles hs roles)

theorem comesOver_ofAccount (grants : Grants) (account : String) :
    (grants.ofAccount account).ComesOver grants t (.ok ⟨account, t.grantsOf account⟩) :=
  fun _ hw => hw.run_eq fun hs _ => Grants.settles_ofAccount hs account

theorem exists_stage {p : Policy}
    (h : ∀ o ∈ p.overrides.blocks ++ p.overrides.bypasses, o.IsTotal) {r : Request}
    (hr : r.account = none) : ∃ d, p.stage r = .ok d := by
  rw [Policy.stage, hr, Override.pick?_eq fun o ho => h o (List.mem_append_left _ ho),
    Override.pick?_eq fun o ho => h o (List.mem_append_right _ ho)]
  cases p.overrides.blocks.find? (·.takes r) with
  | none => exact ⟨_, rfl⟩
  | some o => exact ⟨_, rfl⟩

theorem exists_verdictOn
    (h : ∀ o ∈ auth.policy.overrides.blocks ++ auth.policy.overrides.bypasses, o.IsTotal)
    (s : Snapshot) (action : Action) {record : Record} (htags : ∃ tags, record.tags = .ok tags) :
    ∃ b, auth.verdictOn s action record = .ok b := by
  obtain ⟨tags, htags⟩ := htags
  obtain ⟨d, hd⟩ := exists_stage h (r := (Case.access none action record).request) rfl
  obtain ⟨b, hb⟩ := Snapshot.exists_allows htags s action.name
  rw [verdictOn, Case.ruling, Policy.ruling, hd]
  cases d with
  | some d => exact ⟨_, rfl⟩
  | none =>
    change ∃ c, ((s.allows record action.name >>= fun b => .ok (Decision.ofVerdict b)).map _) = _
    rw [hb]
    exact ⟨_, rfl⟩

theorem own_allows_iff {account : String} {record : Record} {action : String} :
    (⟨account, t.ownGrants account⟩ : Snapshot).allows record action = .ok true ↔
      ∃ r ∈ t.accountRulesets.rows, r.account = account ∧
        ∃ c, t.capability? r.entitlement = some c ∧ c.allowsOn r.target record action = .ok true := by
  rw [Snapshot.allows_eq_true_iff]
  constructor
  · rintro ⟨⟨_, c⟩, hg, hallows⟩
    obtain ⟨⟨r, hr, haccount, rfl⟩, hc⟩ := Tables.mem_ownGrants.1 hg
    exact ⟨r, hr, haccount, c, hc, hallows⟩
  · rintro ⟨r, hr, haccount, c, hc, hallows⟩
    exact ⟨⟨.account r, c⟩, Tables.mem_ownGrants.2 ⟨⟨r, hr, haccount, rfl⟩, hc⟩, hallows⟩

/-- Roles that are checked together, told by rows or identifiers, are answered record by record what
one part of them or the other is; only the set of them counts, and nothing but a predicate or a
record that fails keeps them from an answer. An account may do what its roles may together, or what
a ruleset of its own allows whose entitlement can be read. A grant of a role adds for the account what
was answered of the role before. -/
theorem roles_unite (auth : Authority) (t : Tables) :
    (∀ (R R' : List Role.Mention) (records : List Record) (action : Action),
      let verdicts (R : List Role.Mention) :=
        auth.verdictsOfRoles (R.map Role.Mention.id) records action
      ∃ x x' y, (verdicts R).ComesOver auth.grants t x ∧
        (verdicts R').ComesOver auth.grants t x' ∧
        (verdicts (R ++ R')).ComesOver auth.grants t y ∧
        (∀ vs, y = .ok vs ↔
          ∃ as bs, x = .ok as ∧ x' = .ok bs ∧ List.zipWith (· || ·) as bs = vs) ∧
        ((∀ id, id ∈ R.map Role.Mention.id ↔ id ∈ R'.map Role.Mention.id) → x = x') ∧
        ((∀ o ∈ auth.policy.overrides.blocks ++ auth.policy.overrides.bypasses, o.IsTotal) →
          (∀ record ∈ records, ∃ tags, record.tags = .ok tags) →
          ∃ vs, x = .ok vs ∧ vs.length = records.length)) ∧
    (∀ account : String, ∃ roles s s',
      (Grants.roles account).ComesOver auth.grants t (.ok roles) ∧
      (auth.grants.ofRoles (roles.map Role.id)).ComesOver auth.grants t (.ok s) ∧
      (auth.grants.ofAccount account).ComesOver auth.grants t (.ok s') ∧
      ∀ record action, s'.allows record action = .ok true ↔
        s.allows record action = .ok true ∨
          ∃ r ∈ t.accountRulesets.rows, r.account = account ∧
            ∃ c, t.capability? r.entitlement = some c ∧
              c.allowsOn r.target record action = .ok true) ∧
    ∀ (role account : String) (w : World), w.Provides auth.grants t → t.IsKept w.minted →
      let granted := (Membership.grant auth.grants.cache role account).run w
      ((∃ m, granted.1 = .ok m) ↔ t.roles.contains role = true) ∧
      ∀ m, granted.1 = .ok m → ∃ u s p s', granted.2.Provides auth.grants u ∧
        (auth.grants.ofAccount account).ComesOver auth.grants t (.ok s) ∧
        (auth.grants.ofRoles [role]).ComesOver auth.grants t (.ok p) ∧
        (auth.grants.ofAccount account).ComesOver auth.grants u (.ok s') ∧
        ∀ record action, s'.allows record action = .ok true ↔
          s.allows record action = .ok true ∨ p.allows record action = .ok true := by
  refine ⟨fun R R' records action => ?_, fun account => ?_, fun role account w hw hk => ?_⟩
  · refine ⟨_, _, _, comesOver_verdictsOfRoles _ _ _, comesOver_verdictsOfRoles _ _ _,
      comesOver_verdictsOfRoles _ _ _, fun vs => ?_, fun hids => ?_, fun hf htags => ?_⟩
    · rw [List.map_append, ← mapM_either_eq_ok_iff]
      refine Eq.congr_left (mapM_congr fun record _ => ?_)
      exact Snapshot.Joins.ruling (fun g => Tables.mem_grantsOfRoles_append) auth.policy none action
        record
    · refine mapM_congr fun record _ => ?_
      have hmatches : Snapshot.Matches
          ⟨Grants.subjectOfRoles (R.map Role.Mention.id), t.grantsOfRoles (R.map Role.Mention.id)⟩
          ⟨Grants.subjectOfRoles (R'.map Role.Mention.id),
            t.grantsOfRoles (R'.map Role.Mention.id)⟩ :=
        fun g => Tables.mem_grantsOfRoles_congr hids
      rw [verdictOn, verdictOn, Case.ruling, Case.ruling]
      exact congrArg (fun x => (auth.policy.ruling _ x).map _) (hmatches.allows record action.name)
    · obtain ⟨vs, hvs⟩ := exists_mapM_ok fun record hrecord => exists_verdictOn hf
        ⟨Grants.subjectOfRoles (R.map Role.Mention.id), t.grantsOfRoles (R.map Role.Mention.id)⟩
        action (htags record hrecord)
      exact ⟨vs, hvs, (mapM_eq_ok_iff.1 hvs).length_eq.symm⟩
  · refine ⟨_, _, _, comesOver_roles _ _, comesOver_ofRoles _ _, comesOver_ofAccount _ _,
      fun record action => ?_⟩
    rw [(Tables.joins_grantsOf t account _).allows_iff, own_allows_iff]
  · obtain ⟨hiff, hgranted⟩ := Membership.run_grant hw hk role account
    refine ⟨hiff, fun m hm => ?_⟩
    obtain ⟨u, hu, henrols⟩ := hgranted m hm
    exact ⟨u, _, _, _, hu, comesOver_ofAccount _ _, comesOver_ofRoles _ _, comesOver_ofAccount _ _,
      fun record action => (henrols.joins _).allows_iff record action⟩

/-! Two roles may read notes, each under one tag. Ann is in the first of them, and may read under a
third tag herself. -/

def reader : Entitlement :=
  let now := Instant.ofSeconds 0
  ⟨"e", "reader", "", "", [], [.text "note:read:name"], [], [], now, now⟩

def first : Role := ⟨identifier 0, "first", "", .ofSeconds 0, .ofSeconds 0⟩

def second : Role := ⟨identifier 1, "second", "", .ofSeconds 0, .ofSeconds 0⟩

def reads (id : String) (role : Role) (target : String) : RoleRuleset :=
  ⟨id, role.id, "reader", target, "", "", [], .ofSeconds 0⟩

def sharing : Tables where
  roles := ⟨[first, second], by decide +kernel⟩
  memberships := ⟨[⟨identifier 2, first.id, "ann", .ofSeconds 0⟩], List.nodup_singleton _⟩
  entitlements := ⟨[reader], List.nodup_singleton _⟩
  roleRulesets :=
    ⟨[reads (identifier 3) first "t1", reads (identifier 4) second "t2"], by decide +kernel⟩
  accountRulesets :=
    ⟨[⟨identifier 5, "ann", "reader", "t3", [], .ofSeconds 0⟩], List.nodup_singleton _⟩

def shared : World :=
  { World.initial .error none ⟨"", none, none, none⟩ with minted := 6, ledger := ⟨sharing, .none⟩ }

theorem isKept_sharing : sharing.IsKept 6 := by
  have hmade (n : Nat) (hn : n < 6) : IsMade 6 (identifier n) := (isMade_identifier n).mono hn
  have hdated : (Instant.ofSeconds 0).IsDated := by decide
  constructor
  · simp [sharing, first, second, hmade]
  · simp [sharing, first, hmade]
  · simp [sharing, reads, hmade, hdated]
  · simp [sharing, hmade, hdated]

theorem roles_unite_sharing :
    let auth : Authority := ⟨⟨{}, ⟨fun _ => .ok false, false⟩⟩, ⟨none⟩⟩
    let note (tag : String) : Record := ⟨"note", [], .texts [tag]⟩
    let verdicts (R : List Role.Mention) :=
      auth.verdictsOfRoles (R.map Role.Mention.id) (["t1", "t2", "t3"].map note) (.field .read)
    (∃ vs, ((verdicts [.named first.id, .row first]).run shared).1 = .ok vs ∧ vs.length = 3 ∧
        ((verdicts [.row first]).run shared).1 = .ok vs) ∧
      ((verdicts [.row first, .named second.id]).run shared).1 = .ok [true, true, false] ∧
      ∃ m s s', ((Membership.grant none second.id "ann").run shared).1 = .ok m ∧
        ((auth.grants.ofAccount "ann").run shared).1 = .ok s ∧
        s.allows (note "t2") "read" = .ok false ∧
        ((auth.grants.ofAccount "ann").run
          ((Membership.grant none second.id "ann").run shared).2).1 = .ok s' ∧
        s'.allows (note "t2") "read" = .ok true := by
  intro auth note verdicts
  have hshared : shared.Provides auth.grants sharing := ⟨rfl, .inl rfl⟩
  have hfirst : ((verdicts [.row first]).run shared).1 = .ok [true, false, false] := by
    decide +kernel
  have hsecond : ((verdicts [.named second.id]).run shared).1 = .ok [false, true, false] := by
    decide +kernel
  obtain ⟨hunion, -, hgrant⟩ := roles_unite auth sharing
  obtain ⟨x, x', y, hx, hx', hy, hor, -, -⟩ := hunion [.row first] [.named second.id]
    (["t1", "t2", "t3"].map note) (.field .read)
  obtain ⟨z, z', -, hz, hz', -, -, hset, hanswers⟩ := hunion [.named first.id, .row first] [.row first]
    (["t1", "t2", "t3"].map note) (.field .read)
  obtain ⟨hgrants, hgranted⟩ := hgrant second.id "ann" shared hshared isKept_sharing
  obtain ⟨m, hm⟩ := hgrants.2 (by decide +kernel)
  obtain ⟨u, s, p, s', hu, hs, hp, hs', hallows⟩ := hgranted m hm
  obtain ⟨vs, hvs, hlength⟩ := hanswers (by simp [auth])
    (by simpa [note] using ⟨⟨_, rfl⟩, ⟨_, rfl⟩, ⟨_, rfl⟩⟩)
  refine ⟨⟨vs, (hz shared hshared).trans hvs, hlength, ?_⟩, ?_, m, s, s', hm, hs shared hshared, ?_,
    hs' _ hu, ?_⟩
  · rw [← hvs, hset (by simp [Role.Mention.id])]
    exact hz' shared hshared
  · exact (hy shared hshared).trans ((hor _).2 ⟨_, _, (hx shared hshared).symm.trans hfirst,
      (hx' shared hshared).symm.trans hsecond, rfl⟩)
  · have hann : ((auth.grants.ofAccount "ann").run shared).1.map
        (·.allows (note "t2") "read") = .ok (.ok false) := by decide +kernel
    rw [hs shared hshared] at hann
    exact Except.ok.inj hann
  · have hpreview : ((auth.grants.ofRoles [second.id]).run shared).1.map
        (·.allows (note "t2") "read") = .ok (.ok true) := by decide +kernel
    rw [hp shared hshared] at hpreview
    exact (hallows _ _).2 (.inr (Except.ok.inj hpreview))

end Authority

end AccessControl
