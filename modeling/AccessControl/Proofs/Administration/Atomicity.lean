import AccessControl.Proofs.Administration.Plans
import AccessControl.Proofs.Administration.Reached
import AccessControl.Proofs.Store.Integrity

/-!
Operations that fail. Four of them can leave the tables changed all the same: a deletion that is cut
off between its removals, and a ruleset of a role that was stored or removed already when the members
of the role are read.
-/

namespace AccessControl

open Program Administration Store

namespace Store

def Ledger.isDown (m : Ledger) (k : Method) : Bool := (m.faults k 0).isSome

theorem Ledger.fails_eq {m : Ledger} {c : Call} {k : Method} (hc : c.methods = [k]) :
    m.fails c = m.isDown k := by
  rw [fails, hc, Faults.fst_take_singleton, isDown]

namespace Tables

variable (t : Tables)

def withoutRole (role : String) : Tables :=
  { t with
    roles := t.roles.erase role
    memberships := t.memberships.filter (·.role ≠ role)
    roleRulesets := t.roleRulesets.filter (·.role ≠ role) }

def withoutAccount (account : String) : Tables :=
  { t with
    memberships := t.memberships.filter (·.account ≠ account)
    accountRulesets := t.accountRulesets.filter (·.account ≠ account) }

theorem afterAll_roleCascade (role : String) :
    t.afterAll [.role role, .membersOf role, .enter .roleCascade, .dropRulesetsOfRole role,
      .dropMemberships (some role) none, .dropRole role] = t.withoutRole role := by
  have hmemberships : (t.memberships.filter fun m => !removedMembership (some role) none m) =
      t.memberships.filter (·.role ≠ role) :=
    Table.filter_congr fun m => by simp [removedMembership]
  simp only [afterAll, List.foldl_cons, List.foldl_nil, after, hmemberships, withoutRole]

theorem afterAll_accountCascade (account : String) :
    t.afterAll [.enter .accountCascade, .dropMemberships none (some account),
      .dropRulesetsOfAccount account] = t.withoutAccount account := by
  have hmemberships : (t.memberships.filter fun m => !removedMembership none (some account) m) =
      t.memberships.filter (·.account ≠ account) :=
    Table.filter_congr fun m => by simp [removedMembership]
  simp only [afterAll, List.foldl_cons, List.foldl_nil, after, hmemberships, withoutAccount]

variable {t} {role : String}

theorem after_putRoleRuleset_ne {r : RoleRuleset}
    (h : t.reply (.roleRuleset r.role r.entitlement r.target) = none) :
    t.after (.putRoleRuleset r) ≠ t := by
  intro heq
  have hmem : r ∈ t.roleRulesets.rows := by
    rw [← congrArg Tables.roleRulesets heq]
    exact Table.mem_insert_self _ r
  have := List.find?_eq_none.1 h r hmem
  simp [isRoleRuleset] at this

theorem after_dropRoleRuleset_ne {r : RoleRuleset} (hr : r ∈ t.roleRulesets.rows) :
    t.after (.dropRoleRuleset r.id) ≠ t := by
  intro heq
  have h := Table.filter_eq_self.1 (congrArg Tables.roleRulesets heq) r hr
  exact of_decide_eq_true h rfl

theorem after_dropRulesetsOfRole_ne :
    t.after (.dropRulesetsOfRole role) ≠ t ↔ ∃ r ∈ t.roleRulesets.rows, r.role = role := by
  rw [not_iff_comm, not_exists]
  constructor
  · intro h
    have hfilter : t.roleRulesets.filter (·.role ≠ role) = t.roleRulesets :=
      Table.filter_eq_self.2 fun r hr => decide_eq_true fun hrole => h r ⟨hr, hrole⟩
    rw [after, hfilter]
  · rintro h r ⟨hr, hrole⟩
    exact of_decide_eq_true (Table.filter_eq_self.1 (congrArg Tables.roleRulesets h) r hr) hrole

theorem after_dropMembershipsOfAccount_ne {account : String} :
    t.after (.dropMemberships none (some account)) ≠ t ↔
      ∃ m ∈ t.memberships.rows, m.account = account := by
  rw [not_iff_comm, not_exists]
  constructor
  · intro h
    have hfilter : (t.memberships.filter fun m => !removedMembership none (some account) m) =
        t.memberships :=
      Table.filter_eq_self.2 fun m hm => by simpa [removedMembership] using fun ha => h m ⟨hm, ha⟩
    rw [after, hfilter]
  · rintro h m ⟨hm, ha⟩
    have := Table.filter_eq_self.1 (congrArg Tables.memberships h) m hm
    simp [removedMembership, ha] at this

theorem after_dropMembershipsOfRole_ne :
    (t.after (.dropRulesetsOfRole role)).after (.dropMemberships (some role) none) ≠ t ↔
      (∃ r ∈ t.roleRulesets.rows, r.role = role) ∨ ∃ m ∈ t.memberships.rows, m.role = role := by
  constructor
  · contrapose!
    rintro ⟨hrulesets, hmemberships⟩
    have hrulesets : t.after (.dropRulesetsOfRole role) = t :=
      not_not.1 fun h => by
        obtain ⟨r, hr, hrole⟩ := after_dropRulesetsOfRole_ne.1 h
        exact hrulesets r hr hrole
    have hfilter : (t.memberships.filter fun m => !removedMembership (some role) none m) =
        t.memberships :=
      Table.filter_eq_self.2 fun m hm => by simpa [removedMembership] using hmemberships m hm
    rw [hrulesets, after, hfilter]
  · rintro (⟨r, hr, hrole⟩ | ⟨m, hm, hrole⟩) h
    · have := Table.filter_eq_self.1 (congrArg Tables.roleRulesets h) r hr
      exact of_decide_eq_true this hrole
    · have := Table.filter_eq_self.1 (congrArg Tables.memberships h) m hm
      simp [removedMembership, hrole] at this

end Tables

/-- A call of a list fails, and the tables that the others leave are not those of the ledger. -/
def Ledger.Breaks (m : Ledger) (u : Tables) (cs : List Call) : Prop :=
  (∃ c ∈ cs, m.fails c = true) ∧ u.afterAll (m.reached cs) ≠ m.tables

theorem Ledger.not_breaks_nil (m : Ledger) (u : Tables) : ¬ m.Breaks u [] :=
  fun h => absurd h.1 (by simp)

theorem Ledger.breaks_cons {m : Ledger} {u : Tables} {c : Call} {k : Method} (hk : c.methods = [k])
    {cs : List Call} :
    m.Breaks u (c :: cs) ↔
      m.isDown k = true ∧ u ≠ m.tables ∨ m.isDown k = false ∧ m.Breaks (u.after c) cs := by
  rw [Breaks, Breaks, reached, List.takeWhile_cons, List.exists_mem_cons_iff, fails_eq hk]
  cases m.isDown k <;> simp [Tables.afterAll, reached]

end Store

namespace Operation

def Plan.Tears (m : Ledger) (x : Plan) : Prop :=
  (x.refuses = true ∨ ∃ c ∈ x.calls, m.fails c = true) ∧
    m.tables.afterAll (m.reached x.calls) ≠ m.tables

section Tears

variable {m : Ledger}

theorem not_tears_refusal : ¬ Plan.refusal.Tears m :=
  fun h => h.2 rfl

theorem tears_last {cs : List Call} : (Plan.last cs).Tears m ↔ m.Breaks m.tables cs := by
  rw [Plan.Tears, Plan.last, Ledger.Breaks]
  simp

theorem tears_reading {c : Call} {k : Method} (hk : c.methods = [k])
    (hc : m.tables.after c = m.tables) {next : c.Reply → Plan} :
    (Plan.reading m.tables c next).Tears m ↔
      m.isDown k = false ∧ (next (m.tables.reply c)).Tears m := by
  rw [← Ledger.fails_eq hk, Plan.Tears, Plan.Tears, Plan.reading, Ledger.reached,
    List.takeWhile_cons, List.exists_mem_cons_iff]
  cases m.fails c <;> simp [Tables.afterAll, Ledger.reached, hc]

theorem tears_demanding {α : Type} {next : α → Plan} {o : Option α} :
    (Plan.demanding next o).Tears m ↔ ∃ a, o = some a ∧ (next a).Tears m := by
  cases o with
  | none => simp [Plan.demanding, not_tears_refusal]
  | some a => simp [Plan.demanding]

theorem not_tears_one {c : Call} {k : Method} (hk : c.methods = [k]) :
    ¬ (Plan.last [c]).Tears m := by
  rw [tears_last, Ledger.breaks_cons hk]
  rintro (⟨-, h⟩ | ⟨-, h⟩)
  · exact h rfl
  · exact m.not_breaks_nil _ h

theorem tears_two {c d : Call} {j k : Method} (hj : c.methods = [j]) (hk : d.methods = [k]) :
    (Plan.last [c, d]).Tears m ↔
      m.isDown j = false ∧ m.isDown k = true ∧ m.tables.after c ≠ m.tables := by
  rw [tears_last, Ledger.breaks_cons hj, Ledger.breaks_cons hk]
  simp [m.not_breaks_nil]

end Tears

/-- An operation that is cut off after a change. The failures are those of the next call of each
method. -/
def IsTorn (m : Ledger) : Operation → Prop
  | .deleteRole role =>
    m.tables.roles.contains role = true ∧
      (∀ k ∈ [Method.role, .membersOf, .roleCascade, .dropRulesetsOfRole], m.isDown k = false) ∧
      ((∃ r ∈ m.tables.roleRulesets.rows, r.role = role) ∧
          (m.isDown .dropMemberships = true ∨ m.isDown .dropRole = true) ∨
        (∃ s ∈ m.tables.memberships.rows, s.role = role) ∧
          m.isDown .dropMemberships = false ∧ m.isDown .dropRole = true)
  | .grantRoleRuleset role entitlement target _ _ featureScopes =>
    m.tables.roles.contains role = true ∧ m.tables.entitlements.contains entitlement = true ∧
      m.tables.reply (.roleRuleset role entitlement target) = none ∧
      featureScopes.carryParts.isOk = true ∧
      (∀ k ∈ [Method.role, .entitlement, .roleRuleset, .putRoleRuleset], m.isDown k = false) ∧
      m.isDown .membersOf = true
  | .revokeRoleRuleset role entitlement target =>
    (m.tables.reply (.roleRuleset role entitlement target)).isSome = true ∧
      (∀ k ∈ [Method.roleRuleset, .dropRoleRuleset], m.isDown k = false) ∧
      m.isDown .membersOf = true
  | .forgetAccount account =>
    (∃ s ∈ m.tables.memberships.rows, s.account = account) ∧
      (∀ k ∈ [Method.accountCascade, .dropMemberships], m.isDown k = false) ∧
      m.isDown .dropRulesetsOfAccount = true
  | _ => False

section Torn

variable {m : Ledger} {id : String} {now : Instant} {role entitlement target account : String}

theorem tears_revokeRoleRuleset :
    ((revokeRoleRuleset role entitlement target).plan m.tables id now).Tears m ↔
      (revokeRoleRuleset role entitlement target).IsTorn m := by
  rw [plan, tears_reading rfl rfl, tears_demanding, IsTorn, Option.isSome_iff_exists]
  simp only [tears_two (c := .dropRoleRuleset _) (d := .membersOf _) rfl rfl, List.forall_mem_cons]
  constructor
  · rintro ⟨hread, r, hr, hdrop, hmembers, -⟩
    exact ⟨⟨r, hr⟩, ⟨hread, hdrop, by simp⟩, hmembers⟩
  · rintro ⟨⟨r, hr⟩, ⟨hread, hdrop, -⟩, hmembers⟩
    exact ⟨hread, r, hr, hdrop, hmembers,
      Tables.after_dropRoleRuleset_ne (List.mem_of_find?_eq_some hr)⟩

theorem tears_grantRoleRuleset {name description : String} {featureScopes : Value} :
    ((grantRoleRuleset role entitlement target name description featureScopes).plan m.tables id
        now).Tears m ↔
      (grantRoleRuleset role entitlement target name description featureScopes).IsTorn m := by
  rw [plan, tears_reading rfl rfl, tears_demanding, IsTorn, Table.contains, Table.contains,
    Option.isSome_iff_exists, Option.isSome_iff_exists]
  simp only [tears_reading (c := .entitlement _) rfl rfl, tears_demanding,
    tears_reading (c := .roleRuleset ..) rfl rfl, List.forall_mem_cons]
  cases hheld : m.tables.reply (.roleRuleset role entitlement target) with
  | some r => simp [not_tears_refusal]
  | none =>
    cases featureScopes.carryParts with
    | error e => simp [Except.toOption, Plan.demanding, not_tears_refusal, Except.isOk, Except.toBool]
    | ok scopes =>
      have hne := Tables.after_putRoleRuleset_ne
        (r := ⟨id, role, entitlement, target, name, description, scopes, now⟩) hheld
      simp only [Option.isSome_none, Bool.false_eq_true, if_false, Except.toOption,
        Plan.demanding, tears_two (c := .putRoleRuleset _) (d := .membersOf _) rfl rfl]
      constructor
      · rintro ⟨hrole, r, hr, hread, e, he, hfind, hput, hmembers, -⟩
        exact ⟨⟨r, hr⟩, ⟨e, he⟩, trivial, rfl, ⟨hrole, hread, hfind, hput, by simp⟩, hmembers⟩
      · rintro ⟨⟨r, hr⟩, ⟨e, he⟩, -, -, ⟨hrole, hread, hfind, hput, -⟩, hmembers⟩
        exact ⟨hrole, r, hr, hread, e, he, hfind, hput, hmembers, hne⟩

theorem tears_deleteRole :
    ((deleteRole role).plan m.tables id now).Tears m ↔ (deleteRole role).IsTorn m := by
  have hmembers : m.tables.after (.membersOf role) = m.tables := rfl
  have henter : m.tables.after (.enter .roleCascade) = m.tables := rfl
  rw [plan, tears_reading rfl rfl, tears_demanding, IsTorn, Table.contains,
    Option.isSome_iff_exists, exists_and_right]
  simp only [tears_last, Ledger.breaks_cons (c := .membersOf _) rfl,
    Ledger.breaks_cons (c := .enter .roleCascade) rfl,
    Ledger.breaks_cons (c := .dropRulesetsOfRole _) rfl,
    Ledger.breaks_cons (c := .dropMemberships _ _) rfl, Ledger.breaks_cons (c := .dropRole _) rfl,
    m.not_breaks_nil, hmembers, henter, Tables.after_dropRulesetsOfRole_ne,
    Tables.after_dropMembershipsOfRole_ne, ne_self_iff_false, and_false, false_or, or_false,
    List.forall_mem_cons]
  constructor
  · rintro ⟨hread, hrole, hmembers, henter, hrulesets, h⟩
    refine ⟨hrole, ⟨hread, hmembers, henter, hrulesets, by simp⟩, ?_⟩
    rcases h with ⟨hdown, hr⟩ | ⟨hup, hdown, hr | hs⟩
    · exact .inl ⟨hr, .inl hdown⟩
    · exact .inl ⟨hr, .inr hdown⟩
    · exact .inr ⟨hs, hup, hdown⟩
  · rintro ⟨hrole, ⟨hread, hmembers, henter, hrulesets, -⟩, h⟩
    refine ⟨hread, hrole, hmembers, henter, hrulesets, ?_⟩
    rcases h with ⟨hr, hdown⟩ | ⟨hs, hup, hdown⟩
    · cases hup : m.isDown .dropMemberships with
      | true => exact .inl ⟨rfl, hr⟩
      | false => exact .inr ⟨rfl, hdown.resolve_left (by simp [hup]), .inl hr⟩
    · exact .inr ⟨hup, hdown, .inr hs⟩

theorem tears_forgetAccount :
    ((forgetAccount account).plan m.tables id now).Tears m ↔ (forgetAccount account).IsTorn m := by
  have hreads : m.tables.after (.enter .accountCascade) = m.tables := rfl
  rw [plan, tears_last, Ledger.breaks_cons rfl, Ledger.breaks_cons rfl, Ledger.breaks_cons rfl,
    hreads, Tables.after_dropMembershipsOfAccount_ne, IsTorn]
  simp only [ne_eq, not_true, and_false, false_or, m.not_breaks_nil, or_false, List.forall_mem_cons]
  constructor
  · rintro ⟨henter, hmemberships, hrulesets, hm⟩
    exact ⟨hm, ⟨henter, hmemberships, by simp⟩, hrulesets⟩
  · rintro ⟨hm, ⟨henter, hmemberships, -⟩, hrulesets⟩
    exact ⟨henter, hmemberships, hrulesets, hm⟩

end Torn

theorem tears_plan (m : Ledger) (id : String) (now : Instant) (op : Operation) :
    (op.plan m.tables id now).Tears m ↔ op.IsTorn m := by
  -- what writes at most once is never torn
  cases op with
  | createRole name description =>
    refine iff_of_false (fun h => ?_) False.elim
    rw [plan] at h
    split at h
    · exact not_tears_refusal h
    · exact not_tears_one rfl h
  | changeRole role name description =>
    refine iff_of_false (fun h => ?_) False.elim
    rw [plan, tears_reading rfl rfl, tears_demanding] at h
    obtain ⟨-, r, -, h⟩ := h
    split at h
    · exact not_tears_refusal h
    · exact not_tears_one rfl h
  | deleteRole role => exact tears_deleteRole
  | grantMembership role account =>
    refine iff_of_false (fun h => ?_) False.elim
    rw [plan, tears_reading rfl rfl, tears_demanding] at h
    obtain ⟨-, r, -, h⟩ := h
    rw [tears_reading rfl rfl] at h
    obtain ⟨-, h⟩ := h
    split at h
    · exact m.not_breaks_nil _ (tears_last.1 h)
    · exact not_tears_one rfl h
  | revokeMembership role account =>
    refine iff_of_false (fun h => ?_) False.elim
    rw [plan, tears_reading rfl rfl, tears_demanding] at h
    obtain ⟨-, s, -, h⟩ := h
    exact not_tears_one rfl h
  | grantRoleRuleset role entitlement target name description featureScopes =>
    exact tears_grantRoleRuleset
  | revokeRoleRuleset role entitlement target => exact tears_revokeRoleRuleset
  | grantAccountRuleset account entitlement target featureScopes =>
    refine iff_of_false (fun h => ?_) False.elim
    rw [plan, tears_reading rfl rfl, tears_demanding] at h
    obtain ⟨-, e, -, h⟩ := h
    rw [tears_reading rfl rfl] at h
    obtain ⟨-, h⟩ := h
    split at h
    · exact not_tears_refusal h
    · obtain ⟨scopes, -, h⟩ := tears_demanding.1 h
      exact not_tears_one rfl h
  | revokeAccountRuleset account entitlement target =>
    refine iff_of_false (fun h => ?_) False.elim
    rw [plan, tears_reading rfl rfl, tears_demanding] at h
    obtain ⟨-, r, -, h⟩ := h
    exact not_tears_one rfl h
  | forgetAccount account => exact tears_forgetAccount

/-- An operation is all or nothing, but for those that are torn: it leaves the tables as they are
whenever it fails and is not torn, and a deletion that succeeds removes all that it is to remove. -/
theorem atomicity (cache : Option GrantCache) (op : Operation) (w : World) :
    let r := (op.run cache).run w
    ((∃ e, r.1 = .error e) ∧ r.2.ledger.tables ≠ w.ledger.tables ↔ op.IsTorn w.ledger) ∧
      (∀ role, op = .deleteRole role → r.1 = .ok () →
        r.2.ledger.tables = w.ledger.tables.withoutRole role) ∧
      ∀ account, op = .forgetAccount account → r.1 = .ok () →
        r.2.ledger.tables = w.ledger.tables.withoutAccount account := by
  refine ⟨?_, ?_, ?_⟩
  · obtain ⟨htables, hstopped⟩ := op.run_plan cache w
    rw [hstopped, htables]
    exact op.tears_plan w.ledger _ _
  · rintro role rfl hok
    obtain ⟨hrefuses, htables⟩ := run_plan_ok hok
    obtain ⟨r, hr⟩ := Plan.exists_of_demanding hrefuses
    rw [htables, ← Tables.afterAll_roleCascade, plan, Plan.reading, hr]
    rfl
  · rintro account rfl hok
    obtain ⟨-, htables⟩ := run_plan_ok hok
    rw [htables]
    exact Tables.afterAll_accountCascade _ account

/-! A ruleset is taken away while the members of its role cannot be read, and a role is deleted. -/

theorem atomicity_of_analysts :
    let w := Reached.analysts
    let healthy := { w with ledger := ⟨w.ledger.tables, .none⟩ }
    (Reached.revokesAnalysts.IsTorn w.ledger ∧
      ((Reached.revokesAnalysts.run none).run w).2.ledger.tables ≠ w.ledger.tables) ∧
      (((deleteRole (identifier 0)).run none).run healthy).2.ledger.tables =
        w.ledger.tables.withoutRole (identifier 0) := by
  intro w healthy
  have htorn : Reached.revokesAnalysts.IsTorn w.ledger := by
    refine ⟨rfl, fun k hk => ?_, rfl⟩
    simp only [List.mem_cons, List.not_mem_nil, or_false] at hk
    rcases hk with rfl | rfl <;> rfl
  refine ⟨⟨htorn, ?_⟩, ?_⟩
  · exact ((atomicity none Reached.revokesAnalysts w).1.2 htorn).2
  · exact (atomicity none (.deleteRole (identifier 0)) healthy).2.1 _ rfl rfl

end Operation

end AccessControl
