import AccessControl.Proofs.Administration.Revocation
import AccessControl.Proofs.Store.Failures
import AccessControl.Proofs.Store.Integrity

/-!
The calls that an operation makes of the store, one after the other, up to the first that fails. They
are settled by the tables before the operation, and no two of them are of one method; so the failures
to come say at once how far the operation gets.
-/

namespace AccessControl

open Program Administration Store

namespace Store

def Ledger.callAll : List Call → Ledger → Bool × Ledger
  | [], m => (true, m)
  | c :: cs, m =>
    match m.call c with
    | (.ok _, m) => callAll cs m
    | (.error _, m) => (false, m)

def Ledger.fails (m : Ledger) (c : Call) : Bool := (m.faults.take c.methods).1.isSome

def Ledger.reached (m : Ledger) (cs : List Call) : List Call := cs.takeWhile fun c => !m.fails c

namespace Ledger

variable {m : Ledger} {c : Call}

theorem call_of_fails (h : m.fails c = true) :
    ∃ e l, m.call c = (.error e, l) ∧ l.tables = m.tables := by
  rw [fails] at h
  rw [call]
  rcases htake : m.faults.take c.methods with ⟨_ | e, faults⟩
  · rw [htake] at h
    cases h
  · exact ⟨e, _, rfl, rfl⟩

theorem call_of_not_fails (h : m.fails c = false) :
    m.call c = (.ok (m.tables.reply c), ⟨m.tables.after c, (m.faults.take c.methods).2⟩) := by
  rw [fails] at h
  rw [call]
  rcases htake : m.faults.take c.methods with ⟨_ | e, faults⟩
  · rfl
  · rw [htake] at h
    cases h

theorem callAll_eq {cs : List Call} (hcs : (cs.flatMap Call.methods).Nodup) {m : Ledger}
    {fails : Call → Bool} (hm : ∀ c ∈ cs, m.fails c = fails c) :
    (m.callAll cs).1 = cs.all (fun c => !fails c) ∧
      (m.callAll cs).2.tables = m.tables.afterAll (cs.takeWhile fun c => !fails c) := by
  induction cs generalizing m with
  | nil => exact ⟨rfl, rfl⟩
  | cons c cs ih =>
    obtain ⟨-, hrest, hdisjoint⟩ := List.nodup_append'.1 (List.flatMap_cons ▸ hcs)
    rw [callAll, List.all_cons, List.takeWhile_cons, ← hm c List.mem_cons_self]
    cases hc : m.fails c with
    | true =>
      obtain ⟨e, l, hcall, hl⟩ := call_of_fails hc
      rw [hcall]
      exact ⟨rfl, hl⟩
    | false =>
      rw [call_of_not_fails hc]
      refine ih hrest fun d hd => ?_
      rw [← hm d (List.mem_cons_of_mem _ hd)]
      -- the call that was made has used up failures of its own methods only
      refine congrArg Option.isSome (Faults.fst_take_congr fun k hk => Faults.snd_take _ fun hkc => ?_)
      exact hdisjoint hkc (List.mem_flatMap.2 ⟨d, hd, hk⟩)

end Ledger

end Store

namespace Operation

/-- The calls of an operation while none of them fails, and whether it refuses after them. -/
structure Plan where
  calls : List Call
  refuses : Bool

namespace Plan

def refusal : Plan := ⟨[], true⟩

def last (calls : List Call) : Plan := ⟨calls, false⟩

def reading (t : Tables) (c : Call) (next : c.Reply → Plan) : Plan :=
  ⟨c :: (next (t.reply c)).calls, (next (t.reply c)).refuses⟩

def demanding {α : Type} (next : α → Plan) : Option α → Plan
  | some a => next a
  | none => refusal

theorem exists_of_demanding {α : Type} {next : α → Plan} {o : Option α}
    (h : (demanding next o).refuses = false) : ∃ a, o = some a := by
  cases o with
  | none => cases h
  | some a => exact ⟨a, rfl⟩

end Plan

open Plan in
def plan (t : Tables) (id : String) (now : Instant) : Operation → Plan
  | .createRole name description =>
    if name = "" then refusal else last [.putRole ⟨id, name, description, now, now⟩]
  | .changeRole role name description =>
    reading t (.role role) <| demanding fun r =>
      if name = some "" then refusal
      else last [.putRole { r with
        name := name.getD r.name
        description := description.getD r.description
        updatedAt := now }]
  | .deleteRole role =>
    reading t (.role role) <| demanding fun _ => last
      [.membersOf role, .enter .roleCascade, .dropRulesetsOfRole role,
       .dropMemberships (some role) none, .dropRole role]
  | .grantMembership role account =>
    reading t (.role role) <| demanding fun _ => reading t (.membership role account) fun held =>
      if held.isSome then last [] else last [.putMembership ⟨id, role, account, now⟩]
  | .revokeMembership role account =>
    reading t (.membership role account) <| demanding fun m => last [.dropMembership m.id]
  | .grantRoleRuleset role entitlement target name description featureScopes =>
    reading t (.role role) <| demanding fun _ => reading t (.entitlement entitlement) <|
      demanding fun _ => reading t (.roleRuleset role entitlement target) fun held =>
        if held.isSome then refusal
        else featureScopes.carryParts.toOption |> demanding fun featureScopes => last
          [.putRoleRuleset ⟨id, role, entitlement, target, name, description, featureScopes, now⟩,
           .membersOf role]
  | .revokeRoleRuleset role entitlement target =>
    reading t (.roleRuleset role entitlement target) <| demanding fun r => last
      [.dropRoleRuleset r.id, .membersOf role]
  | .grantAccountRuleset account entitlement target featureScopes =>
    reading t (.entitlement entitlement) <| demanding fun _ =>
      reading t (.accountRuleset account entitlement target) fun held =>
        if held.isSome then refusal
        else featureScopes.carryParts.toOption |> demanding fun featureScopes => last
          [.putAccountRuleset ⟨id, account, entitlement, target, featureScopes, now⟩]
  | .revokeAccountRuleset account entitlement target =>
    reading t (.accountRuleset account entitlement target) <| demanding fun r => last
      [.dropAccountRuleset r.id]
  | .forgetAccount account => last
      [.enter .accountCascade, .dropMemberships none (some account),
       .dropRulesetsOfAccount account]

section Along

variable {t : Tables} {allow : Tables → Call → Prop}

theorem along_reading {c : Call} {next : c.Reply → Plan} (hc : allow t c)
    (hread : t.after c = t) (h : t.Along allow (next (t.reply c)).calls) :
    t.Along allow (Plan.reading t c next).calls :=
  ⟨hc, hread.symm ▸ h⟩

theorem along_demanding {α : Type} {next : α → Plan} {o : Option α}
    (h : ∀ a, o = some a → t.Along allow (next a).calls) :
    t.Along allow (Plan.demanding next o).calls := by
  cases o with
  | none => trivial
  | some a => exact h a rfl

end Along

/-- The methods of the calls of a plan are some of these, in this order. -/
def Plan.Within (methods : List Method) (x : Plan) : Prop :=
  (x.calls.flatMap Call.methods).Sublist methods

section Within

variable {t : Tables} {methods : List Method}

theorem within_refusal : Plan.refusal.Within methods :=
  List.nil_sublist _

theorem within_last {cs : List Call} (h : cs.flatMap Call.methods = methods) :
    (Plan.last cs).Within methods :=
  h ▸ List.Sublist.refl _

theorem within_reading {c : Call} {k : Method} (hc : c.methods = [k]) {next : c.Reply → Plan}
    (h : ∀ r, (next r).Within methods) : (Plan.reading t c next).Within (k :: methods) := by
  rw [Plan.Within, Plan.reading, List.flatMap_cons, hc]
  exact (h _).cons_cons k

theorem within_demanding {α : Type} {next : α → Plan} (h : ∀ a, (next a).Within methods)
    (o : Option α) : (Plan.demanding next o).Within methods := by
  cases o with
  | none => exact within_refusal
  | some a => exact h a

end Within

theorem nodup_plan (t : Tables) (id : String) (now : Instant) (op : Operation) :
    ((op.plan t id now).calls.flatMap Call.methods).Nodup := by
  suffices h : ∃ methods : List Method, methods.Nodup ∧ (op.plan t id now).Within methods by
    obtain ⟨methods, hnodup, hwithin⟩ := h
    exact hnodup.sublist hwithin
  cases op with
  | createRole name description =>
    refine ⟨[.putRole], by decide, ?_⟩
    rw [plan]
    split
    · exact within_refusal
    · exact within_last rfl
  | changeRole role name description =>
    refine ⟨[.role, .putRole], by decide, within_reading rfl (within_demanding fun r => ?_)⟩
    split
    · exact within_refusal
    · exact within_last rfl
  | deleteRole role =>
    refine ⟨[.role, .membersOf, .roleCascade, .dropRulesetsOfRole, .dropMemberships, .dropRole],
      by decide, within_reading rfl (within_demanding fun r => within_last rfl)⟩
  | grantMembership role account =>
    refine ⟨[.role, .membership, .putMembership], by decide,
      within_reading rfl (within_demanding fun _ => within_reading rfl fun held => ?_)⟩
    split
    · exact List.nil_sublist _
    · exact within_last rfl
  | revokeMembership role account =>
    exact ⟨[.membership, .dropMembership], by decide,
      within_reading rfl (within_demanding fun m => within_last rfl)⟩
  | grantRoleRuleset role entitlement target name description featureScopes =>
    refine ⟨[.role, .entitlement, .roleRuleset, .putRoleRuleset, .membersOf], by decide,
      within_reading rfl (within_demanding fun _ => within_reading rfl (within_demanding fun _ =>
        within_reading rfl fun held => ?_))⟩
    split
    · exact within_refusal
    · refine within_demanding (fun scopes => ?_) _
      exact within_last rfl
  | revokeRoleRuleset role entitlement target =>
    exact ⟨[.roleRuleset, .dropRoleRuleset, .membersOf], by decide,
      within_reading rfl (within_demanding fun r => within_last rfl)⟩
  | grantAccountRuleset account entitlement target featureScopes =>
    refine ⟨[.entitlement, .accountRuleset, .putAccountRuleset], by decide,
      within_reading rfl (within_demanding fun _ => within_reading rfl fun held => ?_)⟩
    split
    · exact within_refusal
    · refine within_demanding (fun scopes => ?_) _
      exact within_last rfl
  | revokeAccountRuleset account entitlement target =>
    exact ⟨[.accountRuleset, .dropAccountRuleset], by decide,
      within_reading rfl (within_demanding fun r => within_last rfl)⟩
  | forgetAccount account =>
    exact ⟨[.accountCascade, .dropMemberships, .dropRulesetsOfAccount], by decide, within_last rfl⟩

end Operation

/-! A program that follows a plan. -/

/-- What a program does to the tables is to make the calls of a plan, and it succeeds if all of them
are made and nothing is refused. -/
def Program.Obeys {α : Type} (t : Tables) (n : Nat) (now : Instant) (p : Program α)
    (x : Operation.Plan) : Prop :=
  ∀ w : World, w.ledger.tables = t → w.minted = n → w.clock = now →
    (p.run w).2.ledger = (w.ledger.callAll x.calls).2 ∧
      (p.run w).1.isOk = ((w.ledger.callAll x.calls).1 && !x.refuses)

section Obeys

variable {α β : Type} {t : Tables} {n : Nat} {now : Instant} {x : Operation.Plan}

theorem obeys_pure (a : α) : Obeys t n now (pure a) (.last []) :=
  fun _ _ _ _ => ⟨rfl, rfl⟩

theorem obeys_fail (e : Error) : Obeys t n now (fail e : Program α) .refusal :=
  fun _ _ _ _ => ⟨rfl, rfl⟩

theorem obeys_call {c : Call} {f : c.Reply → Program α} {cs : List Call} {refuses : Bool}
    (hf : Obeys (t.after c) n now (f (t.reply c)) ⟨cs, refuses⟩) :
    Obeys t n now (call c >>= f) ⟨c :: cs, refuses⟩ := by
  rintro w rfl hn hnow
  have hrun : (call c >>= f).run w =
      (ofExcept (w.ledger.call c).1 >>= f).run { w with ledger := (w.ledger.call c).2 } := rfl
  rw [hrun, Ledger.callAll]
  cases hc : w.ledger.fails c with
  | true =>
    obtain ⟨e, l, hcall, -⟩ := Ledger.call_of_fails hc
    rw [hcall]
    exact ⟨rfl, rfl⟩
  | false =>
    rw [Ledger.call_of_not_fails hc]
    exact hf _ rfl hn hnow

theorem obeys_mint {f : String → Program α}
    (hf : Obeys t (n + 1) now (f (identifier n)) x) :
    Obeys t n now (perform .mint >>= f) x := by
  rintro w ht rfl hnow
  exact hf { w with minted := w.minted + 1 } ht rfl hnow

theorem obeys_now {f : Instant → Program α} (hf : Obeys t n now (f now) x) :
    Obeys t n now (perform .now >>= f) x := by
  rintro w ht hn rfl
  exact hf w ht hn rfl

theorem run_storing_ok {p : Program α} {w v : World} {a : α} (h : p.run w = (.ok a, v))
    (logger operation : String) : (storing logger operation p).run w = (.ok a, v) := by
  rw [storing, run_bind, run_attempt, h]
  rfl

theorem run_storing_error {p : Program α} {w v : World} {e : Error} (h : p.run w = (.error e, v))
    (logger operation : String) :
    ∃ e' v', (storing logger operation p).run w = (.error e', v') ∧ v'.ledger = v.ledger := by
  rw [storing, run_bind, run_attempt, h]
  change ∃ e' v', run (ite _ _ _) v = _ ∧ _
  split
  · exact ⟨e, v, rfl, rfl⟩
  · exact ⟨_, _, rfl, rfl⟩

theorem Program.Obeys.storing {p : Program α} (hp : Obeys t n now p x) (logger operation : String) :
    Obeys t n now (storing logger operation p) x := by
  intro w ht hn hnow
  have h := hp w ht hn hnow
  rcases hrun : p.run w with ⟨e | a, v⟩
  · obtain ⟨e', v', hrun', hledger⟩ := run_storing_error hrun logger operation
    rw [hrun] at h
    rw [hrun']
    exact ⟨hledger.trans h.1, h.2⟩
  · rw [run_storing_ok hrun, ← hrun]
    exact h

theorem Program.Obeys.map {p : Program α} (hp : Obeys t n now p x) {f : α → Program β}
    (hf : ∀ a, ∃ b, f a = pure b) : Obeys t n now (p >>= f) x := by
  intro w ht hn hnow
  have h := hp w ht hn hnow
  rw [run_bind]
  revert h
  rcases p.run w with ⟨e | a, v⟩
  · exact id
  · obtain ⟨b, hb⟩ := hf a
    simp only [hb]
    exact id

theorem obeys_stored {c : Call} {f : c.Reply → Program α} {cs : List Call} {refuses : Bool}
    {logger operation : String} (hf : Obeys (t.after c) n now (f (t.reply c)) ⟨cs, refuses⟩) :
    Obeys t n now (storing logger operation (call c) >>= f) ⟨c :: cs, refuses⟩ := by
  rintro w rfl hn hnow
  have hcall : (call c).run w = ((w.ledger.call c).1, { w with ledger := (w.ledger.call c).2 }) :=
    run_ofExcept (w.ledger.call c).1 { w with ledger := (w.ledger.call c).2 }
  rw [run_bind, Ledger.callAll]
  cases hc : w.ledger.fails c with
  | true =>
    obtain ⟨e, l, hfailed, -⟩ := Ledger.call_of_fails hc
    rw [hfailed] at hcall
    obtain ⟨e', v', hrun, hledger⟩ := run_storing_error hcall logger operation
    rw [hrun, hfailed]
    exact ⟨hledger, rfl⟩
  | false =>
    rw [Ledger.call_of_not_fails hc] at hcall
    rw [run_storing_ok hcall, Ledger.call_of_not_fails hc]
    exact hf _ rfl hn hnow

theorem obeys_demand {id : String} {f : Role → Program α} {next : Role → Operation.Plan}
    (hf : ∀ r, t.roles.get? id = some r → Obeys t n now (f r) (next r)) :
    Obeys t n now (Role.demand id >>= f) (.reading t (.role id) (.demanding next)) := by
  rw [Role.demand, Role.find?, bind_assoc]
  refine obeys_stored ?_
  change Obeys t n now _ (Operation.Plan.demanding next (t.roles.get? id))
  cases hr : t.roles.get? id with
  | none =>
    simp only [Tables.reply, hr]
    exact obeys_fail _
  | some r =>
    simp only [Tables.reply, hr]
    exact hf r hr

theorem obeys_demandEntitlement {name : String} {f : Entitlement → Program α}
    {next : Entitlement → Operation.Plan} (hf : ∀ e, Obeys t n now (f e) (next e)) :
    Obeys t n now (Entitlement.demand name >>= f)
      (.reading t (.entitlement name) (.demanding next)) := by
  rw [Entitlement.demand, Entitlements.find?, bind_assoc]
  refine obeys_stored ?_
  cases he : t.reply (.entitlement name) with
  | none => exact obeys_fail _
  | some e => exact hf e

theorem obeys_log {level : Log.Level} {logger message : String} {fields : Value.Fields}
    {f : Unit → Program α} (hf : Obeys t n now (f ()) x) :
    Obeys t n now (log level logger message fields >>= f) x :=
  fun _ ht hn hnow => hf _ ht hn hnow

theorem obeys_accounts (role : String) :
    Obeys t n now (Role.accounts role) (.last [.membersOf role]) :=
  obeys_call (obeys_pure _)

end Obeys

namespace Operation

theorem obeys_change (t : Tables) (n : Nat) (now : Instant) (op : Operation) :
    Obeys t n now op.change (op.plan t (identifier n) now) := by
  -- each operation, step by step, beside the calls that its plan lists
  cases op with
  | createRole name description =>
    refine Obeys.map ?_ fun _ => ⟨_, rfl⟩
    rw [Role.create, plan]
    split
    · exact obeys_fail _
    · exact obeys_mint (obeys_now (obeys_stored (obeys_log (obeys_pure _))))
  | changeRole id name description =>
    refine Obeys.map ?_ fun _ => ⟨_, rfl⟩
    rw [Role.change, plan]
    refine obeys_demand fun r _ => ?_
    split
    · exact obeys_fail _
    · exact obeys_now (obeys_stored (obeys_log (obeys_pure _)))
  | deleteRole id =>
    refine obeys_demand fun r _ => Obeys.map (Obeys.storing ?_ _ _) fun _ => ⟨_, rfl⟩
    rw [Role.accounts, Store.removeRole]
    simp only [bind_assoc, pure_bind]
    exact obeys_call (obeys_call (obeys_call (obeys_call (obeys_call (obeys_pure _)))))
  | grantMembership role account =>
    refine obeys_demand fun r _ => Obeys.map (Obeys.storing (obeys_call ?_) _ _) fun x => ?_
    · cases hm : t.reply (.membership role account) with
      | some m => exact obeys_pure _
      | none => exact obeys_mint (obeys_now (obeys_call (obeys_pure _)))
    · rcases x with ⟨m, _ | _⟩ <;> exact ⟨_, rfl⟩
  | revokeMembership role account =>
    refine Obeys.map (Obeys.storing (obeys_call ?_) _ _) fun _ => ⟨_, rfl⟩
    cases hm : t.reply (.membership role account) with
    | none => exact obeys_fail _
    | some m => exact obeys_call (obeys_pure _)
  | grantRoleRuleset role entitlement target name description featureScopes =>
    refine obeys_demand fun r _ => obeys_demandEntitlement fun e => ?_
    refine Obeys.map (Obeys.storing (obeys_call ?_) _ _) fun _ => ⟨_, rfl⟩
    cases t.reply (.roleRuleset role entitlement target) with
    | some r => exact obeys_fail _
    | none =>
      cases featureScopes.carryParts with
      | error e => exact obeys_fail e
      | ok scopes =>
        exact obeys_mint (obeys_now (obeys_call ((obeys_accounts role).map fun _ => ⟨_, rfl⟩)))
  | revokeRoleRuleset role entitlement target =>
    refine Obeys.map (Obeys.storing (obeys_call ?_) _ _) fun _ => ⟨_, rfl⟩
    cases hr : t.reply (.roleRuleset role entitlement target) with
    | none => exact obeys_fail _
    | some r => exact obeys_call (obeys_call (obeys_pure _))
  | grantAccountRuleset account entitlement target featureScopes =>
    refine obeys_demandEntitlement fun e => ?_
    refine Obeys.map (Obeys.storing (obeys_call ?_) _ _) fun _ => ⟨_, rfl⟩
    cases t.reply (.accountRuleset account entitlement target) with
    | some r => exact obeys_fail _
    | none =>
      cases featureScopes.carryParts with
      | error e => exact obeys_fail e
      | ok scopes => exact obeys_mint (obeys_now (obeys_call (obeys_pure _)))
  | revokeAccountRuleset account entitlement target =>
    refine Obeys.map (Obeys.storing (obeys_call ?_) _ _) fun _ => ⟨_, rfl⟩
    cases hr : t.reply (.accountRuleset account entitlement target) with
    | none => exact obeys_fail _
    | some r => exact obeys_call (obeys_pure _)
  | forgetAccount account =>
    refine Obeys.map (Obeys.storing ?_ _ _) fun _ => ⟨_, rfl⟩
    rw [Store.removeAccount]
    exact obeys_call (obeys_call (obeys_call (obeys_pure _)))

def reached (op : Operation) (w : World) : List Call :=
  w.ledger.reached (op.plan w.ledger.tables (identifier w.minted) w.clock).calls

def IsStopped (op : Operation) (w : World) : Prop :=
  let x := op.plan w.ledger.tables (identifier w.minted) w.clock
  x.refuses = true ∨ ∃ c ∈ x.calls, w.ledger.fails c = true

theorem exists_run_settle (cache : Option GrantCache) (u : Upshot) (w : World) :
    ∃ v, (u.settle cache).run w = (.ok (), v) ∧ v.Beside w := by
  cases cache with
  | some cache =>
    obtain ⟨v, hv, hbeside, -⟩ := run_settle cache u w
    exact ⟨v, hv, hbeside⟩
  | none =>
    obtain ⟨accounts, _ | line⟩ := u
    · exact ⟨w, rfl, rfl, rfl, rfl⟩
    · exact ⟨_, rfl, rfl, rfl, rfl⟩

/-- What an operation does: it makes the calls of its plan up to the first that fails, and it fails
when it is stopped. -/
theorem run_plan (cache : Option GrantCache) (op : Operation) (w : World) :
    ((op.run cache).run w).2.ledger.tables = w.ledger.tables.afterAll (op.reached w) ∧
      ((∃ e, ((op.run cache).run w).1 = .error e) ↔ op.IsStopped w) := by
  obtain ⟨hledger, hok⟩ := op.obeys_change w.ledger.tables w.minted w.clock w rfl rfl rfl
  obtain ⟨hall, htables⟩ := Ledger.callAll_eq
    (op.nodup_plan w.ledger.tables (identifier w.minted) w.clock) (m := w.ledger) fun _ _ => rfl
  have hsettled : ((op.run cache).run w).2.ledger = (op.change.run w).2.ledger ∧
      ((op.run cache).run w).1.isOk = (op.change.run w).1.isOk := by
    rw [run_eq, run_bind]
    rcases op.change.run w with ⟨e | u, v⟩
    · exact ⟨rfl, rfl⟩
    · obtain ⟨v', hv', hbeside⟩ := exists_run_settle cache u v
      simp only [hv']
      exact ⟨hbeside.ledger, rfl⟩
  refine ⟨by rw [hsettled.1, hledger, htables]; rfl, ?_⟩
  rw [← Outcome.isOk_eq_false_iff, hsettled.2, hok, hall, Bool.and_eq_false_iff, Bool.not_eq_false',
    List.all_eq_false, or_comm]
  simp only [IsStopped, Bool.not_eq_true', Bool.not_eq_false]

theorem run_plan_ok {cache : Option GrantCache} {op : Operation} {w : World}
    (h : ((op.run cache).run w).1 = .ok ()) :
    let x := op.plan w.ledger.tables (identifier w.minted) w.clock
    x.refuses = false ∧ ((op.run cache).run w).2.ledger.tables = w.ledger.tables.afterAll x.calls := by
  obtain ⟨htables, hstopped⟩ := op.run_plan cache w
  have hnot : ¬ op.IsStopped w := fun hs => by
    obtain ⟨e, he⟩ := hstopped.2 hs
    cases h.symm.trans he
  rw [IsStopped, not_or, not_exists] at hnot
  refine ⟨Bool.eq_false_of_not_eq_true hnot.1, htables.trans ?_⟩
  refine congrArg _ (List.takeWhile_eq_self_iff.2 fun c hc => ?_)
  rw [Bool.not_eq_true']
  exact Bool.eq_false_of_not_eq_true fun hfails => hnot.2 c ⟨hc, hfails⟩

end Operation

end AccessControl
