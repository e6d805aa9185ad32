import AccessControl.Proofs.Decision.Evaluations
import AccessControl.Proofs.Grant.Isolation
import AccessControl.Proofs.Grant.Resolution

/-!
Precedence: blocks come before the administrators' privilege, this before the bypasses, and these
before the rulesets, whatever is asked. What comes later is not evaluated.
-/

namespace AccessControl

open Program

namespace Policy

structure IsTotal (p : Policy) : Prop where
  blocks : ∀ o ∈ p.overrides.blocks, o.IsTotal
  bypasses : ∀ o ∈ p.overrides.bypasses, o.IsTotal
  isAdmin : p.isAdmin.IsTotal

/-- There is an account, and it has the administrators' privilege. -/
def isPrivileged (p : Policy) (r : Request) : Bool :=
  r.account.any fun a => p.isAdmin.accepts { account := some a }

/-- The first block that takes a request decides. If there is none, the privilege does; then the
first bypass that takes the request, and then the rulesets. -/
def precedence (p : Policy) (r : Request) (verdict : Except Error Bool) : Except Error Decision :=
  match p.overrides.blocks.find? (·.takes r) with
  | some o => .ok (.block o)
  | none =>
    if p.isPrivileged r then .ok .admin
    else match p.overrides.bypasses.find? (·.takes r) with
      | some o => .ok (.bypass o)
      | none => verdict.map .ofVerdict

theorem privilege_eq {p : Policy} (h : p.IsTotal) (r : Request) :
    p.privilege r.account = .ok (p.isPrivileged r) := by
  rw [isPrivileged]
  cases r.account with
  | none => rfl
  | some a => exact h.isAdmin _

theorem ruling_eq {p : Policy} (h : p.IsTotal) (r : Request) (verdict : Except Error Bool) :
    p.ruling r verdict = p.precedence r verdict := by
  rw [ruling, stage, Override.pick?_eq h.blocks, privilege_eq h, Override.pick?_eq h.bypasses,
    precedence]
  cases p.overrides.blocks.find? (·.takes r) with
  | some o => rfl
  | none =>
    cases p.isPrivileged r with
    | true => rfl
    | false =>
      cases p.overrides.bypasses.find? (·.takes r) with
      | some o => rfl
      | none => cases verdict <;> rfl

/-- Policies that agree as far as a request is looked at: they may differ behind a block that takes
it, in the bypasses when there is the privilege, and behind a bypass that takes it. -/
inductive Agrees (r : Request) : Policy → Policy → Prop where
  | block {front back back' bypasses bypasses' : List Override} {isAdmin isAdmin' : Predicate}
    {o : Override} (h : o.takes r = true) :
    Agrees r ⟨⟨front ++ o :: back, bypasses⟩, isAdmin⟩ ⟨⟨front ++ o :: back', bypasses'⟩, isAdmin'⟩
  | admin {blocks bypasses bypasses' : List Override} {isAdmin : Predicate}
    (h : r.account.any (fun a => isAdmin.accepts { account := some a }) = true) :
    Agrees r ⟨⟨blocks, bypasses⟩, isAdmin⟩ ⟨⟨blocks, bypasses'⟩, isAdmin⟩
  | bypass {blocks front back back' : List Override} {isAdmin : Predicate} {o : Override}
    (h : o.takes r = true) :
    Agrees r ⟨⟨blocks, front ++ o :: back⟩, isAdmin⟩ ⟨⟨blocks, front ++ o :: back'⟩, isAdmin⟩
  | same (p : Policy) : Agrees r p p

end Policy

/-! What comes later is not evaluated. -/

namespace Batched

variable {α β : Type}

/-- What a batch has found out about the privilege holds. -/
def Knows (privilege : Except Error Bool) (b : Batch) : Prop :=
  ∀ a, b.admin = some a → privilege = .ok a

/-- Parts of a batch that are the same once what was found out holds, and keep to it. -/
def Same (privilege : Except Error Bool) (m m' : Batched α) : Prop :=
  ∀ b, Knows privilege b → m b = m' b ∧ (m b).Returns fun r => Knows privilege r.2

variable {privilege : Except Error Bool}

theorem lift_bind (p : Program α) (f : α → Batched β) (b : Batch) :
    ((liftM p : Batched α) >>= f) b = p >>= fun a => f a b :=
  bind_bind p (fun a => .done (a, b)) fun (a, b) => f a b

theorem same_pure (a : α) : Same privilege (pure a : Batched α) (pure a) :=
  fun _ hb => ⟨rfl, hb⟩

theorem same_lift (p : Program α) : Same privilege (liftM p : Batched α) (liftM p) :=
  fun _ hb => ⟨rfl, p.returns_true.bind fun _ _ => hb⟩

theorem Same.bind {m m' : Batched α} {f f' : α → Batched β} (hm : Same privilege m m')
    (hf : ∀ a, Same privilege (f a) (f' a)) : Same privilege (m >>= f) (m' >>= f') := by
  intro b hb
  obtain ⟨heq, hret⟩ := hm b hb
  constructor
  · change (m b >>= fun r => f r.1 r.2) = (m' b >>= fun r => f' r.1 r.2)
    rw [← heq]
    exact hret.bind_congr fun r hr => (hf r.1 r.2 hr).1
  · exact hret.bind fun r hr => (hf r.1 r.2 hr).2

theorem same_lift_bind {p : Program α} {Q : α → Prop} (hp : p.Returns Q) {f f' : α → Batched β}
    (hf : ∀ a, Q a → Same privilege (f a) (f' a)) :
    Same privilege ((liftM p : Batched α) >>= f) ((liftM p : Batched α) >>= f') := by
  intro b hb
  rw [lift_bind, lift_bind]
  exact ⟨hp.bind_congr fun a ha => (hf a ha b hb).1, hp.bind fun a ha => (hf a ha b hb).2⟩

theorem same_mapM {γ : Type} {f f' : γ → Batched α} {xs : List γ}
    (h : ∀ x ∈ xs, Same privilege (f x) (f' x)) :
    Same privilege (xs.mapM f) (xs.mapM f') := by
  induction xs with
  | nil => exact same_pure []
  | cons x xs ih =>
    rw [List.mapM_cons, List.mapM_cons]
    refine (h x List.mem_cons_self).bind fun a => ?_
    exact (ih fun y hy => h y (List.mem_cons_of_mem _ hy)).bind fun as => same_pure (a :: as)

theorem same_snapshot (i j : Inquiry) (h : i.grants = j.grants) :
    Same privilege i.snapshot j.snapshot := by
  intro b hb
  rw [i.snapshot_eq, j.snapshot_eq, h]
  cases b.snapshot with
  | some s => exact ⟨rfl, hb⟩
  | none => exact ⟨rfl, (returns_true _).bind fun _ _ => hb⟩

theorem returns_isAdmin {i : Inquiry} (hi : Waits i.admin privilege) {b : Batch}
    (hb : Knows privilege b) :
    (i.isAdmin b).Returns fun r => privilege = .ok r.1 ∧ Knows privilege r.2 := by
  rw [i.isAdmin_eq]
  cases ha : b.admin with
  | some a => exact ⟨hb a ha, hb⟩
  | none =>
    refine hi.returns.bind fun a ha => ⟨ha, ?_⟩
    rintro _ ⟨⟩
    exact ha

theorem same_isAdmin_bind {i : Inquiry} (hi : Waits i.admin privilege) {f f' : Bool → Batched α}
    (hf : ∀ a, privilege = .ok a → Same privilege (f a) (f' a)) :
    Same privilege (i.isAdmin >>= f) (i.isAdmin >>= f') := by
  intro b hb
  have hret := returns_isAdmin hi hb
  constructor
  · change (i.isAdmin b >>= fun r => f r.1 r.2) = (i.isAdmin b >>= fun r => f' r.1 r.2)
    exact hret.bind_congr fun r hr => (hf r.1 hr.1 r.2 hr.2).1
  · exact hret.bind fun r hr => (hf r.1 hr.1 r.2 hr.2).2

end Batched

namespace Policy

open Batched

theorem returns_find? {os : List Override} {r : Request} {o : Override}
    (h : Override.pick? r os = .ok (some o)) : (find? os r).Returns (· = some o) := by
  refine (Override.waits_first? r os).returns.bind fun x hx => ?_
  rw [h] at hx
  cases hx
  exact (returns_true _).bind fun _ _ => rfl

theorem find?_append {front : List Override} {o : Override} {r : Request} (ho : o.IsTotal)
    (h : o.takes r = true) (back : List Override) :
    find? (front ++ o :: back) r = find? (front ++ [o]) r := by
  have hv : o.verdict r = .ok true := by rw [Override.verdict_eq ho, h]
  rw [find?, Override.first?_append hv, find?]

theorem find?_takes {os : List Override} {r : Request} {o : Override} (ho : o ∈ os)
    (h : o.takes r = true) : ∃ x, os.find? (·.takes r) = some x := by
  rw [← Option.isSome_iff_exists, List.find?_isSome]
  exact ⟨o, ho, h⟩

variable {p p' : Policy} {r : Request} {privilege : Except Error Bool} {i j : Inquiry}

theorem same_settled?_of_bypassed? (hblocks : p.overrides.blocks = p'.overrides.blocks)
    (hentry : i.entryPoint = j.entryPoint) (hi : i.admin = j.admin)
    (hwaits : Waits i.admin privilege)
    (hbypassed : privilege = .ok false →
      p.bypassed? i.entryPoint r = p'.bypassed? i.entryPoint r) :
    Same privilege (p.settled? i r) (p'.settled? j r) := by
  have hblocked : p'.blocked? j.entryPoint r = p.blocked? i.entryPoint r := by
    rw [blocked?, blocked?, hblocks, hentry]
  have hadmin : j.isAdmin = i.isAdmin := by
    funext b
    rw [i.isAdmin_eq, j.isAdmin_eq, hi]
  rw [settled?, settled?, hblocked, hadmin, ← hentry]
  refine (same_lift _).bind fun d => ?_
  cases d with
  | some d => exact same_pure _
  | none =>
    refine same_isAdmin_bind hwaits fun a ha => ?_
    cases a with
    | true => exact (same_lift _).bind fun d => same_pure _
    | false =>
      change Same privilege (liftM (p.bypassed? i.entryPoint r))
        (liftM (p'.bypassed? i.entryPoint r))
      rw [hbypassed ha]
      exact same_lift _

theorem same_settled?_of_blocked? (hentry : i.entryPoint = j.entryPoint)
    (hfind : find? p.overrides.blocks r = find? p'.overrides.blocks r) {o : Override}
    (ho : Override.pick? r p.overrides.blocks = .ok (some o)) :
    Same privilege (p.settled? i r) (p'.settled? j r) := by
  have hblocked : p'.blocked? j.entryPoint r = p.blocked? i.entryPoint r := by
    rw [blocked?, blocked?, hfind, hentry]
  have hret : (p.blocked? i.entryPoint r).Returns fun d => ∃ d', d = some d' := by
    refine (returns_find? ho).bind ?_
    rintro _ rfl
    exact (returns_true _).bind fun d _ => ⟨d, rfl⟩
  rw [settled?, settled?, hblocked]
  refine same_lift_bind hret ?_
  rintro _ ⟨d, rfl⟩
  exact same_pure _

theorem Agrees.same_settled? (hp : p.IsTotal) (h : Agrees r p p')
    (hentry : i.entryPoint = j.entryPoint) (hi : i.admin = p.admits r.account)
    (hj : j.admin = p'.admits r.account) :
    Same (p.privilege r.account) (p.settled? i r) (p'.settled? j r) := by
  have hwaits : Waits i.admin (p.privilege r.account) := hi ▸ p.waits_admits r.account
  cases h with
  | @block front back back' bypasses bypasses' isAdmin isAdmin' o ho =>
    have hmem : o ∈ front ++ o :: back := by simp
    obtain ⟨x, hx⟩ := find?_takes hmem ho
    refine same_settled?_of_blocked? hentry (o := x) ?_ ?_
    · exact (find?_append (hp.blocks o hmem) ho back).trans
        (find?_append (hp.blocks o hmem) ho back').symm
    · rw [Override.pick?_eq hp.blocks, hx]
  | @admin blocks bypasses bypasses' isAdmin ha =>
    refine same_settled?_of_bypassed? rfl hentry (hi.trans hj.symm) hwaits fun hfalse => ?_
    rw [privilege_eq hp, isPrivileged, ha] at hfalse
    cases hfalse
  | @bypass blocks front back back' isAdmin o ho =>
    have hmem : o ∈ front ++ o :: back := by simp
    refine same_settled?_of_bypassed? rfl hentry (hi.trans hj.symm) hwaits fun _ => ?_
    have hfind : find? (front ++ o :: back) r = find? (front ++ o :: back') r :=
      (find?_append (hp.bypasses o hmem) ho back).trans
        (find?_append (hp.bypasses o hmem) ho back').symm
    change (find? (front ++ o :: back) r >>= _) = (find? (front ++ o :: back') r >>= _)
    rw [hfind]
  | same =>
    exact same_settled?_of_bypassed? rfl hentry (hi.trans hj.symm) hwaits fun _ => rfl

theorem Agrees.same_decide (hp : p.IsTotal) (h : Agrees r p p')
    (hentry : i.entryPoint = j.entryPoint) (hi : i.admin = p.admits r.account)
    (hj : j.admin = p'.admits r.account) (hgrants : i.grants = j.grants)
    (test : Snapshot → Except Error Bool) :
    Same (p.privilege r.account) (p.decide i r test) (p'.decide j r test) := by
  rw [decide, decide, ← hentry]
  refine (h.same_settled? hp hentry hi hj).bind fun d => ?_
  cases d with
  | some d => exact same_pure d
  | none =>
    exact (same_snapshot i j hgrants).bind fun s => (same_lift _).bind fun a => same_lift _

end Policy

namespace Evaluation

open Batched

variable {f : Filter} {p : Policy} {q : Evaluation}

theorem run'_congr {α : Type} {privilege : Except Error Bool} {m m' : Batched α}
    (h : Same privilege m m') : m.run' {} = m'.run' {} := by
  have hb : Knows privilege ({} : Batch) := by
    rintro a ⟨⟩
  rw [StateT.run', StateT.run', (h {} hb).1]

theorem asking_congr {α : Type} {privilege : Except Error Bool} {m m' : Batched α}
    (account : Account) (h : Same privilege m m') :
    Authority.asking account m = Authority.asking account m' := by
  rw [Authority.asking, Authority.asking, run'_congr h]

def ruledBy (f : Filter) (p : Policy) : Filter :=
  { f with authority := { f.authority with policy := p } }

theorem same_decideEach (hf : f.authority.policy.IsTotal) {account : Option Account}
    {records : List Record} {action : Action}
    (h : ∀ record ∈ records, Policy.Agrees (Case.access account action record).request
      f.authority.policy p) (entryPoint : String) (grants : Program Snapshot) :
    Same (f.authority.policy.privilege account)
      (f.authority.decideEach ⟨entryPoint, f.authority.policy.admits account, grants⟩ account
        records action.name)
      ((ruledBy f p).authority.decideEach ⟨entryPoint, p.admits account, grants⟩ account
        records action.name) :=
  same_mapM fun record hr =>
    (h record hr).same_decide (i := ⟨entryPoint, f.authority.policy.admits account, grants⟩)
      (j := ⟨entryPoint, p.admits account, grants⟩) hf rfl rfl rfl rfl _

theorem same_one (hf : f.authority.policy.IsTotal) {account : Account} {record : Record}
    {action : Action}
    (h : Policy.Agrees (Case.filtering f account action record).request f.authority.policy p) :
    Same (f.authority.policy.privilege (some account))
      (f.one (f.authority.inquiry "filter_batch" account) account action.name record)
      ((ruledBy f p).one ((ruledBy f p).authority.inquiry "filter_batch" account) account
        action.name record) := by
  refine Same.bind (h.same_settled? hf (i := f.authority.inquiry "filter_batch" account)
    (j := (ruledBy f p).authority.inquiry "filter_batch" account) rfl rfl rfl) fun d => ?_
  cases d with
  | some d => exact same_pure _
  | none => exact (same_snapshot _ _ rfl).bind fun s => same_lift _

theorem ask_ruledBy (hf : f.authority.policy.IsTotal)
    (h : ∀ cs, q.cases f = .ok cs → ∀ c ∈ cs, Policy.Agrees c.request f.authority.policy p) :
    q.ask (ruledBy f p) = q.ask f := by
  symm
  cases q with
  | creation account entityType attributes =>
    change (ofExcept attributes.parts >>= _) = (ofExcept attributes.parts >>= _)
    refine (waits_ofExcept attributes.parts).returns.bind_congr fun tags ht => ?_
    have hc := (h _ (cases_of_parts account f entityType ht) _ List.mem_cons_self).same_decide hf (i :=
      f.authority.inquiry "can_create" account) (j :=
      (ruledBy f p).authority.inquiry "can_create" account) rfl rfl rfl rfl
      (·.mayCreate entityType tags)
    exact congrArg (· >>= fun d => pure d.allowed) (asking_congr account hc)
  | access account records action =>
    have hc := same_decideEach hf (fun record hr =>
      h _ rfl _ (List.mem_map_of_mem hr)) "account_can_do" (f.authority.grants.ofAccount account.id)
    exact congrArg (· >>= fun ds => pure (ds.map Decision.allowed)) (asking_congr account hc)
  | accessOfRoles roles records action =>
    have hc := same_decideEach hf (fun record hr =>
      h _ rfl _ (List.mem_map_of_mem hr)) "roles_can_do" (f.authority.grants.ofRoles roles)
    exact congrArg (· >>= fun ds => pure (ds.map Decision.allowed)) (run'_congr hc)
  | unlocking account feature scope =>
    have hc := (h _ rfl _ List.mem_cons_self).same_decide hf (i :=
      f.authority.inquiry "can_do_feature" account) (j :=
      (ruledBy f p).authority.inquiry "can_do_feature" account) rfl rfl rfl rfl
      (·.unlocks feature scope)
    exact congrArg (· >>= fun d => pure d.allowed) (asking_congr account hc)
  | filtering account records action =>
    refine (waits_known f records).returns.bind_congr fun u hu => ?_
    exact asking_congr account (same_mapM fun record hr =>
      same_one hf (h _ (cases_of_known account action hu) _ (List.mem_map_of_mem hr)))

end Evaluation

/-! What is told. -/

namespace World

def witness : Interpreter (World × List Effect) := fun (w, l) e =>
  ((w.answer e).1, (w.answer e).2, if e.isTold then l ++ [e] else l)

end World

namespace Program

variable {α : Type}

theorem runBy_witness (p : Program α) (w : World) (l : List Effect) :
    (p.runBy World.witness (w, l)).1 = (p.run w).1 := by
  induction p generalizing w l with
  | done a => rfl
  | fail e => rfl
  | ask e next ih => exact ih _ _ _

theorem Only.told_eq {kind : Effect → Bool} (hkind : ∀ e, kind e = true → e.isTold = false)
    {p : Program α} (hp : Only kind p) (w : World) (l : List Effect) :
    (p.runBy World.witness (w, l)).2.2 = l := by
  induction p generalizing w l with
  | done a => rfl
  | fail e => rfl
  | ask e next ih =>
    have h : (World.witness (w, l) e).2 = ((w.answer e).2, l) := by
      rw [World.witness, hkind e hp.1]
      rfl
    rw [runBy, h]
    exact ih _ (hp.2 _) _ _

def told (p : Program α) (w : World) : List Effect :=
  (p.runBy World.witness (w, [])).2.2

end Program

theorem Effect.isTold_of_isResolving (e : Effect) (h : e.isResolving = true) :
    e.isTold = false := by
  cases e with
  | record line =>
    simp only [isResolving, Bool.or_eq_true, decide_eq_true_eq] at h
    rcases h with h | h <;> simp [isTold, h, GrantCache.logger, Grants.logger]
  | count s =>
    simp only [isResolving, decide_eq_true_eq] at h
    simp [isTold, h]
  | _ => rfl

namespace Evaluation

open Store

theorem only_grants (f : Filter) (q : Evaluation) : Only Effect.isResolving (q.grants f) := by
  cases q with
  | accessOfRoles => exact Grants.only_ofRoles ..
  | _ => exact Grants.only_ofAccount ..

theorem alike_answer {e : Effect} (h : e.isIdle = true ∨ e.isTold = true) (w : World) :
    (w.answer e).2.Alike w := by
  cases e with
  | pause | enter | leave | record | count => exact ⟨rfl, rfl, rfl⟩
  | _ => rcases h with h | h <;> cases h

theorem run_grants (f : Filter) (q : Evaluation) {t : Tables} {w : World} (hw : w.Stores t) :
    ∃ s, ((q.grants f).run w).1 = .ok s := by
  have h := supplies_any (inert_stores t) (fun _ hc _ hw => yielded_store hc hw) fun _ _ hw => hw
  rw [← runBy_answer]
  cases q with
  | accessOfRoles roles =>
    obtain ⟨hyielded, -⟩ := (Grants.yields_ofRoles (h f.authority.grants.cache) roles).run hw
    obtain ⟨s, hs, -⟩ := hyielded.of_not id
    exact ⟨s, hs⟩
  | creation account | access account | unlocking account | filtering account =>
    obtain ⟨hyielded, -⟩ :=
      (Grants.yields_ofAccount (h f.authority.grants.cache) account.id).run hw
    obtain ⟨s, hs, -⟩ := hyielded.of_not id
    exact ⟨s, hs⟩

/-- An evaluation that came in a world has told `l`, and its batch found out `b`: this is what is found
out in that world, whose grants are `s`. -/
structure Progresses (q : Evaluation) (f : Filter) (w : World) (s : Snapshot) (b : Batch)
    (l : List Effect) (v : World × List Effect) : Prop where
  told : v.2 = l
  knows : Batched.Knows (f.authority.policy.privilege q.account) b
  snapshot : ∀ t, b.snapshot = some t → t = s
  alike : b.snapshot = none → v.1.Alike w

theorem progresses_start (f : Filter) (q : Evaluation) (w : World) (s : Snapshot) :
    q.Progresses f w s {} [] (w, []) where
  told := rfl
  knows := by rintro a ⟨⟩
  snapshot := by rintro t ⟨⟩
  alike := fun _ => ⟨rfl, rfl, rfl⟩

theorem sitting (f : Filter) (q : Evaluation) {w : World} {s : Snapshot}
    (hs : ((q.grants f).run w).1 = .ok s) :
    Sitting World.witness (q.inquiry f) (q.Progresses f w s)
      (f.authority.policy.privilege q.account) s where
  hears b :=
    { idle := by
        rintro e l ⟨v, l⟩ he ⟨rfl, hk, hsnap, hv⟩
        have htold : e.isTold = false := by
          cases e <;> first | rfl | cases he
        refine ⟨?_, hk, hsnap, fun hb => (alike_answer (.inl he) v).trans (hv hb)⟩
        simp only [World.witness, htold]
        rfl
      told := by
        rintro e l ⟨v, l⟩ he ⟨rfl, hk, hsnap, hv⟩
        refine ⟨?_, hk, hsnap, fun hb => (alike_answer (.inr he) v).trans (hv hb)⟩
        simp only [World.witness, he]
        rfl }
  admin := f.authority.policy.waits_admits q.account
  admin_known hv ha := hv.knows _ ha
  learns_admin := by
    rintro b l v a ⟨hl, -, hsnap, hv⟩ ha
    refine ⟨hl, ?_, hsnap, hv⟩
    rintro _ ⟨⟩
    exact ha
  snapshot_known hv hb := hv.snapshot _ hb
  learns_snapshot := by
    rintro b l hb ⟨v, l⟩ ⟨rfl, hk, hsnap, hv⟩
    refine ⟨?_, ?_, hk, ?_, ?_⟩
    · rw [runBy_witness, ← hs]
      exact (q.only_grants f).run_eq (fun _ he _ _ h => h.answer he) (hv hb)
    · exact (q.only_grants f).told_eq Effect.isTold_of_isResolving v l
    · rintro _ ⟨⟩
      rfl
    · rintro ⟨⟩

/-- The answer follows from the grants as they are resolved in the world in which it comes. -/
theorem run_ask (f : Filter) (q : Evaluation) {w : World} {s : Snapshot}
    (hs : ((q.grants f).run w).1 = .ok s) :
    ((q.ask f).run w).1 = (q.told f s).map Prod.fst := by
  have h := (q.sitting f hs).ensures_ask rfl [] (w, []) (q.progresses_start f w s)
  rw [runBy_witness] at h
  cases htold : q.told f s with
  | error e =>
    rw [htold] at h
    exact h.1
  | ok x =>
    rw [htold] at h
    exact h.1

/-- Precedence of decisions. On a healthy store, whatever the overrides, the privilege, the grants
and the cached texts are, the answer of an evaluation follows from decisions that are made in the order
of precedence, on the grants as they are resolved in the world in which it comes. What is
told of the decisions names the outcomes, and the overrides that are their reasons. A policy that
differs only in what comes after the override or the privilege that decides makes no difference. -/
theorem ask_precedence (f : Filter) (hf : f.authority.policy.IsTotal) (q : Evaluation) (t : Tables)
    (w : World) (hw : w.Stores t) :
    ∃ s, ((q.grants f).run w).1 = .ok s ∧
      (∀ cs, q.cases f = .ok cs →
        ((q.ask f).run w).1 =
          (cs.mapM fun c => f.authority.policy.precedence c.request (c.verdict s)).map
            (q.answer f s) ∧
        (∀ ds, (cs.mapM fun c => f.authority.policy.precedence c.request (c.verdict s)) = .ok ds →
          (q.ask f).told w = q.notes cs ds) ∧
        ∀ p, (∀ c ∈ cs, Policy.Agrees c.request f.authority.policy p) →
          q.ask (ruledBy f p) = q.ask f) ∧
      ∀ e, q.cases f = .error e → ((q.ask f).run w).1 = .error e := by
  obtain ⟨s, hs⟩ := q.run_grants f hw
  have h := (q.sitting f hs).ensures_ask rfl [] (w, []) (q.progresses_start f w s)
  rw [runBy_witness] at h
  refine ⟨s, hs, fun cs hcs => ?_, fun e he => ?_⟩
  · have hruling : (fun c : Case => f.authority.policy.precedence c.request (c.verdict s)) =
        Case.ruling f.authority.policy s := by
      funext c
      exact (Policy.ruling_eq hf c.request (c.verdict s)).symm
    rw [told_eq hcs] at h
    rw [hruling]
    refine ⟨?_, fun ds hds => ?_, fun p hp => ?_⟩
    · cases hds : cs.mapM (Case.ruling f.authority.policy s) with
      | error e =>
        rw [hds] at h
        exact h.1
      | ok ds =>
        rw [hds] at h
        exact h.1
    · rw [hds] at h
      obtain ⟨-, b, hb⟩ := h
      exact hb.told
    · refine ask_ruledBy hf fun cs' hcs' => ?_
      rw [hcs] at hcs'
      cases hcs'
      exact hp
  · have hq : q.told f s = .error e := by
      rw [told, he]
      rfl
    rw [hq] at h
    exact h.1

/-- A block on every creation decides, though every account has the privilege. -/
theorem creation_blocked :
    let f : Filter := ⟨⟨⟨⟨[⟨.block, "create", wildcard, Override.always, []⟩], []⟩,
      Override.always⟩, ⟨none⟩⟩, {}⟩
    let q := Evaluation.creation ⟨"a", "", true⟩ "note" (.list [])
    let w := World.initial .debug none { path := "" }
    f.authority.policy.IsTotal ∧ w.Stores .empty ∧ ((q.ask f).run w).1 = .ok false := by
  intro f q w
  have htotal : f.authority.policy.IsTotal := by
    refine ⟨?_, by simp [f], fun _ => rfl⟩
    intro o ho
    obtain rfl := List.mem_singleton.1 ho
    exact ⟨fun _ => rfl, by simp⟩
  refine ⟨htotal, rfl, ?_⟩
  obtain ⟨s, -, h, -⟩ := ask_precedence f htotal q .empty w rfl
  exact (h _ rfl).1

end Evaluation

end AccessControl
