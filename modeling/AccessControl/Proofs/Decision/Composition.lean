import AccessControl.Proofs.Decision.Precedence
import AccessControl.Proofs.Pipe.Calls
import AccessControl.Proofs.Program.Fixed

/-!
What an evaluation comes to, from what its resolution comes to. There are several senses in which a
program comes to an outcome: whatever the replies are, under an invariant, or unless something
fails. Decisions are put together alike in all of them.
-/

namespace AccessControl

open Program

namespace Program

/-- A sense in which programs come to outcomes. Those that are quiet and fixed do, and composition
respects it. -/
structure Compositional (P : {α : Type} → Program α → Except Error α → Prop) : Prop where
  fixed {α : Type} {p : Program α} {x : Except Error α} (hp : Fixed Effect.isQuiet p x) : P p x
  bind {α β : Type} {p : Program α} {x : Except Error α} {f : α → Program β}
    {y : α → Except Error β} (hp : P p x) (hf : ∀ a, x = .ok a → P (f a) (y a)) :
    P (p >>= f) (x >>= y)
  within {α : Type} {p : Program α} {x : Except Error α} (hp : P p x) (b : Log.Binding) :
    P (within b p) x

theorem compositional_fixed : Compositional fun p x => Fixed Effect.isQuiet p x where
  fixed hp := hp
  bind hp hf := hp.bind hf
  within hp b := hp.within b rfl fun _ => rfl

theorem compositional_settles {σ : Type} {ι : Interpreter σ} {I : σ → Prop} (hI : Inert ι I) :
    Compositional fun p x => Settles ι I p x where
  fixed hp := hp.settles hI fun _ => id
  bind hp hf := by
    refine Upholds.bind hp (fun a ha => ?_) fun e he => ?_
    · subst ha
      exact hf a rfl
    · subst he
      rfl
  within hp b := Upholds.within hI hp b

section

variable {P : {α : Type} → Program α → Except Error α → Prop} (hP : Compositional P) {α β : Type}

include hP

theorem Compositional.pure (a : α) : P (Pure.pure a) (.ok a) :=
  hP.fixed (.done a)

theorem Compositional.silent {p : Program α} {x : Except Error α}
    (hp : Fixed Effect.isSilent p x) : P p x :=
  hP.fixed (hp.mono Effect.isQuiet_of_isSilent)

theorem Compositional.map {p : Program α} {x : Except Error α} (hp : P p x) (g : α → β) :
    P (do return g (← p)) (x.map g) := by
  have h := hP.bind hp (f := fun a => Pure.pure (g a)) (y := fun a => .ok (g a)) fun a _ =>
    hP.pure (g a)
  cases x <;> exact h

end

end Program

structure Batch.IsRight (privilege : Except Error Bool) (s : Snapshot) (b : Batch) : Prop where
  admin : Batched.Knows privilege b
  snapshot : ∀ u, b.snapshot = some u → u = s

theorem Batch.isRight_empty (privilege : Except Error Bool) (s : Snapshot) :
    ({} : Batch).IsRight privilege s where
  admin := by rintro a ⟨⟩
  snapshot := by rintro u ⟨⟩

namespace Batched

variable {α β : Type} {P : {α : Type} → Program α → Except Error α → Prop}
  {privilege : Except Error Bool} {s : Snapshot}

def Comes (P : {α : Type} → Program α → Except Error α → Prop) (privilege : Except Error Bool)
    (s : Snapshot) (m : Batched α) (x : Except Error α) : Prop :=
  ∀ b, b.IsRight privilege s → ∃ b' : Batch, b'.IsRight privilege s ∧ P (m b) (x.map (·, b'))

variable (hP : Compositional P)

include hP

theorem comes_pure (a : α) : Comes P privilege s (pure a) (.ok a) :=
  fun b hb => ⟨b, hb, hP.pure (a, b)⟩

theorem comes_lift {p : Program α} {x : Except Error α} (hp : P p x) :
    Comes P privilege s (liftM p) x :=
  fun b hb => ⟨b, hb, hP.map hp (·, b)⟩

theorem Comes.bind {m : Batched α} {x : Except Error α} {f : α → Batched β}
    {y : α → Except Error β} (hm : Comes P privilege s m x)
    (hf : ∀ a, x = .ok a → Comes P privilege s (f a) (y a)) :
    Comes P privilege s (m >>= f) (x >>= y) := by
  intro b hb
  obtain ⟨b', hb', hcomes⟩ := hm b hb
  cases x with
  | error e =>
    exact ⟨b', hb', hP.bind hcomes (y := fun _ => .error e) fun _ h => nomatch h⟩
  | ok a =>
    obtain ⟨c, hc, hrest⟩ := hf a rfl b' hb'
    refine ⟨c, hc, hP.bind hcomes (y := fun r => (y r.1).map (·, c)) fun r hr => ?_⟩
    obtain rfl := Except.ok.inj hr
    exact hrest

theorem comes_mapM {γ : Type} {f : γ → Batched α} {y : γ → Except Error α} {xs : List γ}
    (h : ∀ x ∈ xs, Comes P privilege s (f x) (y x)) :
    Comes P privilege s (xs.mapM f) (xs.mapM y) := by
  induction xs with
  | nil => exact comes_pure hP []
  | cons x xs ih =>
    rw [List.mapM_cons, List.mapM_cons]
    refine (h x List.mem_cons_self).bind hP fun a _ => ?_
    exact (ih fun z hz => h z (List.mem_cons_of_mem _ hz)).bind hP fun as _ =>
      comes_pure hP (a :: as)

theorem comes_isAdmin {i : Inquiry} (hi : Waits i.admin privilege) :
    Comes P privilege s i.isAdmin privilege := by
  intro b hb
  rw [i.isAdmin_eq]
  cases ha : b.admin with
  | some a =>
    obtain rfl := hb.admin a ha
    exact ⟨b, hb, hP.pure (a, b)⟩
  | none =>
    have hadmin : P i.admin privilege := hP.fixed (hi.fixed rfl)
    cases privilege with
    | error e => exact ⟨b, hb, hP.bind hadmin (y := fun _ => .error e) fun _ h => nomatch h⟩
    | ok a =>
      refine ⟨{ b with admin := some a }, ⟨?_, hb.snapshot⟩, ?_⟩
      · rintro _ ⟨⟩
        rfl
      · exact hP.bind hadmin (y := fun a' => .ok (a', { b with admin := some a' })) fun _ _ =>
          hP.pure _

theorem comes_snapshot {i : Inquiry} (hgrants : P i.grants (.ok s)) :
    Comes P privilege s i.snapshot (.ok s) := by
  intro b hb
  rw [i.snapshot_eq]
  cases hsnapshot : b.snapshot with
  | some u =>
    obtain rfl := hb.snapshot u hsnapshot
    exact ⟨b, hb, hP.pure (u, b)⟩
  | none =>
    refine ⟨{ b with snapshot := some s }, ⟨hb.admin, ?_⟩, ?_⟩
    · rintro _ ⟨⟩
      rfl
    · exact hP.bind hgrants (y := fun u => .ok (u, { b with snapshot := some u })) fun _ _ =>
        hP.pure _

theorem Comes.run' {m : Batched α} {x : Except Error α} (hm : Comes P privilege s m x) :
    P (m.run' {}) x := by
  obtain ⟨b, -, h⟩ := hm {} (Batch.isRight_empty privilege s)
  have hfst := hP.bind h (f := fun r => pure r.1) (y := fun r => .ok r.1) fun r _ => hP.pure r.1
  cases x <;> exact hfst

theorem Comes.asking {m : Batched α} {x : Except Error α} (hm : Comes P privilege s m x)
    (account : Account) : P (Authority.asking account m) x :=
  hP.within (hm.run' hP) _

end Batched

namespace Policy

open Batched

variable {P : {α : Type} → Program α → Except Error α → Prop} (hP : Compositional P) {p : Policy}
  {r : Request} {i : Inquiry} {s : Snapshot}

include hP

theorem comes_settled? (hi : i.admin = p.admits r.account) :
    Comes P (p.privilege r.account) s (p.settled? i r) (p.stage r) := by
  have hwaits : Waits i.admin (p.privilege r.account) := hi ▸ p.waits_admits r.account
  -- the decision in the steps of the program: blocks, then the privilege, then bypasses
  have heq : p.stage r =
      ((Override.pick? r p.overrides.blocks).map fun o => o.map Decision.block) >>= fun d =>
        d.elim (p.privilege r.account >>= fun a =>
        if a then .ok (some .admin)
        else (Override.pick? r p.overrides.bypasses).map fun o => o.map Decision.bypass)
        fun d => .ok (some d) := by
    rw [stage]
    rcases Override.pick? r p.overrides.blocks with e | _ | o
    · rfl
    · rcases p.privilege r.account with e | _ | _
      · rfl
      · rcases Override.pick? r p.overrides.bypasses with e | _ | o <;> rfl
      · rfl
    · rfl
  rw [heq]
  refine (comes_lift hP (hP.silent (fixed_found _ r i.entryPoint .block))).bind hP fun d _ => ?_
  cases d with
  | some d => exact comes_pure hP (some d)
  | none =>
    refine (comes_isAdmin hP hwaits).bind hP fun a _ => ?_
    cases a with
    | true =>
      exact (comes_lift hP (hP.silent (fixed_counted _ _))).bind hP (y := fun d => .ok (some d))
        fun d _ => comes_pure hP (some d)
    | false => exact comes_lift hP (hP.silent (fixed_found _ r i.entryPoint .bypass))

theorem comes_decide (hi : i.admin = p.admits r.account)
    (hgrants : p.stage r = .ok none → P i.grants (.ok s))
    (test : Snapshot → Except Error Bool) :
    Comes P (p.privilege r.account) s (p.decide i r test) (p.ruling r (test s)) := by
  refine (comes_settled? hP hi).bind hP fun d hd => ?_
  cases d with
  | some d => exact comes_pure hP d
  | none =>
    refine (comes_snapshot hP (hgrants hd)).bind hP
      (y := fun s => test s >>= fun allowed => .ok (Decision.ofVerdict allowed)) fun s _ => ?_
    refine (comes_lift hP (hP.fixed (fixed_ofExcept _))).bind hP fun allowed _ => ?_
    exact comes_lift hP (hP.silent (fixed_counted _ _))

omit hP in
theorem map_allowed_ruling (p : Policy) (r : Request) (verdict : Except Error Bool) :
    (p.ruling r verdict).map Decision.allowed =
      p.stage r >>= fun d => d.elim verdict fun d => .ok d.allowed := by
  rw [ruling]
  rcases p.stage r with e | _ | d
  · rfl
  · cases verdict <;> rfl
  · rfl

end Policy

namespace Evaluation

open Batched

variable {P : {α : Type} → Program α → Except Error α → Prop} (hP : Compositional P) {f : Filter}
  {q : Evaluation} {s : Snapshot}

theorem fst_told {cs : List Case} (hcs : q.cases f = .ok cs) :
    (q.told f s).map Prod.fst =
      (cs.mapM (Case.ruling f.authority.policy s)).map (q.answer f s) := by
  rw [told_eq hcs]
  cases cs.mapM (Case.ruling f.authority.policy s) <;> rfl

theorem fst_told_one {c : Case} (hc : q.cases f = .ok [c]) :
    (q.told f s).map Prod.fst =
      (c.ruling f.authority.policy s).map fun d => q.answer f s [d] := by
  rw [told_one hc]
  cases c.ruling f.authority.policy s <;> rfl

theorem map_shown_ruling {r : Request} {record : Record} {action : String} :
    (f.authority.policy.ruling r ((f.visible s record action).map (!·.isEmpty))).map
        (shown f s action record) =
      f.authority.policy.stage r >>= fun d =>
        d.elim (f.visible s record action) fun d => .ok (Filter.whole record d) := by
  rw [Policy.ruling]
  cases hd : f.authority.policy.stage r with
  | error e => rfl
  | ok d =>
    cases d with
    | none =>
      cases hv : f.visible s record action with
      | error e => rfl
      | ok fields => exact congrArg Except.ok (shown_ofVerdict hv _)
    | some d => exact congrArg Except.ok (shown_of_stage hd)

include hP

theorem comes_one {i : Inquiry} {account : Account} {action : String} {record : Record}
    (hi : i.admin = f.authority.policy.admits (some account))
    (hgrants : f.authority.policy.stage (Authority.recordRequest account record action) =
      .ok none → P i.grants (.ok s)) :
    Comes P (f.authority.policy.privilege (some account)) s (f.one i account action record)
      ((f.authority.policy.ruling (Authority.recordRequest account record action)
        ((f.visible s record action).map (!·.isEmpty))).map (shown f s action record)) := by
  rw [map_shown_ruling]
  refine (Policy.comes_settled? hP
    (r := Authority.recordRequest account record action) hi).bind hP fun d hd => ?_
  cases d with
  | some d => exact comes_pure hP _
  | none =>
    refine (comes_snapshot hP (hgrants hd)).bind hP (y := fun s => f.visible s record action)
      fun s _ => ?_
    exact comes_lift hP (hP.silent (Pipe.fixed_partly i.entryPoint f s record action))

theorem comes_decision {i : Inquiry} (account : Account) {c : Case}
    (hi : i.admin = f.authority.policy.admits c.request.account)
    (hgrants : f.authority.policy.stage c.request = .ok none → P i.grants (.ok s)) :
    P (do
        let d ← Authority.asking account (f.authority.policy.decide i c.request c.verdict)
        return d.allowed)
      ((c.ruling f.authority.policy s).map fun d => [d].all Decision.allowed) := by
  have hdecide := (Policy.comes_decide hP hi hgrants c.verdict).asking hP account
  simp only [List.all_cons, List.all_nil, Bool.and_true]
  exact hP.map hdecide Decision.allowed

theorem comes_each {i : Inquiry} {account : Option Account} {records : List Record}
    {action : Action} (hi : i.admin = f.authority.policy.admits account)
    (hgrants : ∀ c ∈ records.map (Case.access account action),
      f.authority.policy.stage c.request = .ok none → P i.grants (.ok s)) :
    Comes P (f.authority.policy.privilege account) s
      (f.authority.decideEach i account records action.name)
      ((records.map (Case.access account action)).mapM (Case.ruling f.authority.policy s)) := by
  rw [decideEach_eq]
  refine comes_mapM hP fun c hc => ?_
  have hgrants := hgrants c hc
  obtain ⟨record, -, rfl⟩ := List.mem_map.1 hc
  exact Policy.comes_decide hP hi hgrants _

theorem comes_filtering {i : Inquiry} {account : Account} {records : List Record} {action : Action}
    (hi : i.admin = f.authority.policy.admits (some account))
    (hgrants : ∀ c ∈ records.map (Case.filtering f account action),
      f.authority.policy.stage c.request = .ok none → P i.grants (.ok s)) :
    Comes P (f.authority.policy.privilege (some account)) s
      (records.mapM (f.one i account action.name))
      (((records.map (Case.filtering f account action)).mapM
        (Case.ruling f.authority.policy s)).map
          ((Evaluation.filtering account records action).answer f s)) := by
  have heq := Outcome.mapM_map
    (fun record => Case.ruling f.authority.policy s (.filtering f account action record))
    (shown f s action.name) records
  rw [List.mapM_map]
  refine heq ▸ comes_mapM hP fun record hr => ?_
  exact comes_one hP hi (hgrants _ (List.mem_map_of_mem hr))

/-- An evaluation comes to the answer that follows from the grants, if these come to `s` when one of
its requests gets that far. -/
theorem comes_ask (hgrants : ∀ cs, q.cases f = .ok cs → ∀ c ∈ cs,
      f.authority.policy.stage c.request = .ok none → P (q.grants f) (.ok s)) :
    P (q.ask f) ((q.told f s).map Prod.fst) := by
  -- the questions ask for the grants of their own accord; only the way to them differs
  cases q with
  | creation account entityType attributes =>
    rw [ask, Authority.mayCreate]
    cases ht : attributes.parts with
    | error e =>
      rw [told_of_error (cases_of_parts_error account f entityType ht)]
      exact hP.fixed (.fail e)
    | ok tags =>
      have hcs := cases_of_parts account f entityType ht
      rw [fst_told_one hcs]
      exact comes_decision hP account (c := .creation account entityType tags) rfl
        (hgrants _ hcs _ List.mem_cons_self)
  | access account records action =>
    rw [fst_told rfl]
    exact hP.map ((comes_each hP rfl (hgrants _ rfl)).asking hP account) _
  | accessOfRoles roles records action =>
    rw [fst_told rfl]
    exact hP.map ((comes_each hP rfl (hgrants _ rfl)).run' hP) _
  | unlocking account feature scope =>
    rw [fst_told_one rfl]
    exact comes_decision hP account (c := .unlocking account feature scope) rfl
      (hgrants _ rfl _ List.mem_cons_self)
  | filtering account records action =>
    have hknown : P _ _ := hP.fixed ((waits_known f records).fixed rfl)
    cases hrequired : (records.forM fun record => do
        let _ ← f.entities.require record.entityType) with
    | error e =>
      rw [hrequired] at hknown
      rw [told_of_error (cases_of_unknown account action hrequired)]
      exact hP.bind hknown (y := fun _ => .error e) fun _ h => by cases h
    | ok u =>
      have hcs := cases_of_known account action hrequired
      rw [hrequired] at hknown
      rw [fst_told hcs]
      exact hP.bind hknown (y := fun _ => _) fun _ _ =>
        (comes_filtering hP rfl (hgrants _ hcs)).asking hP account

end Evaluation

namespace Authority

variable {P : {α : Type} → Program α → Except Error α → Prop} (hP : Compositional P)
  {auth : Authority} {account : Account} {action : Action}

include hP

theorem comes_denied {p : Program Bool} {x : Except Error Bool} (h : P p x) (denial : Error) :
    P (do if ← p then return else fail denial)
      (x >>= fun allowed => if allowed then .ok () else .error denial) := by
  refine hP.bind h ?_
  rintro (_ | _) -
  · exact hP.fixed (.fail denial)
  · exact hP.pure ()

theorem comes_demand {record : Record} {x : Except Error (List Bool)}
    (h : P (auth.verdicts account [record] action) x) :
    P (auth.demand account record action) ((x.map (·.all id)) >>= fun allowed =>
      if allowed then .ok ()
      else .error (.permissionDenied account.id action.name record.entityType)) :=
  comes_denied hP (hP.map h (·.all id)) _

theorem comes_demandCreation {entityType : String} {attributes : Value} {x : Except Error Bool}
    (h : P (auth.mayCreate account entityType attributes) x) :
    P (auth.demandCreation account entityType attributes) (x >>= fun allowed =>
      if allowed then .ok ()
      else .error (.permissionDenied account.id RecordAction.create.name entityType)) :=
  comes_denied hP h _

end Authority

end AccessControl
