import AccessControl.Proofs.Decision.Composition
import AccessControl.Proofs.Program.Running

/-!
What batches cost. The records of a batch are decided one after the other; what is told of them adds
up, also on the way to a failure, while the privilege of the account and its grants are found out
once for all of them.
-/

namespace AccessControl

open Program

/-- What a part of a batch comes to, what is told on the way, and whether the privilege and the
grants are asked for. -/
structure Reckoning (α : Type) where
  outcome : Except Error α
  told : List Effect := []
  asks : Bool := false
  resolves : Bool := false

namespace Reckoning

variable {α β γ : Type}

def map (g : α → β) (x : Reckoning α) : Reckoning β :=
  { x with outcome := x.outcome.map g }

def andThen (x : Reckoning α) (y : α → Reckoning β) : Reckoning β :=
  match x.outcome with
  | .ok a =>
    { outcome := (y a).outcome
      told := x.told ++ (y a).told
      asks := x.asks || (y a).asks
      resolves := x.resolves || (y a).resolves }
  | .error e => { x with outcome := .error e }

theorem map_andThen (x : Reckoning α) (y : α → Reckoning β) (g : β → γ) :
    (x.andThen y).map g = x.andThen fun a => (y a).map g := by
  rw [andThen, andThen]
  cases x.outcome <;> rfl

def all (y : γ → Reckoning α) : List γ → Reckoning (List α)
  | [] => { outcome := .ok [] }
  | x :: xs => (y x).andThen fun a => (all y xs).map (a :: ·)

theorem map_all (y : γ → Reckoning α) (g : α → β) (xs : List γ) :
    (all y xs).map (List.map g) = all (fun x => (y x).map g) xs := by
  induction xs with
  | nil => rfl
  | cons x xs ih =>
    rw [all, all, map_andThen, ← ih, andThen, andThen, map]
    cases (y x).outcome with
    | error e => rfl
    | ok a =>
      simp only [map]
      cases (all y xs).outcome <;> rfl

theorem outcome_all (y : γ → Reckoning α) (xs : List γ) :
    (all y xs).outcome = xs.mapM fun x => (y x).outcome := by
  induction xs with
  | nil => rfl
  | cons x xs ih =>
    rw [all, andThen, List.mapM_cons, ← ih]
    cases (y x).outcome with
    | error e => rfl
    | ok a =>
      change (all y xs).outcome.map (a :: ·) = _
      cases (all y xs).outcome <;> rfl

theorem mem_told_all {y : γ → Reckoning α} {xs : List γ} {e : Effect} (h : e ∈ (all y xs).told) :
    ∃ x ∈ xs, e ∈ (y x).told := by
  induction xs with
  | nil => cases h
  | cons x xs ih =>
    rw [all, andThen] at h
    cases hx : (y x).outcome with
    | error e' =>
      rw [hx] at h
      exact ⟨x, List.mem_cons_self, h⟩
    | ok a =>
      rw [hx] at h
      rcases List.mem_append.1 h with h | h
      · exact ⟨x, List.mem_cons_self, h⟩
      · obtain ⟨z, hz, he⟩ := ih h
        exact ⟨z, List.mem_cons_of_mem _ hz, he⟩

theorem all_append {y : γ → Reckoning α} {xs : List γ} {as : List α}
    (h : List.Forall₂ (fun x a => (y x).outcome = .ok a) xs as) (rest : List γ) :
    all y (xs ++ rest) =
      { outcome := (all y rest).outcome.map (as ++ ·)
        told := (xs.flatMap fun x => (y x).told) ++ (all y rest).told
        asks := (xs.any fun x => (y x).asks) || (all y rest).asks
        resolves := (xs.any fun x => (y x).resolves) || (all y rest).resolves } := by
  induction h with
  | nil =>
    rcases hrest : all y rest with ⟨_ | as, told, asks, resolves⟩ <;> simp [Except.map, hrest]
  | cons hx hxs ih =>
    rw [List.cons_append, all, andThen, hx, ih]
    rcases all y rest with ⟨_ | as, told, asks, resolves⟩ <;>
      simp [map, Except.map, Bool.or_assoc]

end Reckoning

theorem Effect.isSilent_of_isIdle {e : Effect} (h : e.isIdle = true) : e.isSilent = true := by
  cases e with
  | pause | enter | leave => rfl
  | _ => cases h

theorem Effect.isSilent_of_isTold {e : Effect} (h : e.isTold = true) : e.isSilent = true := by
  cases e with
  | record | count => rfl
  | _ => cases h

/-! What is asked for. -/

section

variable {α β : Type} {kind : Effect → Bool}

/-- A program comes to an outcome in all worlds, and makes as many accesses of a kind as stand in a
list. What resolutions depend on stays as it is. -/
def Program.Takes (kind : Effect → Bool) (p : Program α) (x : Except Error α) (l : List Effect) :
    Prop :=
  ∀ v, (p.run v).1 = x ∧ (p.run v).2.Alike v ∧ (p.trace v).countP kind = l.countP kind

namespace Program

theorem Only.countP_trace {kind' : Effect → Bool} {p : Program α} (hp : Only kind' p)
    (h : ∀ e, kind' e = true → kind e = false) (w : World) : (p.trace w).countP kind = 0 := by
  rw [List.countP_eq_zero]
  intro e he
  simp [h e (hp.mem_trace he)]

theorem Waits.only {p : Program α} {x : Except Error α} (hp : Waits p x) :
    Only (fun e => e matches .pause) p := by
  induction hp with
  | done | fail => trivial
  | pause _ ih => exact ⟨rfl, fun _ => ih⟩

theorem Waits.takes (hpause : kind .pause = false) {p : Program α} {x : Except Error α}
    (hp : Waits p x) : Takes kind p x [] := by
  intro v
  rw [hp.run]
  refine ⟨rfl, .refl v, hp.only.countP_trace ?_ v⟩
  intro e he
  cases e with
  | pause => exact hpause
  | _ => cases he

theorem takes_pure (a : α) : Takes kind (pure a) (.ok a) [] :=
  fun v => ⟨rfl, .refl v, rfl⟩

theorem takes_log {level : Log.Level} {logger message : String} {fields : Value.Fields} :
    Takes kind (log level logger message fields) (.ok ())
      [.record ⟨level, logger, message, fields⟩] :=
  fun _ => ⟨rfl, ⟨rfl, rfl, rfl⟩, rfl⟩

theorem takes_counted (entryPoint : String) (d : Decision) :
    Takes kind (Policy.counted entryPoint d) (.ok d)
      [.count (Counters.decision entryPoint d.outcome.name)] :=
  fun _ => ⟨rfl, ⟨rfl, rfl, rfl⟩, rfl⟩

theorem Takes.bind {p : Program α} {a : α} {f : α → Program β} {y : Except Error β}
    {l l' : List Effect} (hp : Takes kind p (.ok a) l) (hf : Takes kind (f a) y l') :
    Takes kind (p >>= f) y (l ++ l') := by
  intro v
  obtain ⟨hrun, halike, hcount⟩ := hp v
  obtain ⟨hrun', halike', hcount'⟩ := hf (p.run v).2
  rw [run_bind_ok hrun, trace_bind_ok hrun, List.countP_append, List.countP_append, hcount, hcount']
  exact ⟨hrun', halike'.trans halike, rfl⟩

theorem Takes.bind_error {p : Program α} {e : Error} {l : List Effect}
    (hp : Takes kind p (.error e) l) (f : α → Program β) :
    Takes kind (p >>= f) (.error e) l := by
  intro v
  obtain ⟨hrun, halike, hcount⟩ := hp v
  rw [run_bind_error hrun, trace_bind_error hrun]
  exact ⟨rfl, halike, hcount⟩

end Program

def Decision.tidings (entryPoint : String) (r : Request) :
    Except Error (Option Decision) → List Effect
  | .ok (some d) => d.notes entryPoint r
  | _ => []

theorem Decision.isTold_tidings {entryPoint : String} {r : Request}
    {x : Except Error (Option Decision)} {e : Effect} (h : e ∈ tidings entryPoint r x) :
    e.isTold = true := by
  rcases x with _ | _ | d
  · cases h
  · cases h
  · change e ∈ d.notes entryPoint r at h
    rw [notes] at h
    split at h
    all_goals
      simp only [List.mem_cons, List.not_mem_nil, or_false] at h
      rcases h with rfl | rfl <;> rfl

theorem Policy.takes_found (hpause : kind .pause = false) (os : List Override) (r : Request)
    (entryPoint : String) (decision : Override → Decision)
    (hnotes : ∀ o, (decision o).notes entryPoint r =
      [.record (Override.line o.summary r),
        .count (Counters.decision entryPoint (decision o).outcome.name)]) :
    Takes kind (do
      match ← Policy.find? os r with
      | some o => return some (← Policy.counted entryPoint (decision o))
      | none => return none)
      ((Override.pick? r os).map (·.map decision))
      (Decision.tidings entryPoint r ((Override.pick? r os).map (·.map decision))) := by
  have hfirst : Takes kind (Override.first? r os) (Override.pick? r os) [] :=
    (Override.waits_first? r os).takes hpause
  cases hpick : Override.pick? r os with
  | error e =>
    rw [hpick] at hfirst
    exact (hfirst.bind_error _).bind_error _
  | ok o =>
    rw [hpick] at hfirst
    cases o with
    | none =>
      have hfound : Takes kind (Policy.find? os r) (.ok none) [] := hfirst.bind (takes_pure none)
      exact hfound.bind (takes_pure none)
    | some o =>
      have hfound : Takes kind (Policy.find? os r) (.ok (some o))
          [.record (Override.line o.summary r)] :=
        hfirst.bind (takes_log.bind (takes_pure (some o)))
      change Takes kind _ _ ((decision o).notes entryPoint r)
      rw [hnotes]
      exact hfound.bind ((takes_counted entryPoint (decision o)).bind
        (takes_pure (some (decision o))))

theorem Decision.notes_ofVerdict (entryPoint : String) (r : Request) (allowed : Bool) :
    (Decision.ofVerdict allowed).notes entryPoint r =
      [.count (Counters.decision entryPoint (Decision.ofVerdict allowed).outcome.name)] := by
  cases allowed <;> rfl

theorem Filter.takes_partly (hpause : kind .pause = false) (f : Filter) (entryPoint : String)
    (s : Snapshot) (record : Record) (action : String) (r : Request) :
    Takes kind (f.partly entryPoint s record action) (f.visible s record action)
      (Decision.tidings entryPoint r
        ((f.visible s record action).map fun fields => some (.ofVerdict !fields.isEmpty))) := by
  have hvisible : Takes kind (ofExcept (f.visible s record action)) (f.visible s record action) [] :=
    (waits_ofExcept _).takes hpause
  rw [partly]
  cases hv : f.visible s record action with
  | error e =>
    rw [hv] at hvisible
    exact hvisible.bind_error _
  | ok fields =>
    rw [hv] at hvisible
    change Takes kind _ _ ((Decision.ofVerdict !fields.isEmpty).notes entryPoint r)
    rw [Decision.notes_ofVerdict]
    exact hvisible.bind ((takes_counted entryPoint _).bind (takes_pure fields))

end

/-! What is found out once. -/

/-- What the privilege and the grants of an account are in some world, and what is asked for, among
accesses of a kind, to find them out. -/
structure Tariff where
  kind : Effect → Bool
  world : World
  privilege : Except Error Bool
  snapshot : Snapshot
  asking : List Effect
  resolving : List Effect

namespace Tariff

/-- An inquiry finds out what it asks about in this way. Neither giving the turn away nor attributing
log lines is of the kind. -/
structure Covers (c : Tariff) (i : Inquiry) : Prop where
  idle : ∀ e, e.isIdle = true → c.kind e = false
  admin : Takes c.kind i.admin c.privilege c.asking
  grants : ∀ v, v.Alike c.world →
    (i.grants.run v).1 = .ok c.snapshot ∧
      (i.grants.trace v).countP c.kind = c.resolving.countP c.kind

def charge (price : Nat) (asked known : Bool) : Nat :=
  if asked && !known then price else 0

theorem charge_or (price : Nat) (asked asked' known : Bool) :
    charge price (asked || asked') known =
      charge price asked known + charge price asked' (known || asked) := by
  cases asked <;> cases asked' <;> cases known <;> simp [charge]

variable {α β γ : Type} (c : Tariff)

def accesses (b : Batch) (x : Reckoning α) : Nat :=
  x.told.countP c.kind + charge (c.asking.countP c.kind) x.asks b.admin.isSome +
    charge (c.resolving.countP c.kind) x.resolves b.snapshot.isSome

/-- What a batch has found out holds; until the grants are found out, they stay what they are. -/
structure Suits (b : Batch) (v : World) : Prop extends b.IsRight c.privilege c.snapshot where
  alike : b.snapshot = none → v.Alike c.world

structure Informs (x : Reckoning α) (b b' : Batch) : Prop where
  admin : b'.admin.isSome = (b.admin.isSome || x.asks)
  snapshot : b'.snapshot.isSome = (b.snapshot.isSome || x.resolves)

def Ends (x : Reckoning α) (b : Batch) (result : Except Error (α × Batch) × World) : Prop :=
  match x.outcome with
  | .ok a => ∃ b', result.1 = .ok (a, b') ∧ c.Suits b' result.2 ∧ Informs x b b'
  | .error e => result.1 = .error e

def Reckons (m : Batched α) (x : Reckoning α) : Prop :=
  ∀ b v, c.Suits b v →
    ((m b).trace v).countP c.kind = c.accesses b x ∧ c.Ends x b ((m b).run v)

variable {c}

theorem Suits.of_alike {b : Batch} {u v : World} (h : c.Suits b v) (hu : u.Alike v) :
    c.Suits b u :=
  { h with alike := fun hb => hu.trans (h.alike hb) }

theorem informs_none (x : Except Error α) (told : List Effect) (b : Batch) :
    Informs { outcome := x, told := told } b b :=
  ⟨(Bool.or_false _).symm, (Bool.or_false _).symm⟩

theorem reckons_pure (a : α) : c.Reckons (pure a) { outcome := .ok a } :=
  fun b _ hv => ⟨rfl, b, rfl, hv, informs_none _ _ b⟩

theorem reckons_lift {p : Program α} {x : Except Error α} {told : List Effect}
    (hp : Takes c.kind p x told) : c.Reckons (liftM p) { outcome := x, told := told } := by
  intro b v hv
  obtain ⟨hrun, halike, hcount⟩ := hp v
  have htrace : ((liftM p : Batched α) b).trace v = p.trace v := by
    refine (trace_bind p (fun a => .done (a, b)) v).trans ?_
    rcases p.run v with ⟨_ | a, u⟩ <;> exact List.append_nil _
  have hlift : ((liftM p : Batched α) b).run v = (x.map (·, b), (p.run v).2) := by
    refine (run_bind p (fun a => .done (a, b)) v).trans ?_
    rw [← hrun]
    rcases p.run v with ⟨_ | a, u⟩ <;> rfl
  rw [htrace, hlift, hcount]
  refine ⟨rfl, ?_⟩
  cases x with
  | error e => exact (rfl : Except.error e = _)
  | ok a => exact ⟨b, rfl, hv.of_alike halike, informs_none _ _ b⟩

theorem Reckons.bind {m : Batched α} {x : Reckoning α} {f : α → Batched β}
    {y : α → Reckoning β} (hm : c.Reckons m x)
    (hf : ∀ a, x.outcome = .ok a → c.Reckons (f a) (y a)) :
    c.Reckons (m >>= f) (x.andThen y) := by
  intro b v hv
  obtain ⟨hcount, hend⟩ := hm b v hv
  change ((m b >>= fun r => f r.1 r.2).trace v).countP c.kind = _ ∧
    c.Ends (x.andThen y) b ((m b >>= fun r => f r.1 r.2).run v)
  rw [Reckoning.andThen]
  rw [Ends] at hend
  cases hx : x.outcome with
  | error e =>
    rw [hx] at hend
    rw [run_bind_error hend, trace_bind_error hend]
    exact ⟨hcount, rfl⟩
  | ok a =>
    rw [hx] at hend
    obtain ⟨b', hrun, hsuits, hinforms⟩ := hend
    obtain ⟨hcount', hend'⟩ := hf a hx b' _ hsuits
    rw [run_bind_ok hrun, trace_bind_ok hrun, List.countP_append, hcount, hcount']
    constructor
    · simp only [accesses, List.countP_append, charge_or, hinforms.admin, hinforms.snapshot]
      omega
    · rw [Ends] at hend' ⊢
      cases hy : (y a).outcome with
      | error e => rwa [hy] at hend'
      | ok a' =>
        rw [hy] at hend'
        obtain ⟨b'', hrun', hsuits', hinforms'⟩ := hend'
        refine ⟨b'', hrun', hsuits', ?_, ?_⟩
        · rw [hinforms'.admin, hinforms.admin, Bool.or_assoc]
        · rw [hinforms'.snapshot, hinforms.snapshot, Bool.or_assoc]

theorem Reckons.map {m : Batched α} {x : Reckoning α} (hm : c.Reckons m x) (g : α → β) :
    c.Reckons (do return g (← m)) (x.map g) := by
  have h := hm.bind (f := fun a => pure (g a)) (y := fun a => { outcome := .ok (g a) })
    fun a _ => reckons_pure (g a)
  rw [Reckoning.andThen] at h
  rw [Reckoning.map]
  cases hx : x.outcome with
  | error e =>
    rw [hx] at h
    exact h
  | ok a =>
    rw [hx] at h
    simp only [List.append_nil, Bool.or_false] at h
    exact h

theorem reckons_mapM {f : γ → Batched α} {y : γ → Reckoning α} {xs : List γ}
    (h : ∀ x ∈ xs, c.Reckons (f x) (y x)) : c.Reckons (xs.mapM f) (.all y xs) := by
  induction xs with
  | nil => exact reckons_pure []
  | cons x xs ih =>
    rw [List.mapM_cons, Reckoning.all]
    apply (h x List.mem_cons_self).bind
    intro a _
    exact (ih fun z hz => h z (List.mem_cons_of_mem _ hz)).map (a :: ·)

variable {i : Inquiry} (hi : c.Covers i)

include hi

theorem Covers.isAdmin : c.Reckons i.isAdmin { outcome := c.privilege, asks := true } := by
  intro b v hv
  rw [i.isAdmin_eq]
  cases ha : b.admin with
  | some a =>
    have hknown : c.privilege = .ok a := hv.admin a ha
    constructor
    · simp [accesses, charge, ha, pure, trace]
    · rw [Ends, hknown]
      exact ⟨b, rfl, hv, by simp [ha], by simp⟩
  | none =>
    obtain ⟨hrun, halike, hcount⟩ := hi.admin v
    have hprice : c.accesses b { outcome := c.privilege, asks := true } =
        c.asking.countP c.kind := by
      simp [accesses, charge, ha]
    rw [hprice]
    cases hr : c.privilege with
    | error e =>
      rw [hr] at hrun
      rw [run_bind_error hrun, trace_bind_error hrun]
      exact ⟨hcount, rfl⟩
    | ok a =>
      rw [hr] at hrun
      rw [run_bind_ok hrun, trace_bind_ok hrun, List.countP_append, hcount]
      refine ⟨rfl, { b with admin := some a }, rfl, ⟨⟨?_, hv.snapshot⟩, ?_⟩, ?_, ?_⟩
      · rintro _ ⟨⟩
        exact hr
      · exact (hv.of_alike halike).alike
      · simp
      · simp

theorem Covers.snapshot :
    c.Reckons i.snapshot { outcome := .ok c.snapshot, resolves := true } := by
  intro b v hv
  rw [i.snapshot_eq]
  cases hs : b.snapshot with
  | some s =>
    obtain rfl := hv.snapshot s hs
    constructor
    · simp [accesses, charge, hs, pure, trace]
    · exact ⟨b, rfl, hv, by simp, by simp [hs]⟩
  | none =>
    obtain ⟨hrun, hcount⟩ := hi.grants v (hv.alike hs)
    have hprice : c.accesses b { outcome := Except.ok c.snapshot, resolves := true } =
        c.resolving.countP c.kind := by
      simp [accesses, charge, hs]
    rw [hprice, run_bind_ok hrun, trace_bind_ok hrun, List.countP_append, hcount]
    refine ⟨rfl, { b with snapshot := some c.snapshot }, rfl, ⟨⟨hv.admin, ?_⟩, ?_⟩, ?_, ?_⟩
    · rintro _ ⟨⟩
      rfl
    · rintro ⟨⟩
    · simp
    · simp

end Tariff

/-! Decisions. -/

def Policy.isOpen {α : Type} : Except Error (Option α) → Bool
  | .ok none => true
  | _ => false

def Policy.staged (p : Policy) (entryPoint : String) (r : Request) :
    Reckoning (Option Decision) where
  outcome := p.stage r
  told := Decision.tidings entryPoint r (p.stage r)
  asks := Policy.isOpen (Override.pick? r p.overrides.blocks)

namespace Case

def ruled (entryPoint : String) (s : Snapshot) (c : Case) : Reckoning Decision where
  outcome := (c.verdict s).map .ofVerdict
  told := Decision.tidings entryPoint c.request ((c.verdict s).map fun a => some (.ofVerdict a))
  resolves := true

def reckoning (p : Policy) (entryPoint : String) (s : Snapshot) (c : Case) :
    Reckoning Decision where
  outcome := c.ruling p s
  told := Decision.tidings entryPoint c.request ((c.ruling p s).map some)
  asks := Policy.isOpen (Override.pick? c.request p.overrides.blocks)
  resolves := Policy.isOpen (p.stage c.request)

theorem reckoning_eq (p : Policy) (entryPoint : String) (s : Snapshot) (c : Case) :
    c.reckoning p entryPoint s = (p.staged entryPoint c.request).andThen fun d =>
      d.elim (c.ruled entryPoint s) fun d => { outcome := .ok d } := by
  rw [reckoning, Policy.staged, ruling, Policy.ruling]
  rcases p.stage c.request with e | _ | d
  · rfl
  · simp only [Reckoning.andThen, Option.elim, ruled, Bool.or_false]
    cases c.verdict s <;> rfl
  · simp only [Reckoning.andThen, Option.elim, List.append_nil, Bool.or_false]
    rfl

end Case

namespace Tariff

variable {c : Tariff} {i : Inquiry} (hi : c.Covers i) {p : Policy}

include hi

theorem Covers.settled? {r : Request} (hr : c.privilege = p.privilege r.account) :
    c.Reckons (p.settled? i r) (p.staged i.entryPoint r) := by
  have hpause : c.kind .pause = false := hi.idle .pause rfl
  have heq : p.staged i.entryPoint r =
      Reckoning.andThen
        { outcome := (Override.pick? r p.overrides.blocks).map (·.map Decision.block)
          told := Decision.tidings i.entryPoint r
            ((Override.pick? r p.overrides.blocks).map (·.map Decision.block)) } fun d =>
        d.elim (Reckoning.andThen { outcome := c.privilege, asks := true } fun a =>
          if a then
            Reckoning.map some
              { outcome := .ok Decision.admin, told := Decision.admin.notes i.entryPoint r }
          else
            { outcome := (Override.pick? r p.overrides.bypasses).map (·.map Decision.bypass)
              told := Decision.tidings i.entryPoint r
                ((Override.pick? r p.overrides.bypasses).map (·.map Decision.bypass)) })
          fun d => { outcome := .ok (some d) } := by
    rw [hr, Policy.staged, Policy.stage]
    rcases Override.pick? r p.overrides.blocks with e | _ | o
    · rfl
    · rcases p.privilege r.account with e | _ | _
      · rfl
      · rcases Override.pick? r p.overrides.bypasses with e | _ | o <;> rfl
      · rfl
    · simp only [Reckoning.andThen, Except.map, Option.map, Option.elim, List.append_nil,
        Bool.or_false]
      rfl
  rw [heq]
  apply (reckons_lift (Policy.takes_found hpause _ r i.entryPoint .block fun _ => rfl)).bind
  rintro (_ | d) -
  · apply hi.isAdmin.bind
    rintro (_ | _) -
    · exact reckons_lift (Policy.takes_found hpause _ r i.entryPoint .bypass fun _ => rfl)
    · exact (reckons_lift (takes_counted i.entryPoint Decision.admin)).map some
  · exact reckons_pure (some d)

theorem Covers.decide (k : Case) (hk : c.privilege = p.privilege k.request.account) :
    c.Reckons (p.decide i k.request k.verdict) (k.reckoning p i.entryPoint c.snapshot) := by
  rw [Case.reckoning_eq]
  apply (hi.settled? hk).bind
  rintro (_ | d) -
  · have heq : k.ruled i.entryPoint c.snapshot =
        Reckoning.andThen { outcome := .ok c.snapshot, resolves := true } fun s =>
          Reckoning.andThen { outcome := k.verdict s } fun allowed =>
            { outcome := .ok (.ofVerdict allowed)
              told := (Decision.ofVerdict allowed).notes i.entryPoint k.request } := by
      simp only [Case.ruled, Reckoning.andThen]
      cases k.verdict c.snapshot <;> rfl
    rw [Option.elim_none, heq]
    apply hi.snapshot.bind
    intro s _
    apply (reckons_lift ((waits_ofExcept (k.verdict s)).takes (hi.idle .pause rfl))).bind
    intro allowed _
    rw [Decision.notes_ofVerdict]
    exact reckons_lift (takes_counted i.entryPoint _)
  · exact reckons_pure d

theorem Covers.one {f : Filter} {account : Account}
    (hk : c.privilege = f.authority.policy.privilege (some account)) (action : Action)
    (record : Record) :
    c.Reckons (f.one i account action.name record)
      (((Case.filtering f account action record).reckoning f.authority.policy i.entryPoint
        c.snapshot).map (Evaluation.shown f c.snapshot action.name record)) := by
  rw [Case.reckoning_eq, Reckoning.map_andThen]
  apply (hi.settled? hk).bind
  rintro (_ | d) hd
  · have heq : ((Case.filtering f account action record).ruled i.entryPoint c.snapshot).map
          (Evaluation.shown f c.snapshot action.name record) =
        Reckoning.andThen { outcome := .ok c.snapshot, resolves := true } fun s =>
          { outcome := f.visible s record action.name
            told := Decision.tidings i.entryPoint (Case.filtering f account action record).request
              ((f.visible s record action.name).map fun fields =>
                some (.ofVerdict !fields.isEmpty)) } := by
      have hverdict : (Case.filtering f account action record).verdict c.snapshot =
          (f.visible c.snapshot record action.name).map (!·.isEmpty) := rfl
      simp only [Case.ruled, hverdict, Reckoning.andThen, Reckoning.map]
      cases hv : f.visible c.snapshot record action.name with
      | error e => rfl
      | ok fields =>
        simp only [Except.map, Evaluation.shown_ofVerdict hv]
        rfl
    rw [Option.elim_none, heq]
    apply hi.snapshot.bind
    intro s _
    exact reckons_lift
      (f.takes_partly (hi.idle .pause rfl) i.entryPoint s record action.name _)
  · have hshown : Evaluation.shown f c.snapshot action.name record d = Filter.whole record d :=
      Evaluation.shown_of_stage hd
    rw [Option.elim_some, Reckoning.map, Except.map, hshown]
    exact reckons_pure (Filter.whole record d)

end Tariff

/-! Whole batches. -/

namespace Tariff

variable {α β : Type} {c : Tariff}

/-- A program comes to what is reckoned, as long as the grants are what they are. -/
def Amounts (c : Tariff) (p : Program α) (x : Reckoning α) : Prop :=
  ∀ v, v.Alike c.world →
    (p.run v).1 = x.outcome ∧ (p.trace v).countP c.kind = c.accesses {} x

theorem Reckons.run' {m : Batched α} {x : Reckoning α} (hm : c.Reckons m x) :
    c.Amounts (m.run' {}) x := by
  intro v hv
  obtain ⟨hcount, hend⟩ := hm {} v ⟨Batch.isRight_empty _ _, fun _ => hv⟩
  change ((m {} >>= fun r => Program.done r.1).run v).1 = _ ∧
    ((m {} >>= fun r => Program.done r.1).trace v).countP c.kind = _
  rw [Ends] at hend
  cases hx : x.outcome with
  | error e =>
    rw [hx] at hend
    rw [run_bind_error hend, trace_bind_error hend]
    exact ⟨rfl, hcount⟩
  | ok a =>
    rw [hx] at hend
    obtain ⟨b, hrun, -⟩ := hend
    rw [run_bind_ok hrun, trace_bind_ok hrun, List.countP_append, hcount]
    exact ⟨rfl, rfl⟩

theorem Amounts.map {p : Program α} {x : Reckoning α} (hp : c.Amounts p x) (g : α → β) :
    c.Amounts (do return g (← p)) (x.map g) := by
  intro v hv
  obtain ⟨hrun, hcount⟩ := hp v hv
  change ((p >>= fun a => Program.done (g a)).run v).1 = x.outcome.map g ∧
    ((p >>= fun a => Program.done (g a)).trace v).countP c.kind = c.accesses {} x
  rw [run_bind, trace_bind, List.countP_append, hcount, ← hrun]
  rcases p.run v with ⟨_ | a, u⟩ <;> exact ⟨rfl, rfl⟩

theorem Amounts.after {q : Program α} {a : α} {f : α → Program β} {x : Reckoning β}
    (hq : Takes c.kind q (.ok a) []) (hp : c.Amounts (f a) x) : c.Amounts (q >>= f) x := by
  intro v hv
  obtain ⟨hrun, halike, hcount⟩ := hq v
  rw [run_bind_ok hrun, trace_bind_ok hrun, List.countP_append, hcount, List.countP_nil,
    Nat.zero_add]
  exact hp _ (halike.trans hv)

theorem Covers.amounts_asking {i : Inquiry} (hi : c.Covers i) {m : Batched α} {x : Reckoning α}
    (hm : c.Reckons m x) (account : Account) : c.Amounts (Authority.asking account m) x := by
  intro v hv
  obtain ⟨hrun, hcount⟩ := hm.run' (v.answer (.enter { account := some (.text account.id) })).2
    ((Evaluation.alike_answer (.inl rfl) v).trans hv)
  rw [Authority.asking, run_within, trace_within, List.countP_cons, List.countP_append, hcount,
    List.countP_singleton, hi.idle _ rfl, hi.idle _ rfl]
  exact ⟨hrun, rfl⟩

end Tariff

end AccessControl
