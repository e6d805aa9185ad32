import AccessControl.Proofs.Decision.Overrides

/-!
The stages of a decision: what they decide, and what is told of it. A batch of decisions comes to
the same under every way to find out about the account once.
-/

namespace AccessControl

open Program

/-! What is decided. -/

namespace Policy

def privilege (p : Policy) (account : Option Account) : Except Error Bool :=
  match account with
  | none => .ok false
  | some a => p.isAdmin.holds { account := some a }

theorem waits_admits (p : Policy) (account : Option Account) :
    Waits (p.admits account) (p.privilege account) := by
  cases account with
  | none => exact .done false
  | some a => exact p.isAdmin.waits_test _

/-- The decision of the stages before the rulesets, if one of them decides. -/
def stage (p : Policy) (r : Request) : Except Error (Option Decision) := do
  match ← Override.pick? r p.overrides.blocks with
  | some o => return some (.block o)
  | none =>
    if ← p.privilege r.account then return some .admin
    return (← Override.pick? r p.overrides.bypasses).map .bypass

theorem outcome_of_stage {p : Policy} {r : Request} {d : Decision} (h : p.stage r = .ok (some d)) :
    d.outcome = .block ∨ d.outcome = .admin ∨ d.outcome = .bypass := by
  rw [stage] at h
  revert h
  rcases Override.pick? r p.overrides.blocks with e | _ | o
  · exact fun h => nomatch h
  · rcases p.privilege r.account with e | _ | _
    · exact fun h => nomatch h
    · rcases Override.pick? r p.overrides.bypasses with e | _ | o
      · exact fun h => nomatch h
      · exact fun h => nomatch h
      · rintro ⟨⟩
        exact .inr (.inr rfl)
    · rintro ⟨⟩
      exact .inr (.inl rfl)
  · rintro ⟨⟩
    exact .inl rfl

def ruling (p : Policy) (r : Request) (verdict : Except Error Bool) : Except Error Decision := do
  match ← p.stage r with
  | some d => return d
  | none => return .ofVerdict (← verdict)

end Policy

/-! What is told. -/

def Effect.isTold : Effect → Bool
  | .record line => line.logger = "permissions.overrides"
  | .count s => s.family = .decisions
  | _ => false

def Effect.isIdle : Effect → Bool
  | .pause | .enter _ | .leave _ => true
  | _ => false

def Override.line (summary : String) (r : Request) : Log.Line :=
  ⟨.debug, "permissions.overrides", "Override matched",
    [("override", .text summary), ("action", .text r.action), ("entity_type", .text r.entityType)]⟩

namespace Decision

/-- What a decision on a request is told with: the override that is its reason, if there is one, and
its outcome. -/
def notes (entryPoint : String) (r : Request) (d : Decision) : List Effect :=
  match d.outcome with
  | .block | .bypass =>
    [.record (Override.line d.reason r), .count (Counters.decision entryPoint d.outcome.name)]
  | _ => [.count (Counters.decision entryPoint d.outcome.name)]

end Decision

abbrev Told (α : Type) := Except Error (α × List Effect)

namespace Told

variable {α β : Type}

def andThen (x : Told α) (y : α → Told β) : Told β :=
  match x with
  | .ok (a, front) => (y a).map fun (b, back) => (b, front ++ back)
  | .error e => .error e

def all {γ : Type} (y : γ → Told α) : List γ → Told (List α)
  | [] => .ok ([], [])
  | x :: xs => (y x).andThen fun a => (all y xs).andThen fun as => .ok (a :: as, [])

theorem all_map {γ δ : Type} (z : γ → Except Error δ) (out : γ → δ → α)
    (notes : γ → δ → List Effect) (xs : List γ) :
    all (fun x => (z x).map fun d => (out x d, notes x d)) xs =
      (xs.mapM z).map fun ds =>
        ((xs.zip ds).map fun (x, d) => out x d, (xs.zip ds).flatMap fun (x, d) => notes x d) := by
  induction xs with
  | nil => rfl
  | cons x xs ih =>
    rw [all, ih, List.mapM_cons]
    cases z x with
    | error e => rfl
    | ok d =>
      cases xs.mapM z with
      | error e => rfl
      | ok ds =>
        simp only [Except.map, andThen, List.append_nil]
        rfl

end Told

section

variable {σ α β : Type} {ι : Interpreter σ}

/-- What is left when a program has come to an outcome and told what belongs to it. What was told on
the way to a failure is left open. -/
def Told.Leaves (K : List Effect → σ → Prop) (l : List Effect) (x : Told α) (r : Except Error α)
    (s : σ) : Prop :=
  match x with
  | .ok (a, notes) => r = .ok a ∧ K (l ++ notes) s
  | .error e => r = .error e ∧ ∃ l', K l' s

/-- A program comes to an outcome, and tells what belongs to it; `K l` holds when `l` was told. -/
def Program.Tells (ι : Interpreter σ) (K : List Effect → σ → Prop) (p : Program α)
    (x : Told α) : Prop :=
  ∀ l, Ensures ι (K l) p (x.Leaves K l)

namespace Program

variable {K : List Effect → σ → Prop}

theorem tells_pure (a : α) : Tells ι K (pure a) (.ok (a, [])) := by
  intro l s hs
  refine ⟨rfl, ?_⟩
  rwa [List.append_nil]

theorem Tells.bind {p : Program α} {x : Told α} {f : α → Program β} {y : α → Told β}
    (hp : Tells ι K p x) (hf : ∀ a, Tells ι K (f a) (y a)) :
    Tells ι K (p >>= f) (x.andThen y) := by
  intro l
  refine Ensures.bind (hp l) (fun a => ?_) (fun e s hs => ?_)
  · intro s hs
    cases x with
    | error e => cases hs.1
    | ok x =>
      obtain ⟨ha, hs⟩ := hs
      obtain rfl := Except.ok.inj ha
      have h := hf x.1 (l ++ x.2) s hs
      revert h
      rw [Told.andThen]
      cases y x.1 with
      | error e => exact id
      | ok z =>
        rintro ⟨hr, hs⟩
        exact ⟨hr, by rwa [← List.append_assoc]⟩
  · cases x with
    | error e' => exact ⟨congrArg _ (Except.error.inj hs.1), hs.2⟩
    | ok x => cases hs.1

/-- What is kept while turns are given away and log lines attributed, and goes on as decisions are
told. -/
structure Hears (ι : Interpreter σ) (K : List Effect → σ → Prop) : Prop where
  idle : ∀ {e l s}, e.isIdle = true → K l s → K l (ι s e).2
  told : ∀ {e l s}, e.isTold = true → K l s → K (l ++ [e]) (ι s e).2

variable (hK : Hears ι K)

include hK

theorem Waits.tells {p : Program α} {x : Except Error α} (hp : Waits p x) :
    Tells ι K p (x.map (·, [])) := by
  intro l s hs
  obtain ⟨hr, hs⟩ := hp.ensures (fun _ hs => hK.idle rfl hs) s hs
  rw [hr]
  cases x with
  | error e => exact ⟨rfl, l, hs⟩
  | ok a =>
    refine ⟨rfl, ?_⟩
    rwa [List.append_nil]

theorem tells_log {logger message : String} {level : Log.Level} {fields : Value.Fields}
    (h : logger = "permissions.overrides") :
    Tells ι K (log level logger message fields)
      (.ok ((), [.record ⟨level, logger, message, fields⟩])) :=
  fun _ _ hs => ⟨rfl, hK.told (decide_eq_true h) hs⟩

theorem tells_counted (entryPoint : String) (d : Decision) :
    Tells ι K (Policy.counted entryPoint d)
      (.ok (d, [.count (Counters.decision entryPoint d.outcome.name)])) :=
  fun _ _ hs => ⟨rfl, hK.told rfl hs⟩

theorem tells_find? (os : List Override) (r : Request) :
    Tells ι K (Policy.find? os r) ((Override.pick? r os).map fun o =>
      (o, o.elim [] fun o => [.record (Override.line o.summary r)])) := by
  have h : (Override.pick? r os).map (fun o =>
      (o, o.elim [] fun o => [Effect.record (Override.line o.summary r)])) =
      Told.andThen ((Override.pick? r os).map (·, [])) fun o =>
        .ok (o, o.elim [] fun o => [.record (Override.line o.summary r)]) := by
    cases Override.pick? r os <;> rfl
  rw [h]
  refine (Waits.tells hK (Override.waits_first? r os)).bind fun o => ?_
  cases o with
  | none => exact tells_pure none
  | some o => exact (tells_log hK rfl).bind fun _ => tells_pure (some o)

theorem tells_stage (os : List Override) (r : Request) (entryPoint : String)
    (decision : Override → Decision)
    (hnotes : ∀ o, (decision o).notes entryPoint r =
      [.record (Override.line o.summary r),
        .count (Counters.decision entryPoint (decision o).outcome.name)]) :
    Tells ι K (do
      match ← Policy.find? os r with
      | some o => return some (← Policy.counted entryPoint (decision o))
      | none => return none)
      ((Override.pick? r os).map fun o =>
        (o.map decision, o.elim [] fun o => (decision o).notes entryPoint r)) := by
  have h : (Override.pick? r os).map (fun o =>
      (o.map decision, o.elim [] fun o => (decision o).notes entryPoint r)) =
      Told.andThen ((Override.pick? r os).map fun o =>
        (o, o.elim [] fun o => [.record (Override.line o.summary r)])) fun o =>
        .ok (o.map decision,
          o.elim [] fun o => [.count (Counters.decision entryPoint (decision o).outcome.name)]) := by
    simp only [hnotes]
    rcases Override.pick? r os with _ | _ | _ <;> rfl
  rw [h]
  refine (tells_find? hK os r).bind fun o => ?_
  cases o with
  | none => exact tells_pure none
  | some o => exact (tells_counted hK entryPoint _).bind fun _ => tells_pure _

theorem tells_blocked? (p : Policy) (entryPoint : String) (r : Request) :
    Tells ι K (p.blocked? entryPoint r)
      ((Override.pick? r p.overrides.blocks).map fun o =>
        (o.map .block, o.elim [] fun o => (Decision.block o).notes entryPoint r)) :=
  tells_stage hK _ r entryPoint .block fun _ => rfl

theorem tells_bypassed? (p : Policy) (entryPoint : String) (r : Request) :
    Tells ι K (p.bypassed? entryPoint r)
      ((Override.pick? r p.overrides.bypasses).map fun o =>
        (o.map .bypass, o.elim [] fun o => (Decision.bypass o).notes entryPoint r)) :=
  tells_stage hK _ r entryPoint .bypass fun _ => rfl

end Program

end

/-! Batches. -/

section

variable {σ α β : Type} {ι : Interpreter σ} {J : Batch → List Effect → σ → Prop}

def Batched.Yields (ι : Interpreter σ) (J : Batch → List Effect → σ → Prop) (m : Batched α)
    (x : Told α) : Prop :=
  ∀ b l, Ensures ι (J b l) (m b) fun r s =>
    match x with
    | .ok (a, notes) => ∃ b', r = .ok (a, b') ∧ J b' (l ++ notes) s
    | .error e => r = .error e ∧ ∃ b' l', J b' l' s

namespace Batched

theorem yields_pure (a : α) : Yields ι J (pure a) (.ok (a, [])) := by
  intro b l s hs
  refine ⟨b, rfl, ?_⟩
  rwa [List.append_nil]

theorem Yields.bind {m : Batched α} {x : Told α} {f : α → Batched β} {y : α → Told β}
    (hm : Yields ι J m x) (hf : ∀ a, Yields ι J (f a) (y a)) :
    Yields ι J (m >>= f) (x.andThen y) := by
  intro b l
  refine Ensures.bind (hm b l) (fun a => ?_) (fun e s hs => ?_)
  · intro s hs
    cases x with
    | error e => cases hs.1
    | ok x =>
      obtain ⟨b', ha, hs⟩ := hs
      obtain rfl := Except.ok.inj ha
      have h := hf x.1 b' (l ++ x.2) s hs
      revert h
      rw [Told.andThen]
      cases y x.1 with
      | error e => exact id
      | ok z =>
        rintro ⟨c, hr, hs⟩
        exact ⟨c, hr, by rwa [← List.append_assoc]⟩
  · cases x with
    | error e' => exact ⟨congrArg _ (Except.error.inj hs.1), hs.2⟩
    | ok x =>
      obtain ⟨_, ha, _⟩ := hs
      cases ha

theorem yields_lift {p : Program α} {x : Told α} (hp : ∀ b, Tells ι (J b) p x) :
    Yields ι J (liftM p) x := by
  intro b l
  refine Ensures.bind (hp b l) (fun a => ?_) (fun e s hs => ?_)
  · intro s hs
    cases x with
    | error e => cases hs.1
    | ok x =>
      obtain ⟨ha, hs⟩ := hs
      obtain rfl := Except.ok.inj ha
      exact ⟨b, rfl, hs⟩
  · cases x with
    | error e' => exact ⟨congrArg _ (Except.error.inj hs.1), b, hs.2⟩
    | ok x => cases hs.1

theorem yields_mapM {γ : Type} {f : γ → Batched α} {y : γ → Told α} {xs : List γ}
    (h : ∀ x ∈ xs, Yields ι J (f x) (y x)) : Yields ι J (xs.mapM f) (Told.all y xs) := by
  induction xs with
  | nil => exact yields_pure []
  | cons x xs ih =>
    rw [List.mapM_cons, Told.all]
    refine (h x List.mem_cons_self).bind fun a => ?_
    exact (ih fun z hz => h z (List.mem_cons_of_mem _ hz)).bind fun as => yields_pure (a :: as)

end Batched

end

/-- How a batch finds out about an account: whatever was found out holds, and what is found out is
kept. `J b l` holds when the batch has found out `b` and `l` was told. -/
structure Sitting {σ : Type} (ι : Interpreter σ) (i : Inquiry)
    (J : Batch → List Effect → σ → Prop) (privilege : Except Error Bool) (snapshot : Snapshot) :
    Prop where
  hears : ∀ b, Hears ι (J b)
  admin : Waits i.admin privilege
  admin_known : ∀ {b l s a}, J b l s → b.admin = some a → privilege = .ok a
  learns_admin : ∀ {b l s a}, J b l s → privilege = .ok a → J { b with admin := some a } l s
  snapshot_known : ∀ {b l s t}, J b l s → b.snapshot = some t → t = snapshot
  learns_snapshot : ∀ {b} l, b.snapshot = none → Ensures ι (J b l) i.grants fun r s =>
    r = .ok snapshot ∧ J { b with snapshot := some snapshot } l s

theorem Inquiry.isAdmin_eq (i : Inquiry) (b : Batch) :
    i.isAdmin b = match b.admin with
      | some a => pure (a, b)
      | none => i.admin >>= fun a => pure (a, { b with admin := some a }) := by
  rcases b with ⟨_ | a, snapshot⟩
  · exact bind_bind i.admin (fun a => .done (a, (⟨none, snapshot⟩ : Batch)))
      fun (a, b) => .done (a, { b with admin := some a })
  · rfl

theorem Inquiry.snapshot_eq (i : Inquiry) (b : Batch) :
    i.snapshot b = match b.snapshot with
      | some s => pure (s, b)
      | none => i.grants >>= fun s => pure (s, { b with snapshot := some s }) := by
  rcases b with ⟨admin, _ | s⟩
  · exact bind_bind i.grants (fun s => .done (s, (⟨admin, none⟩ : Batch)))
      fun (s, b) => .done (s, { b with snapshot := some s })
  · rfl

namespace Sitting

open Batched

variable {σ : Type} {ι : Interpreter σ} {i : Inquiry} {J : Batch → List Effect → σ → Prop}
  {privilege : Except Error Bool} {snapshot : Snapshot}
  (h : Sitting ι i J privilege snapshot)

include h

theorem yields_isAdmin : Yields ι J i.isAdmin (privilege.map (·, [])) := by
  intro b l
  rw [i.isAdmin_eq]
  cases hb : b.admin with
  | some a =>
    intro s hs
    rw [h.admin_known hs hb]
    refine ⟨b, rfl, ?_⟩
    rwa [List.append_nil]
  | none =>
    have hadmin : Ensures ι (J b l) i.admin fun r s => r = privilege ∧ J b l s :=
      h.admin.ensures fun _ hs => (h.hears b).idle rfl hs
    refine hadmin.bind (fun a => ensures_pure ?_) ?_
    · rintro s ⟨ha, hs⟩
      rw [← ha]
      refine ⟨_, rfl, ?_⟩
      rw [List.append_nil]
      exact h.learns_admin hs ha.symm
    · rintro e s ⟨he, hs⟩
      rw [← he]
      exact ⟨rfl, b, l, hs⟩

theorem yields_snapshot : Yields ι J i.snapshot (.ok (snapshot, [])) := by
  intro b l
  rw [i.snapshot_eq]
  cases hb : b.snapshot with
  | some t =>
    intro s hs
    refine ⟨b, ?_, ?_⟩
    · rw [h.snapshot_known hs hb]
      rfl
    · rwa [List.append_nil]
  | none =>
    refine (h.learns_snapshot l hb).bind (fun t => ensures_pure ?_) ?_
    · rintro s ⟨ht, hs⟩
      obtain rfl := Except.ok.inj ht
      refine ⟨_, rfl, ?_⟩
      rwa [List.append_nil]
    · rintro e s ⟨he, -⟩
      cases he

variable {p : Policy} {r : Request} (hr : p.privilege r.account = privilege)

include hr

theorem yields_settled? :
    Yields ι J (p.settled? i r)
      ((p.stage r).map fun d => (d, d.elim [] (·.notes i.entryPoint r))) := by
  have heq : (p.stage r).map (fun d => (d, d.elim [] (·.notes i.entryPoint r))) =
      Told.andThen ((Override.pick? r p.overrides.blocks).map fun o =>
        (o.map .block, o.elim [] fun o => (Decision.block o).notes i.entryPoint r)) fun d =>
        d.elim (Told.andThen (privilege.map (·, [])) fun a =>
          if a then .ok (some .admin, Decision.admin.notes i.entryPoint r)
          else (Override.pick? r p.overrides.bypasses).map fun o =>
            (o.map .bypass, o.elim [] fun o => (Decision.bypass o).notes i.entryPoint r))
          fun d => .ok (some d, []) := by
    rw [Policy.stage, hr]
    rcases Override.pick? r p.overrides.blocks with e | _ | o
    · rfl
    · rcases privilege with e | _ | _
      · rfl
      · rcases Override.pick? r p.overrides.bypasses with e | _ | o <;> rfl
      · rfl
    · rfl
  rw [heq]
  refine (yields_lift fun b => tells_blocked? (h.hears b) p i.entryPoint r).bind fun d => ?_
  cases d with
  | some d => exact yields_pure _
  | none =>
    refine h.yields_isAdmin.bind fun a => ?_
    cases a with
    | true =>
      exact (yields_lift fun b => tells_counted (h.hears b) i.entryPoint .admin).bind
        fun d => yields_pure (some d)
    | false => exact yields_lift fun b => tells_bypassed? (h.hears b) p i.entryPoint r

theorem yields_decide (test : Snapshot → Except Error Bool) :
    Yields ι J (p.decide i r test)
      ((p.ruling r (test snapshot)).map fun d => (d, d.notes i.entryPoint r)) := by
  have heq : (p.ruling r (test snapshot)).map (fun d => (d, d.notes i.entryPoint r)) =
      Told.andThen ((p.stage r).map fun d => (d, d.elim [] (·.notes i.entryPoint r))) fun d =>
        d.elim (Told.andThen (.ok (snapshot, [])) fun s =>
          Told.andThen ((test s).map (·, [])) fun a =>
            .ok (.ofVerdict a, (Decision.ofVerdict a).notes i.entryPoint r))
          fun d => .ok (d, []) := by
    rw [Policy.ruling]
    rcases p.stage r with e | _ | d
    · rfl
    · cases ht : test snapshot with
      | error e => simp only [Told.andThen, Except.map, Option.elim, ht]; rfl
      | ok a => simp only [Told.andThen, Except.map, Option.elim, ht]; rfl
    · simp only [Told.andThen, Except.map, Option.elim, List.append_nil]
      rfl
  rw [heq]
  refine (h.yields_settled? hr).bind fun d => ?_
  cases d with
  | some d => exact yields_pure d
  | none =>
    rw [Option.elim_none]
    refine h.yields_snapshot.bind fun s => ?_
    refine (yields_lift fun b => (waits_ofExcept (test s)).tells (h.hears b)).bind fun a => ?_
    refine yields_lift fun b => ?_
    cases a <;> exact tells_counted (h.hears b) _ _

end Sitting

end AccessControl
