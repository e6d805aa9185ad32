import AccessControl.Proofs.Decision.Evaluations

/-!
An evaluation is put together from a resolution and from quiet accesses. A property of programs that
quiet accesses have, and that composition respects, the evaluation has if the resolution has it.
-/

namespace AccessControl

open Program

variable {α β : Type}

namespace Program

/-- A property of programs that composition keeps, and that quiet accesses have. -/
structure Closed (L : {α : Type} → Program α → Prop) : Prop where
  ofExcept {α : Type} (x : Except Error α) : L (ofExcept x)
  quiet {e : Effect} (he : e.isQuiet = true) : L (perform e)
  bind {α β : Type} {p : Program α} {f : α → Program β} (hp : L p) (hf : ∀ a, L (f a)) :
    L (p >>= f)
  attempt {α : Type} {p : Program α} (hp : L p) : L p.attempt

namespace Closed

variable {L : {α : Type} → Program α → Prop} (hL : Closed L)

include hL

theorem pure (a : α) : L (Pure.pure a : Program α) :=
  hL.ofExcept (.ok a)

theorem waits {p : Program α} {x : Except Error α} (hp : Waits p x) : L p := by
  induction hp with
  | done a => exact hL.ofExcept (.ok a)
  | fail e => exact hL.ofExcept (.error e)
  | pause _ ih => exact hL.bind (hL.quiet (e := .pause) rfl) fun _ => ih

theorem within {p : Program α} (hp : L p) (b : Log.Binding) : L (within b p) :=
  hL.bind (hL.quiet rfl) fun _ => hL.bind (hL.attempt hp) fun x =>
    hL.bind (hL.quiet rfl) fun _ => hL.ofExcept x

theorem counted (entryPoint : String) (d : Decision) : L (Policy.counted entryPoint d) :=
  hL.bind (hL.quiet rfl) fun _ => hL.pure d

theorem find? (os : List Override) (r : Request) : L (Policy.find? os r) := by
  refine hL.bind (hL.waits (Override.waits_first? r os)) fun o => ?_
  cases o with
  | none => exact hL.pure none
  | some o => exact hL.bind (hL.quiet rfl) fun _ => hL.pure (some o)

theorem found (os : List Override) (r : Request) (entryPoint : String)
    (decision : Override → Decision) :
    L (do match ← Policy.find? os r with
      | some o => return some (← Policy.counted entryPoint (decision o))
      | none => return none) := by
  refine hL.bind (hL.find? os r) fun o => ?_
  cases o with
  | none => exact hL.pure none
  | some o => exact hL.bind (hL.counted _ _) fun d => hL.pure (some d)

theorem partly (f : Filter) (entryPoint : String) (s : Snapshot) (record : Record)
    (action : String) : L (f.partly entryPoint s record action) :=
  hL.bind (hL.ofExcept _) fun visible => hL.bind (hL.counted _ _) fun _ => hL.pure visible

end Closed

theorem closed_keeps {σ : Type} {ι : Interpreter σ} {I : σ → Prop} (hI : Inert ι I) :
    Closed fun p => Keeps ι I p where
  ofExcept _ := upholds_ofExcept trivial
  quiet he := keeps_quiet hI he
  bind hp hf := hp.bind hf
  attempt hp := (Upholds.attempt hp).keeps

end Program

def Batched.All (L : {α : Type} → Program α → Prop) (m : Batched α) : Prop :=
  ∀ b, L (m b)

namespace Program.Closed

open Batched

variable {L : {α : Type} → Program α → Prop} (hL : Closed L)

include hL

theorem all_pure (a : α) : All L (Pure.pure a) :=
  fun b => hL.pure (a, b)

theorem all_bind {m : Batched α} {f : α → Batched β} (hm : All L m) (hf : ∀ a, All L (f a)) :
    All L (m >>= f) :=
  fun b => hL.bind (hm b) fun (a, b) => hf a b

theorem all_lift {p : Program α} (hp : L p) : All L (liftM p) :=
  fun b => hL.bind hp fun a => hL.pure (a, b)

theorem all_mapM {γ : Type} {f : γ → Batched α} (h : ∀ x, All L (f x)) (xs : List γ) :
    All L (xs.mapM f) := by
  induction xs with
  | nil => exact hL.all_pure []
  | cons x xs ih =>
    rw [List.mapM_cons]
    exact hL.all_bind (h x) fun a => hL.all_bind ih fun as => hL.all_pure (a :: as)

theorem all_isAdmin {i : Inquiry} {x : Except Error Bool} (hadmin : Waits i.admin x) :
    All L i.isAdmin := by
  intro b
  rw [i.isAdmin_eq]
  split
  · exact hL.pure _
  · exact hL.bind (hL.waits hadmin) fun _ => hL.pure _

theorem all_snapshot {i : Inquiry} (hgrants : L i.grants) : All L i.snapshot := by
  intro b
  rw [i.snapshot_eq]
  split
  · exact hL.pure _
  · exact hL.bind hgrants fun _ => hL.pure _

theorem all_settled? (p : Policy) {i : Inquiry} {x : Except Error Bool}
    (hadmin : Waits i.admin x) (r : Request) : All L (p.settled? i r) := by
  refine hL.all_bind (hL.all_lift (hL.found _ _ _ _)) fun d => ?_
  cases d with
  | some d => exact hL.all_pure (some d)
  | none =>
    refine hL.all_bind (hL.all_isAdmin hadmin) fun a => ?_
    cases a with
    | true => exact hL.all_bind (hL.all_lift (hL.counted _ _)) fun d => hL.all_pure (some d)
    | false => exact hL.all_lift (hL.found _ _ _ _)

theorem run' {m : Batched α} (hm : All L m) : L (m.run' {}) :=
  hL.bind (hm {}) fun (a, _) => hL.pure a

theorem asking (account : Account) {m : Batched α} (hm : All L m) :
    L (Authority.asking account m) :=
  hL.within (hL.run' hm) _

section Inquiry

variable {i : Inquiry} {x : Except Error Bool} (hadmin : Waits i.admin x) (hgrants : L i.grants)

include hadmin hgrants

theorem all_decide (p : Policy) (r : Request) (test : Snapshot → Except Error Bool) :
    All L (p.decide i r test) := by
  refine hL.all_bind (hL.all_settled? p hadmin r) fun d => ?_
  cases d with
  | some d => exact hL.all_pure d
  | none =>
    refine hL.all_bind (hL.all_snapshot hgrants) fun s => ?_
    refine hL.all_bind (hL.all_lift (hL.ofExcept (test s))) fun a => ?_
    exact hL.all_lift (hL.counted _ _)

theorem all_one (f : Filter) (account : Account) (action : String) (record : Record) :
    All L (f.one i account action record) := by
  refine hL.all_bind (hL.all_settled? f.authority.policy hadmin _) fun d => ?_
  cases d with
  | some d => exact hL.all_pure _
  | none =>
    exact hL.all_bind (hL.all_snapshot hgrants) fun s => hL.all_lift (hL.partly f _ s _ _)

end Inquiry

theorem ask {f : Filter} {q : Evaluation} (hgrants : L (q.grants f)) : L (q.ask f) := by
  have hadmin := f.authority.policy.waits_admits q.account
  cases q with
  | creation account entityType attributes =>
    refine hL.bind (hL.ofExcept attributes.parts) fun tags => ?_
    exact hL.bind (hL.asking account (hL.all_decide hadmin hgrants _ _ _)) fun _ => hL.pure _
  | access account records action =>
    refine hL.bind (hL.asking account (hL.all_mapM (fun record => ?_) records)) fun _ => hL.pure _
    exact hL.all_decide hadmin hgrants _ _ _
  | accessOfRoles roles records action =>
    refine hL.bind (hL.run' (hL.all_mapM (fun record => ?_) records)) fun _ => hL.pure _
    exact hL.all_decide hadmin hgrants _ _ _
  | unlocking account feature scope =>
    exact hL.bind (hL.asking account (hL.all_decide hadmin hgrants _ _ _)) fun _ => hL.pure _
  | filtering account records action =>
    refine hL.bind (hL.waits (Evaluation.waits_known f records)) fun _ => ?_
    exact hL.asking account (hL.all_mapM (fun record =>
      hL.all_one hadmin hgrants f account action.name record) records)

theorem denied {p : Program Bool} (hp : L p) (denial : Error) :
    L (do if ← p then return else fail denial) := by
  refine hL.bind hp fun allowed => ?_
  cases allowed with
  | true => exact hL.pure ()
  | false => exact hL.ofExcept (.error denial)

end Program.Closed

end AccessControl
