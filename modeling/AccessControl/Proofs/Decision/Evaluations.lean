import AccessControl.Filter
import AccessControl.Proofs.Decision.Stages

/-!
The evaluations that can be asked for, each as the requests that it decides and an answer that follows
from the decisions.
-/

namespace AccessControl

open Program

/-- A request, and what the rulesets say of it. -/
structure Case where
  request : Request
  verdict : Snapshot → Except Error Bool

namespace Case

def creation (account : Account) (entityType : String) (tags : List Value) : Case where
  request := { account, action := RecordAction.create.name, entityType, attributes := .list tags }
  verdict := (·.mayCreate entityType tags)

def access (account : Option Account) (action : Action) (record : Record) : Case where
  request := Authority.recordRequest account record action.name
  verdict := (·.allows record action.name)

def unlocking (account : Account) (feature scope : Value) : Case where
  request :=
    { account, action := Authority.featureAction, entityType := feature.carry,
      payload := [("scope", scope)] }
  verdict := (·.unlocks feature scope)

def filtering (f : Filter) (account : Account) (action : Action) (record : Record) : Case where
  request := Authority.recordRequest account record action.name
  verdict := fun s => (f.visible s record action.name).map (!·.isEmpty)

def ruling (p : Policy) (s : Snapshot) (c : Case) : Except Error Decision :=
  p.ruling c.request (c.verdict s)

end Case

/-- An evaluation, by its entry point. -/
inductive Evaluation where
  | creation (account : Account) (entityType : String) (attributes : Value)
  | access (account : Account) (records : List Record) (action : Action)
  | accessOfRoles (roles : List String) (records : List Record) (action : Action)
  | unlocking (account : Account) (feature scope : Value)
  | filtering (account : Account) (records : List Record) (action : Action)

namespace Evaluation

abbrev Answer : Evaluation → Type
  | .creation .. | .unlocking .. => Bool
  | .access .. | .accessOfRoles .. => List Bool
  | .filtering .. => List Value.Fields

def ask (f : Filter) : (q : Evaluation) → Program q.Answer
  | .creation account entityType attributes =>
    f.authority.mayCreate account entityType attributes
  | .access account records action => f.authority.verdicts account records action
  | .accessOfRoles roles records action => f.authority.verdictsOfRoles roles records action
  | .unlocking account feature scope => f.authority.unlocks account feature scope
  | .filtering account records action => f.batch account records action

def entryPoint : Evaluation → String
  | .creation .. => "can_create"
  | .access .. => "account_can_do"
  | .accessOfRoles .. => "roles_can_do"
  | .unlocking .. => "can_do_feature"
  | .filtering .. => "filter_batch"

def account : Evaluation → Option Account
  | .creation account .. | .access account .. | .unlocking account .. | .filtering account .. =>
    some account
  | .accessOfRoles .. => none

def grants (f : Filter) : Evaluation → Program Snapshot
  | .creation account .. | .access account .. | .unlocking account .. | .filtering account .. =>
    f.authority.grants.ofAccount account.id
  | .accessOfRoles roles .. => f.authority.grants.ofRoles roles

def cases (f : Filter) : Evaluation → Except Error (List Case)
  | .creation account entityType attributes => do
    let tags ← attributes.parts
    return [.creation account entityType tags]
  | .access account records action => .ok (records.map (.access account action))
  | .accessOfRoles _ records action => .ok (records.map (.access none action))
  | .unlocking account feature scope => .ok [.unlocking account feature scope]
  | .filtering account records action => do
    records.forM fun record => do
      let _ ← f.entities.require record.entityType
    return records.map (.filtering f account action)

section

variable {f : Filter} {attributes : Value} {records : List Record} {e : Error} (account : Account)

theorem cases_of_parts (f : Filter) (entityType : String) {tags : List Value}
    (h : attributes.parts = .ok tags) :
    (creation account entityType attributes).cases f =
      .ok [.creation account entityType tags] := by
  rw [cases, h]
  rfl

theorem cases_of_parts_error (f : Filter) (entityType : String)
    (h : attributes.parts = .error e) :
    (creation account entityType attributes).cases f = .error e := by
  rw [cases, h]
  rfl

theorem cases_of_known (action : Action)
    (h : (records.forM fun record => do
      let _ ← f.entities.require record.entityType) = .ok ()) :
    (filtering account records action).cases f =
      .ok (records.map (.filtering f account action)) := by
  rw [cases, h]
  rfl

theorem cases_of_unknown (action : Action)
    (h : (records.forM fun record => do
      let _ ← f.entities.require record.entityType) = .error e) :
    (filtering account records action).cases f = .error e := by
  rw [cases, h]
  rfl

end

def shown (f : Filter) (s : Snapshot) (action : String) (record : Record) (d : Decision) :
    Value.Fields :=
  match d.outcome with
  | .rulesetAllow | .rulesetDeny => ((f.visible s record action).toOption).getD []
  | _ => Filter.whole record d

theorem shown_ofVerdict {f : Filter} {s : Snapshot} {action : String} {record : Record}
    {fields : Value.Fields} (h : f.visible s record action = .ok fields) (allowed : Bool) :
    shown f s action record (.ofVerdict allowed) = fields := by
  rw [shown, h]
  cases allowed <;> rfl

theorem shown_of_stage {f : Filter} {s : Snapshot} {action : String} {record : Record} {r : Request}
    {d : Decision} (h : f.authority.policy.stage r = .ok (some d)) :
    shown f s action record d = Filter.whole record d := by
  rcases Policy.outcome_of_stage h with ho | ho | ho <;> rw [shown, ho]

/-- The answer, from the decisions. -/
def answer (f : Filter) (s : Snapshot) : (q : Evaluation) → List Decision → q.Answer
  | .creation .., ds | .unlocking .., ds => ds.all Decision.allowed
  | .access .., ds | .accessOfRoles .., ds => ds.map Decision.allowed
  | .filtering _ records action, ds => (records.zip ds).map fun (record, d) =>
    shown f s action.name record d

def notes (q : Evaluation) (cs : List Case) (ds : List Decision) : List Effect :=
  (cs.zip ds).flatMap fun (c, d) => d.notes q.entryPoint c.request

def told (f : Filter) (s : Snapshot) (q : Evaluation) : Except Error (q.Answer × List Effect) := do
  let cs ← q.cases f
  let ds ← cs.mapM (Case.ruling f.authority.policy s)
  return (q.answer f s ds, q.notes cs ds)

def inquiry (f : Filter) (q : Evaluation) : Inquiry :=
  ⟨q.entryPoint, f.authority.policy.admits q.account, q.grants f⟩

end Evaluation

section

variable {σ α β : Type} {ι : Interpreter σ} {K : List Effect → σ → Prop}

theorem Program.waits_forM {γ : Type} {p : γ → Program Unit} {x : γ → Except Error Unit}
    (h : ∀ c, Waits (p c) (x c)) (cs : List γ) : Waits (cs.forM p) (cs.forM x) := by
  induction cs with
  | nil => exact .done ()
  | cons c cs ih => exact (h c).bind fun _ => ih

theorem Told.Leaves.idle (hK : Hears ι K) {x : Told α} {l : List Effect} {r : Except Error α}
    {s : σ} {e : Effect} (he : e.isIdle = true) (h : x.Leaves K l r s) :
    x.Leaves K l r (ι s e).2 := by
  cases x with
  | ok x => exact ⟨h.1, hK.idle he h.2⟩
  | error e' =>
    obtain ⟨hr, l', hl⟩ := h
    exact ⟨hr, l', hK.idle he hl⟩

theorem Program.ensures_within (hK : Hears ι K) {l : List Effect} {p : Program α} {x : Told α}
    {P : σ → Prop} (hP : ∀ e s, e.isIdle = true → P s → P (ι s e).2)
    (hp : Ensures ι P p (x.Leaves K l)) (b : Log.Binding) :
    Ensures ι P (within b p) (x.Leaves K l) := by
  refine Ensures.bind (Q := fun r s => (∃ u, r = .ok u) ∧ P s)
    (ensures_perform fun s hs => ⟨⟨_, rfl⟩, hP _ s rfl hs⟩) (fun undos => ?_) (by simp)
  refine Ensures.bind (Ensures.mono hp.attempt (fun s hs => hs.2) fun _ _ => id)
    (fun outcome => ?_) (by simp)
  refine Ensures.bind (Q := fun r s => (∃ u, r = .ok u) ∧ x.Leaves K l outcome s)
    (ensures_perform ?_) (fun _ => ?_) (by simp)
  · rintro s ⟨r, hr, h⟩
    obtain rfl := Except.ok.inj hr
    exact ⟨⟨_, rfl⟩, h.idle hK rfl⟩
  · exact ensures_ofExcept fun s hs => hs.2

theorem Program.ensures_map {l : List Effect} {p : Program α} {x : Told α} {P : σ → Prop}
    (hp : Ensures ι P p (x.Leaves K l)) (g : α → β) :
    Ensures ι P (p >>= fun a => pure (g a))
      (Told.Leaves K l (x.map fun (a, notes) => (g a, notes))) := by
  refine hp.bind (fun a => ensures_pure fun s hs => ?_) fun e s hs => ?_
  · cases x with
    | error e => cases hs.1
    | ok x =>
      obtain ⟨ha, hs⟩ := hs
      obtain rfl := Except.ok.inj ha
      exact ⟨rfl, hs⟩
  · cases x with
    | error e' => exact ⟨congrArg _ (Except.error.inj hs.1), hs.2⟩
    | ok x => cases hs.1

theorem Filter.tells_partly (hK : Hears ι K) (f : Filter) (entryPoint : String) (s : Snapshot)
    (record : Record) (action : String) (r : Request) :
    Tells ι K (f.partly entryPoint s record action)
      ((f.visible s record action).map fun fields =>
        (fields, (Decision.ofVerdict !fields.isEmpty).notes entryPoint r)) := by
  have heq : (f.visible s record action).map (fun fields =>
        (fields, (Decision.ofVerdict !fields.isEmpty).notes entryPoint r)) =
      Told.andThen ((f.visible s record action).map (·, [])) fun fields =>
        Told.andThen (.ok (Decision.ofVerdict !fields.isEmpty, [.count (Counters.decision entryPoint
          (Decision.ofVerdict !fields.isEmpty).outcome.name)])) fun _ => .ok (fields, []) := by
    rcases f.visible s record action with e | _ | _ <;> rfl
  rw [heq]
  refine (Waits.tells hK (waits_ofExcept _)).bind fun fields => ?_
  exact (tells_counted hK entryPoint _).bind fun _ => tells_pure fields

end

namespace Sitting

open Batched

variable {σ α : Type} {ι : Interpreter σ} {J : Batch → List Effect → σ → Prop} {f : Filter}
  {s : Snapshot} {i : Inquiry} {privilege : Except Error Bool}
  (h : Sitting ι i J privilege s)

include h

theorem hears_any : Hears ι fun l s => ∃ b, J b l s where
  idle := by
    rintro e l s he ⟨b, hs⟩
    exact ⟨b, (h.hears b).idle he hs⟩
  told := by
    rintro e l s he ⟨b, hs⟩
    exact ⟨b, (h.hears b).told he hs⟩

omit h in
theorem ensures_run' {m : Batched α} {x : Told α} (hm : Yields ι J m x) (l : List Effect) :
    Ensures ι (J {} l) (m.run' {}) (x.Leaves (fun l s => ∃ b, J b l s) l) := by
  refine Ensures.bind (hm {} l) (fun a => ?_) ?_
  · refine ensures_pure fun s hs => ?_
    cases x with
    | error e => cases hs.1
    | ok x =>
      obtain ⟨b, ha, hs⟩ := hs
      obtain rfl := Except.ok.inj ha
      exact ⟨rfl, b, hs⟩
  · intro e s hs
    cases x with
    | error e' =>
      obtain ⟨he, b, l', hs⟩ := hs
      exact ⟨congrArg _ (Except.error.inj he), l', b, hs⟩
    | ok x =>
      obtain ⟨b, ha, hs⟩ := hs
      cases ha

theorem ensures_asking {account : Account} {m : Batched α} {x : Told α} (hm : Yields ι J m x)
    (l : List Effect) :
    Ensures ι (J {} l) (Authority.asking account m) (x.Leaves (fun l s => ∃ b, J b l s) l) :=
  ensures_within h.hears_any (fun _ _ he hs => (h.hears {}).idle he hs) (ensures_run' hm l) _

theorem yields_one {account : Account}
    (hp : f.authority.policy.privilege (some account) = privilege) (action : String)
    (record : Record) {r : Request} (hr : Authority.recordRequest account record action = r) :
    Yields ι J (f.one i account action record)
      ((f.authority.policy.ruling r ((f.visible s record action).map (!·.isEmpty))).map fun d =>
        (Evaluation.shown f s action record d, d.notes i.entryPoint r)) := by
  have heq : (f.authority.policy.ruling r ((f.visible s record action).map (!·.isEmpty))).map
        (fun d => (Evaluation.shown f s action record d, d.notes i.entryPoint r)) =
      Told.andThen ((f.authority.policy.stage r).map
        fun d => (d, d.elim [] (·.notes i.entryPoint r))) fun d =>
        d.elim (Told.andThen (.ok (s, [])) fun s =>
          (f.visible s record action).map fun fields =>
            (fields, (Decision.ofVerdict !fields.isEmpty).notes i.entryPoint r))
          fun d => .ok (Filter.whole record d, []) := by
    rw [Policy.ruling]
    rcases hd : f.authority.policy.stage r with e | _ | d
    · rfl
    · cases hv : f.visible s record action with
      | error e =>
        simp only [Told.andThen, Except.map, Option.elim, hv]
        rfl
      | ok fields =>
        simp only [Told.andThen, Except.map, Option.elim, hv]
        exact congrArg (fun x => Except.ok (x, _)) (Evaluation.shown_ofVerdict hv _)
    · simp only [Told.andThen, Except.map, Option.elim, List.append_nil]
      rw [← Evaluation.shown_of_stage hd]
      rfl
  rw [heq, Filter.one, hr]
  refine Yields.bind (h.yields_settled? ?_) fun d => ?_
  · rw [← hr]
    exact hp
  cases d with
  | some d => exact yields_pure _
  | none =>
    rw [Option.elim_none]
    exact h.yields_snapshot.bind fun s => yields_lift fun b =>
      f.tells_partly (h.hears b) i.entryPoint s record action r

theorem yields_cases {p : Policy} {cs : List Case}
    (hp : ∀ c ∈ cs, p.privilege c.request.account = privilege) :
    Yields ι J (cs.mapM fun c => p.decide i c.request c.verdict)
      ((cs.mapM (Case.ruling p s)).map fun ds =>
        (ds, (cs.zip ds).flatMap fun (c, d) => d.notes i.entryPoint c.request)) := by
  have heq : (cs.mapM (Case.ruling p s)).map (fun ds =>
        (ds, (cs.zip ds).flatMap fun (c, d) => d.notes i.entryPoint c.request)) =
      Told.all (fun c => (c.ruling p s).map fun d => (d, d.notes i.entryPoint c.request)) cs := by
    rw [Told.all_map (Case.ruling p s) (fun _ d => d) fun c d => d.notes i.entryPoint c.request]
    cases hds : cs.mapM (Case.ruling p s) with
    | error e => rfl
    | ok ds =>
      have hlength : cs.length = ds.length := (Outcome.mapM_eq_ok_iff.1 hds).length_eq
      have hsnd : (cs.zip ds).map Prod.snd = ds := List.map_snd_zip (Nat.le_of_eq hlength.symm)
      simp only [Except.map]
      rw [hsnd]
  rw [heq]
  exact yields_mapM fun c hc => h.yields_decide (hp c hc) c.verdict

end Sitting

namespace Evaluation

variable {f : Filter} {s : Snapshot} {q : Evaluation}

theorem waits_known (f : Filter) (records : List Record) :
    Waits (records.forM fun record => do
        let _ ← ofExcept (f.entities.require record.entityType))
      (records.forM fun record => do let _ ← f.entities.require record.entityType) :=
  waits_forM (fun _ => (waits_ofExcept _).bind fun _ => waits_pure ()) records

theorem told_of_error {e : Error} (h : q.cases f = .error e) : q.told f s = .error e := by
  rw [told, h]
  rfl

theorem told_eq {cs : List Case} (hcs : q.cases f = .ok cs) :
    q.told f s = (cs.mapM (Case.ruling f.authority.policy s)).map fun ds =>
      (q.answer f s ds, q.notes cs ds) := by
  rw [told, hcs]
  cases h : cs.mapM (Case.ruling f.authority.policy s) with
  | error e =>
    change (cs.mapM (Case.ruling f.authority.policy s) >>= _) = _
    rw [h]
    rfl
  | ok ds =>
    change (cs.mapM (Case.ruling f.authority.policy s) >>= _) = _
    rw [h]
    rfl

theorem decideEach_eq (auth : Authority) (i : Inquiry) (account : Option Account)
    (records : List Record) (action : Action) :
    auth.decideEach i account records action.name =
      (records.map (Case.access account action)).mapM fun c =>
        auth.policy.decide i c.request c.verdict := by
  rw [List.mapM_map]
  rfl

theorem told_one {c : Case} (hc : q.cases f = .ok [c]) :
    q.told f s = (c.ruling f.authority.policy s).map fun d =>
      (q.answer f s [d], d.notes q.entryPoint c.request) := by
  rw [told_eq hc, List.mapM_cons]
  cases c.ruling f.authority.policy s with
  | error e => rfl
  | ok d => simp [Except.map, notes]

end Evaluation

namespace Sitting

open Batched

variable {σ : Type} {ι : Interpreter σ} {J : Batch → List Effect → σ → Prop} {f : Filter}
  {s : Snapshot} {privilege : Except Error Bool} {q : Evaluation}

theorem ensures_decision {i : Inquiry} (h : Sitting ι i J privilege s) (account : Account)
    (c : Case) (hp : f.authority.policy.privilege c.request.account = privilege) (l : List Effect) :
    Ensures ι (J {} l)
      (do
        let d ← Authority.asking account (f.authority.policy.decide i c.request c.verdict)
        return d.allowed)
      (Told.Leaves (fun l s => ∃ b, J b l s) l
        ((c.ruling f.authority.policy s).map fun d =>
          ([d].all Decision.allowed, d.notes i.entryPoint c.request))) := by
  have heq : (c.ruling f.authority.policy s).map (fun d =>
        ([d].all Decision.allowed, d.notes i.entryPoint c.request)) =
      ((c.ruling f.authority.policy s).map fun d => (d, d.notes i.entryPoint c.request)).map
        fun (d, notes) => (d.allowed, notes) := by
    cases c.ruling f.authority.policy s <;> simp [Except.map]
  rw [heq]
  exact ensures_map (h.ensures_asking (h.yields_decide hp c.verdict) l) Decision.allowed

theorem yields_each {i : Inquiry} (h : Sitting ι i J privilege s) {account : Option Account}
    (records : List Record) (action : Action)
    (hp : f.authority.policy.privilege account = privilege) :
    Yields ι J (f.authority.decideEach i account records action.name)
      (((records.map (Case.access account action)).mapM
        (Case.ruling f.authority.policy s)).map fun ds =>
          (ds, ((records.map (Case.access account action)).zip ds).flatMap fun (c, d) =>
            d.notes i.entryPoint c.request)) := by
  rw [Evaluation.decideEach_eq]
  refine h.yields_cases fun c hc => ?_
  obtain ⟨record, -, rfl⟩ := List.mem_map.1 hc
  exact hp

theorem ensures_allowed {P : σ → Prop} {K : List Effect → σ → Prop} {l : List Effect}
    {p : Program (List Decision)} {x : Except Error (List Decision)}
    {notes : List Decision → List Effect}
    (hp : Ensures ι P p (Told.Leaves K l (x.map fun ds => (ds, notes ds)))) :
    Ensures ι P (p >>= fun ds => pure (ds.map Decision.allowed))
      (Told.Leaves K l (x.map fun ds => (ds.map Decision.allowed, notes ds))) := by
  have h := ensures_map hp (List.map Decision.allowed)
  cases x <;> exact h

theorem yields_filtering {i : Inquiry} (h : Sitting ι i J privilege s) {account : Account}
    (records : List Record) (action : Action)
    (hp : f.authority.policy.privilege (some account) = privilege) :
    Yields ι J (records.mapM (f.one i account action.name))
      (((records.map (Case.filtering f account action)).mapM
        (Case.ruling f.authority.policy s)).map fun ds =>
          ((records.zip ds).map fun (record, d) => Evaluation.shown f s action.name record d,
            ((records.map (Case.filtering f account action)).zip ds).flatMap fun (c, d) =>
              d.notes i.entryPoint c.request)) := by
  have heq := Told.all_map
    (fun record => Case.ruling f.authority.policy s (.filtering f account action record))
    (fun record d => Evaluation.shown f s action.name record d)
    (fun record d => d.notes i.entryPoint (Case.filtering f account action record).request) records
  simp only [List.mapM_map, List.zip_map_left, List.flatMap_map]
  refine heq ▸ yields_mapM fun record _ => ?_
  exact h.yields_one hp action.name record rfl

theorem ensures_ask (h : Sitting ι (q.inquiry f) J privilege s)
    (hp : f.authority.policy.privilege q.account = privilege) (l : List Effect) :
    Ensures ι (J {} l) (q.ask f) (Told.Leaves (fun l s => ∃ b, J b l s) l (q.told f s)) := by
  cases q with
  | creation account entityType attributes =>
    cases ht : attributes.parts with
    | error e =>
      rw [Evaluation.told_of_error (Evaluation.cases_of_parts_error account f entityType ht),
        Evaluation.ask, Authority.mayCreate, ht]
      exact fun s hs => ⟨rfl, l, {}, hs⟩
    | ok tags =>
      rw [Evaluation.told_one (Evaluation.cases_of_parts account f entityType ht), Evaluation.ask,
        Authority.mayCreate, ht]
      exact h.ensures_decision account (.creation account entityType tags) hp l
  | access account records action =>
    have hq : (Evaluation.access account records action).cases f =
        .ok (records.map (.access account action)) := rfl
    rw [Evaluation.told_eq hq]
    exact ensures_allowed (h.ensures_asking (h.yields_each records action hp) l)
  | accessOfRoles roles records action =>
    have hq : (Evaluation.accessOfRoles roles records action).cases f =
        .ok (records.map (.access none action)) := rfl
    rw [Evaluation.told_eq hq]
    exact ensures_allowed (ensures_run' (h.yields_each records action hp) l)
  | unlocking account feature scope =>
    have hq : (Evaluation.unlocking account feature scope).cases f =
        .ok [.unlocking account feature scope] := rfl
    rw [Evaluation.told_one hq]
    exact h.ensures_decision account (.unlocking account feature scope) hp l
  | filtering account records action =>
    refine Ensures.bind ((Evaluation.waits_known f records).ensures fun _ hs => (h.hears {}).idle rfl hs) (fun u => ?_) ?_
    · rintro s' ⟨hu, hs⟩
      rw [Evaluation.told_eq (Evaluation.cases_of_known account action hu.symm)]
      exact h.ensures_asking (h.yields_filtering records action hp) l s' hs
    · rintro e s' ⟨he, hs⟩
      rw [Evaluation.told_of_error (Evaluation.cases_of_unknown account action he.symm)]
      exact ⟨rfl, l, {}, hs⟩

end Sitting

end AccessControl
