import AccessControl.Proofs.Entitlements.Readiness

/-!
The course of one registration: what it asks for at each of its stages. The registrations of a name
are locked while the row of the name is read and saved.
-/

namespace AccessControl

def Effect.isAside : Effect → Bool
  | .store .entitlements => true
  | .store _ | .lock _ | .unlock _ => false
  | _ => true

theorem Effect.isAside_of_isTelling {e : Effect} (he : e.isTelling = true) :
    e.isAside = true := by
  cases e with
  | store c => cases c <;> first | rfl | cases he
  | _ => first | rfl | cases he

namespace Entitlements

open Program

def registering (c : Entitlements) (d : Except Error Definition) : Program Entitlement := do
  ofExcept (← registerGiven d c).1

variable (c : Entitlements)

def conclude (f : Entitlement) : Program Entitlement := do
  c.listeners.forM (·.hear f.name)
  c.publish
  count "immediate"
  return f

theorem aside_hear (name : String) (l : ChangeListener) : Only Effect.isAside (l.hear name) := by
  cases l with
  | cache => exact (GrantCache.only_succeeded rfl rfl fun _ => rfl).bind fun _ => only_pure ()
  | named listener l => exact (telling_hear l _).mono fun _ => Effect.isAside_of_isTelling

theorem aside_conclude (f : Entitlement) : Only Effect.isAside (conclude c f) := by
  refine (only_forM fun l => aside_hear f.name l).bind fun _ => ?_
  refine ((telling_publish c).mono fun _ => Effect.isAside_of_isTelling).bind fun _ => ?_
  exact (only_perform rfl).bind fun _ => only_pure f

theorem returns_conclude (f : Entitlement) : (conclude c f).Returns (· = f) := by
  refine (returns_true _).bind fun _ _ => (returns_true _).bind fun _ _ => ?_
  exact (returns_true _).bind fun _ _ => rfl

def release (e : Entitlement) (x : Except Error Entitlement) : Program Entitlement := do
  perform (.unlock e.name)
  conclude c (← ofExcept x)

def guarded (e : Entitlement) (p : Program Entitlement) : Program Entitlement := do
  release c e (← (storing logger "save_entitlement" p).attempt)

theorem save_bind (e : Entitlement) :
    save e >>= conclude c =
      (perform (.lock e.name) >>= fun _ => guarded c e (do
        let old ← call (.entitlement e.name)
        log .info logger (if old.isSome then "Updating entitlement" else "Creating entitlement")
          [("entitlement", .text e.name)]
        let _ ← call (.putEntitlement (renewed e old))
        return renewed e old)) := by
  unfold save locking guarded release
  simp only [bind_assoc]

theorem store_bind (e : Entitlement) :
    (c.store ⟨e, true⟩ >>= fun f => count "immediate" >>= fun _ => pure f) =
      save e >>= conclude c := by
  unfold store conclude
  simp only [bind_assoc, if_true, pure_bind]

theorem value_lift_bind {σ α β : Type} (q : Program α) (f : α → Stateful σ β) (s : σ) :
    ((((liftM q : Stateful σ α) >>= f) s) >>= fun r => ofExcept r.1) =
      q >>= fun a => f a s >>= fun r => ofExcept r.1 := by
  change ((q.attempt >>= fun x => pure (x, s)) >>= _) >>= _ = _
  rw [bind_assoc, bind_assoc]
  exact attempt_bind (fun e => rfl) q

theorem registering_ok (hc : c.backlog.phase = .flushed) (d : Definition) :
    registering c (.ok d) = d.entitlement >>= fun e => save e >>= conclude c := by
  have hflushed : c.backlog.flushed = true := by simp [Backlog.flushed, hc]
  refine (value_lift_bind d.entitlement _ c).trans (bind_congr fun e => ?_)
  change (onBacklog (Backlog.submit c.store (.mk ⟨e, c.backlog.flushed⟩ .none)) c >>= _) >>= _ = _
  rw [hflushed, submit_flushed hc, bind_assoc, bind_assoc, ← store_bind]
  refine (attempt_bind (fun e => rfl) _).trans (bind_congr fun f => ?_)
  rfl

/-- How far a registration has come. Its row is `e` as soon as the definition was checked. -/
inductive Stage where
  | refused (x : Error)
  | warning (d : Definition) (name : String) (line : Log.Line)
  | minting (d : Definition) (name : String)
  | timing (d : Definition) (name id : String)
  | waiting (e : Entitlement)
  | reading (e : Entitlement)
  | noting (e : Entitlement) (old : Option Entitlement)
  | saving (e : Entitlement) (old : Option Entitlement)
  | telling (e : Entitlement) (x : Error)
  | leaving (e : Entitlement) (x : Except Error Entitlement)
  | closing (e f : Entitlement) (p : Program Entitlement)
  | failed (e : Entitlement) (x : Error)

namespace Stage

def note (e : Entitlement) (old : Option Entitlement) : Log.Line :=
  ⟨.info, logger, if old.isSome then "Updating entitlement" else "Creating entitlement",
    [("entitlement", .text e.name)]⟩

def complaint (x : Error) : Log.Line :=
  ⟨.error, logger, "Storage operation failed",
    [("operation", .text "save_entitlement"), ("error", .text x.message)]⟩

def program : Stage → Program Entitlement
  | refused x => fail x
  | warning d name line => do
    perform (.record line)
    let id ← perform .mint
    save (d.row id name (← perform .now)) >>= conclude c
  | minting d name => do
    let id ← perform .mint
    save (d.row id name (← perform .now)) >>= conclude c
  | timing d name id => do
    save (d.row id name (← perform .now)) >>= conclude c
  | waiting e => save e >>= conclude c
  | reading e => guarded c e do
    let old ← call (.entitlement e.name)
    perform (.record (note e old))
    let _ ← call (.putEntitlement (renewed e old))
    return renewed e old
  | noting e old => guarded c e do
    perform (.record (note e old))
    let _ ← call (.putEntitlement (renewed e old))
    return renewed e old
  | saving e old => guarded c e do
    let _ ← call (.putEntitlement (renewed e old))
    return renewed e old
  | telling e x => do
    perform (.record (complaint x))
    release c e (.error (.storage "save_entitlement"))
  | leaving e x => release c e x
  | closing _ _ p => p
  | failed _ x => fail x

def failing (e : Entitlement) (x : Error) : Stage :=
  if x.isOwn then leaving e (.error x) else telling e x

def left (e : Entitlement) : Except Error Entitlement → Stage
  | .ok f => closing e f (conclude c f)
  | .error x => failed e x

/-- A step of a registration aside from the row of its name and its lock. -/
inductive Aside : Stage → (a : Effect) → a.Reply → Stage → Prop where
  | warned (d : Definition) (name : String) (line : Log.Line) :
    Aside (warning d name line) (.record line) () (minting d name)
  | minted (d : Definition) (name id : String) :
    Aside (minting d name) .mint id (timing d name id)
  | timed (d : Definition) (name id : String) (t : Instant) :
    Aside (timing d name id) .now t (waiting (d.row id name t))
  | noted (e : Entitlement) (old : Option Entitlement) :
    Aside (noting e old) (.record (note e old)) () (saving e old)
  | told (e : Entitlement) (x : Error) :
    Aside (telling e x) (.record (complaint x)) ()
      (leaving e (.error (.storage "save_entitlement")))
  | closed (e f : Entitlement) {a : Effect} {next : a.Reply → Program Entitlement} (r : a.Reply)
    (ha : a.isAside = true) : Aside (closing e f (.ask a next)) a r (closing e f (next r))

inductive Goes : Stage → (a : Effect) → a.Reply → Stage → Prop where
  | aside {s s' : Stage} {a : Effect} {r : a.Reply} (h : Aside s a r s') : Goes s a r s'
  | lock (e : Entitlement) : Goes (waiting e) (.lock e.name) () (reading e)
  | read (e : Entitlement) (old : Option Entitlement) :
    Goes (reading e) (.store (.entitlement e.name)) (.ok old) (noting e old)
  | unread (e : Entitlement) (x : Error) :
    Goes (reading e) (.store (.entitlement e.name)) (.error x) (failing e x)
  | save (e f : Entitlement) (old : Option Entitlement) :
    Goes (saving e old) (.store (.putEntitlement (renewed e old))) (.ok f)
      (leaving e (.ok (renewed e old)))
  | unsaved (e : Entitlement) (old : Option Entitlement) (x : Error) :
    Goes (saving e old) (.store (.putEntitlement (renewed e old))) (.error x) (failing e x)
  | unlock (e : Entitlement) (x : Except Error Entitlement) :
    Goes (leaving e x) (.unlock e.name) () (left c e x)

/-- What is left when the row is stored is aside, and ends with this row. -/
def IsWell : Stage → Prop
  | closing _ f p => Only Effect.isAside p ∧ p.Returns (· = f)
  | _ => True

theorem program_failing (e : Entitlement) (x : Error) :
    (failing e x).program c =
      ((storing logger "save_entitlement" (fail x)).attempt >>= release c e) := by
  change _ = (ite _ _ _ : Program Entitlement).attempt >>= release c e
  unfold failing
  by_cases hx : x.isOwn
  · rw [if_pos hx, if_pos hx]
    rfl
  · rw [if_neg hx, if_neg hx]
    rfl

theorem isWell_failing (e : Entitlement) (x : Error) : (failing e x).IsWell := by
  unfold failing
  split <;> trivial

theorem goes_of_program {s : Stage} (hs : s.IsWell) {a : Effect}
    {next : a.Reply → Program Entitlement} (h : s.program c = .ask a next) (r : a.Reply) :
    ∃ s', s.Goes c a r s' ∧ s'.IsWell ∧ next r = s'.program c := by
  -- the stage tells which access comes next, and the reply tells the stage after it
  cases s with
  | refused x => cases h
  | failed e x => cases h
  | warning d name line =>
    cases h
    exact ⟨_, .aside (.warned d name line), trivial, rfl⟩
  | minting d name =>
    cases h
    exact ⟨_, .aside (.minted d name r), trivial, rfl⟩
  | timing d name id =>
    cases h
    exact ⟨_, .aside (.timed d name id r), trivial, rfl⟩
  | waiting e =>
    change save e >>= conclude c = _ at h
    rw [save_bind] at h
    cases h
    exact ⟨_, .lock e, trivial, rfl⟩
  | reading e =>
    cases h
    cases r with
    | ok old => exact ⟨_, .read e old, trivial, rfl⟩
    | error x => exact ⟨_, .unread e x, isWell_failing e x, (program_failing c e x).symm⟩
  | noting e old =>
    cases h
    exact ⟨_, .aside (.noted e old), trivial, rfl⟩
  | saving e old =>
    cases h
    cases r with
    | ok f => exact ⟨_, .save e f old, trivial, rfl⟩
    | error x => exact ⟨_, .unsaved e old x, isWell_failing e x, (program_failing c e x).symm⟩
  | telling e x =>
    cases h
    exact ⟨_, .aside (.told e x), trivial, rfl⟩
  | leaving e x =>
    cases h
    cases x with
    | ok f => exact ⟨_, .unlock e (.ok f), ⟨aside_conclude c f, returns_conclude c f⟩, rfl⟩
    | error x => exact ⟨_, .unlock e (.error x), trivial, rfl⟩
  | closing e f p =>
    obtain rfl : p = .ask a next := h
    exact ⟨_, .aside (.closed e f r hs.1.1), ⟨hs.1.2 r, hs.2 r⟩, rfl⟩

def checked (d : Definition) (name : String) (rules : List Permission.Rule) : Stage :=
  match d.inert rules with
  | [] => minting d name
  | raws => warning d name
    ⟨.warning, Definition.logger, "Entitlement rules reference entity types outside applies_to",
      [("entitlement", .text name), ("rules", .texts raws)]⟩

def start : Except Error Definition → Stage
  | .error x => refused x
  | .ok d =>
    match d.check with
    | .error x => refused x
    | .ok (name, rules) => checked d name rules

theorem program_checked (d : Definition) (name : String) (rules : List Permission.Rule) :
    (checked d name rules).program c = (do
      d.warnInert name rules
      let id ← perform .mint
      save (d.row id name (← perform .now)) >>= conclude c) := by
  unfold checked Definition.warnInert
  cases d.inert rules <;> rfl

theorem program_start (hc : c.backlog.phase = .flushed) (d : Except Error Definition) :
    (start d).program c = registering c d := by
  cases d with
  | error x => rfl
  | ok d =>
    rw [registering_ok c hc]
    unfold start Definition.entitlement
    cases hcheck : d.check with
    | error x =>
      simp only [hcheck]
      rfl
    | ok x =>
      obtain ⟨name, rules⟩ := x
      simp only [hcheck, program_checked]
      simp only [Program.ofExcept, bind_assoc]
      rfl

theorem isWell_start (d : Except Error Definition) : (start d).IsWell := by
  unfold start checked
  repeat' split
  all_goals trivial

end Stage

end Entitlements

end AccessControl
