import AccessControl.Proofs.Entitlements.Flushing
import AccessControl.Proofs.Entitlements.Readiness
import AccessControl.Proofs.Program.Preserving
import AccessControl.Proofs.Store.Failures

/-!
The listing beside the registrations. A call does its work first and publishes the listing then. So
it comes to the same without a listing, unless the read for the listing fails with an error that is
passed on.
-/

namespace AccessControl

open Program Store

def Effect.isUnlisted : Effect → Bool
  | .store .entitlements | .publish _ => false
  | _ => true

def Effect.isDetached : Effect → Bool
  | .store _ | .publish _ => false
  | _ => true

theorem Effect.isUnlisted_of_isDetached {e : Effect} (he : e.isDetached = true) :
    e.isUnlisted = true := by
  cases e <;> first | rfl | cases he

/-- A failure of the read for the listing that ends the call: an error of the engine's own, but not
that of the store. -/
def Error.isPassed : Error → Bool
  | .storage _ => false
  | e => e.isOwn

theorem Store.Ledger.faults_call (m : Ledger) (c : Call) :
    (m.call c).2.faults = (m.faults.take c.methods).2 := by
  rw [call]
  rcases m.faults.take c.methods with ⟨_ | e, faults⟩ <;> rfl

theorem Store.Ledger.tables_call_of_read (m : Ledger) {c : Call} (hc : c.isRead = true) :
    (m.call c).2.tables = m.tables := by
  have hafter : m.tables.after c = m.tables := by cases c <;> first | rfl | cases hc
  rw [call]
  rcases m.faults.take c.methods with ⟨_ | e, faults⟩
  · exact hafter
  · rfl

namespace World

variable {w : World}

/-- A world without what concerns the listing: its file, the failures of the reads for it, and the
log. -/
def unlisted (w : World) : World :=
  { w with
    ledger := { w.ledger with faults := w.ledger.faults.clear .entitlements }
    journal := { w.journal with events := [] }
    disk := { path := "" } }

def flaw? (w : World) : Option Error := w.ledger.faults .entitlements 0

theorem unlisted_listing {e : Effect} (he : e.isListing = true) :
    (w.answer e).2.unlisted = w.unlisted := by
  cases e with
  | store c =>
    obtain rfl : c = .entitlements := by cases c <;> first | rfl | cases he
    have hfaults : (w.ledger.call .entitlements).2.faults.clear .entitlements =
        w.ledger.faults.clear .entitlements := by
      funext m n
      by_cases hm : m = .entitlements
      · simp [Faults.clear, hm]
      · have habsent : m ∉ Call.methods .entitlements := by simpa [Call.methods] using hm
        have htake := w.ledger.faults.snd_take habsent
        simp only [Faults.clear, hm, if_false, Ledger.faults_call, htake]
    have htables := w.ledger.tables_call_of_read (c := .entitlements) rfl
    simp only [unlisted, answer, hfaults, htables]
  | record line =>
    have hjournal : { w.journal.record w.correlation line with events := [] } =
        { w.journal with events := [] } := by
      rw [Log.Journal.record]
      split <;> rfl
    simp only [unlisted, answer, hjournal]
  | publish text => rfl
  | pause => rfl
  | _ => cases he

def counted (w : World) : Option Counters.Series → World
  | some series => (w.answer (.count series)).2
  | none => w

theorem unlisted_counted (series : Option Counters.Series) :
    (w.counted series).unlisted = w.unlisted.counted series := by
  cases series <;> rfl

theorem disk_counted (series : Option Counters.Series) : (w.counted series).disk = w.disk := by
  cases series <;> rfl

theorem flaw?_unlisted {e : Effect} (he : e.isUnlisted = true) :
    (w.answer e).2.flaw? = w.flaw? ∧ (w.answer e).2.disk = w.disk := by
  cases e with
  | store c =>
    have hmethods : Method.entitlements ∉ c.methods := by
      cases c with
      | entitlements => cases he
      | enter phase => cases phase <;> simp [Call.methods, Phase.method]
      | _ => simp [Call.methods]
    refine ⟨?_, rfl⟩
    change (w.ledger.call c).2.faults .entitlements 0 = _
    rw [Ledger.faults_call, Faults.snd_take _ hmethods]
    rfl
  | publish => cases he
  | _ => exact ⟨rfl, rfl⟩

/-- How the listing is published. -/
inductive Publishes (w : World) : Except Error Unit → Disk → Prop where
  | published (h : w.flaw? = none) :
    Publishes w (.ok ()) (w.disk.publish (Entitlements.Listing.render
      w.ledger.tables.entitlements.rows)).2
  | skipped {e : Error} (h : w.flaw? = some e) (he : e.isPassed = false) :
    Publishes w (.ok ()) w.disk
  | passed {e : Error} (h : w.flaw? = some e) (he : e.isPassed = true) :
    Publishes w (.error e) w.disk

end World

namespace Entitlements

def unlisted (c : Entitlements) : Entitlements := { c with listing := none }

theorem run_read (w : World) :
    (call .entitlements).run w =
      (w.flaw?.elim (.ok w.ledger.tables.entitlements.rows) .error,
        (w.answer (.store .entitlements)).2) := by
  have hflaw : (w.ledger.faults.take (Call.methods .entitlements)).1 = w.flaw? :=
    Faults.fst_take_singleton w.ledger.faults .entitlements
  have hreply : (w.ledger.call .entitlements).1 =
      w.flaw?.elim (.ok w.ledger.tables.entitlements.rows) .error := by
    rw [← hflaw, Ledger.call]
    rcases w.ledger.faults.take (Call.methods .entitlements) with ⟨_ | e, faults⟩ <;> rfl
  change (Program.ofExcept (w.ledger.call .entitlements).1).run _ = _
  rw [hreply, run_ofExcept]

theorem exists_run_all (w : World) :
    ∃ v, all.run w = (w.flaw?.elim (.ok w.ledger.tables.entitlements.rows) fun e =>
        .error (if e.isOwn then e else .storage "all_entitlements"), v) ∧ v.disk = w.disk := by
  rw [all, storing, run_bind, run_attempt, run_read]
  cases w.flaw? with
  | none => exact ⟨_, rfl, rfl⟩
  | some e =>
    dsimp only [Option.elim]
    by_cases he : e.isOwn = true
    · rw [if_pos he, if_pos he]
      exact ⟨_, rfl, rfl⟩
    · rw [if_neg he, if_neg he]
      exact ⟨_, rfl, rfl⟩

theorem run_write (path : String) (es : List Entitlement) (w : World) :
    ((Listing.write path es).run w).1 = .ok () ∧
      ((Listing.write path es).run w).2.disk = (w.disk.publish (Listing.render es)).2 := by
  change (Program.run (ite _ _ _) _).1 = _ ∧ (Program.run (ite _ _ _) _).2.disk = _
  split <;> exact ⟨rfl, rfl⟩

theorem publishes (c : Entitlements) {path : String} (hc : c.listing = some path) (w : World) :
    w.Publishes (c.publish.run w).1 (c.publish.run w).2.disk := by
  obtain ⟨v, hall, hdisk⟩ := exists_run_all w
  rw [publish, hc]
  dsimp only
  rw [run_bind, run_attempt, hall]
  cases h : w.flaw? with
  | none =>
    obtain ⟨hwritten, hfile⟩ := run_write path w.ledger.tables.entitlements.rows v
    rw [hdisk] at hfile
    dsimp only [Option.elim]
    rw [hwritten, hfile]
    exact .published h
  | some e =>
    dsimp only [Option.elim]
    have hskipped (he : e.isPassed = false) : w.Publishes (.ok ()) v.disk := by
      rw [hdisk]
      exact .skipped h he
    have hends (he : e.isPassed = true) : w.Publishes (.error e) v.disk := by
      rw [hdisk]
      exact .passed h he
    by_cases hown : e.isOwn = true
    · rw [if_pos hown]
      -- a store that reports such an error itself is not told apart from one that failed otherwise
      cases e with
      | storage operation => exact hskipped rfl
      | _ => exact hends hown
    · rw [if_neg hown]
      apply hskipped
      cases e with
      | storage operation => rfl
      | _ => exact eq_false_of_ne_true hown

theorem unlisted_publish (c : Entitlements) (w : World) :
    (c.publish.run w).2.unlisted = w.unlisted := by
  have hkept := (listing_publish c).keeps (ι := World.answer)
    (I := fun v => v.unlisted = w.unlisted) fun e he v hv => (World.unlisted_listing he).trans hv
  rw [← runBy_answer]
  exact (hkept.run rfl).2

/-! A call up to the listing. -/

def entering (c : Entitlements) (e : Entitlement) : Program Entitlement := do
  let f ← save e
  c.listeners.forM (·.hear f.name)
  return f

theorem store_eq (c : Entitlements) (r : Registration) :
    c.store r = do
      let f ← entering c r.entitlement
      if r.publish then c.publish
      return f := by
  rw [store, entering]
  simp only [bind_assoc, pure_bind]

theorem unlisted_entering (c : Entitlements) (e : Entitlement) :
    Only Effect.isUnlisted (entering c e) := by
  have hsave : Only Effect.isUnlisted (save e) :=
    only_save (fun _ => rfl) rfl (fun _ => rfl) rfl rfl
  have hhear (name : String) (l : ChangeListener) : Only Effect.isUnlisted (l.hear name) := by
    cases l with
    | cache => exact (GrantCache.only_succeeded rfl rfl fun _ => rfl).bind fun _ => only_pure ()
    | named listener l =>
      refine (only_perform rfl).bind fun _ => ?_
      split <;> trivial
  exact hsave.bind fun f => (only_forM fun l => hhear f.name l).bind fun _ => only_pure f

theorem detached_definition (d : Definition) : Only Effect.isDetached d.entitlement :=
  only_definition (fun _ => rfl) rfl rfl d

def counted : Option Counters.Series → Program Unit
  | some series => perform (.count series)
  | none => return

def concluding {α : Type} (c : Entitlements) (series : Option Counters.Series)
    (body : Program (Except Error α × Entitlements)) : Program (Except Error α × Entitlements) := do
  match ← body with
  | (.error e, c') => return (.error e, c')
  | (.ok a, c') =>
    let x ← (do
      c.publish
      counted series : Program Unit).attempt
    return (x.map fun _ => a, c')

theorem run_concluding {α : Type} (c : Entitlements) (series : Option Counters.Series)
    (body : Program (Except Error α × Entitlements)) (w : World) :
    (concluding c series body).run w =
      match body.run w with
      | (.error e, v) => (.error e, v)
      | (.ok (.error e, c'), v) => (.ok (.error e, c'), v)
      | (.ok (.ok a, c'), v) =>
        match c.publish.run v with
        | (.ok (), u) => (.ok (.ok a, c'), u.counted series)
        | (.error e, u) => (.ok (.error e, c'), u) := by
  rw [concluding, run_bind]
  rcases body.run w with ⟨_ | ⟨_ | a, c'⟩, v⟩
  · rfl
  · rfl
  · dsimp only
    rw [run_bind, run_attempt, run_bind]
    rcases c.publish.run v with ⟨_ | _, u⟩
    · rfl
    · cases series <;> rfl

theorem attempt_bind_eq {α β : Type} (p : Program α) (f : α → Program β) :
    (p >>= f).attempt = p.attempt >>= fun x =>
      match x with
      | .ok a => (f a).attempt
      | .error e => pure (.error e) := by
  induction p with
  | done a => rfl
  | fail e => rfl
  | ask e next ih => exact congrArg (Program.ask e) (funext ih)

theorem lift_bind_eq {σ α β : Type} (q : Program α) (f : α → Stateful σ β) (s : σ) :
    ((liftM q : Stateful σ α) >>= f) s = q.attempt >>= fun x =>
      match x with
      | .ok a => f a s
      | .error e => pure (.error e, s) := by
  change ((q.attempt >>= fun x => pure (x, s)) >>= _) = _
  rw [bind_assoc]
  apply bind_congr
  intro x
  cases x <;> rfl

def recording (c : Entitlements) (d : Definition) :
    Program (Except Error Entitlement × Entitlements) := do
  let x ← (d.entitlement >>= entering c).attempt
  return (x, c)

theorem register_eq {c : Entitlements} (hc : c.backlog.phase = .flushed) (d : Definition) :
    register d c = concluding c (some (Counters.registration "immediate")) (recording c d) := by
  have hflushed : c.backlog.flushed = true := by simp [Backlog.flushed, hc]
  have hregister := lift_bind_eq d.entitlement (fun e => do
    let c ← get
    let immediate := c.backlog.flushed
    let stored ← onBacklog (Backlog.submit c.store (.mk ⟨e, immediate⟩ .none))
    count (if immediate then "immediate" else "queued")
    return stored.getD e) c
  refine hregister.trans ?_
  rw [concluding, recording, attempt_bind_eq, bind_assoc, bind_assoc]
  apply bind_congr
  intro x
  cases x with
  | error e => rfl
  | ok e =>
    change (onBacklog (Backlog.submit c.store (.mk ⟨e, c.backlog.flushed⟩ .none)) c >>= _) = _
    -- the job itself publishes the listing, so the count that follows it waits for that
    rw [hflushed, submit_flushed hc, store_eq, attempt_bind_eq, bind_assoc, bind_assoc]
    apply bind_congr
    intro x
    cases x with
    | error e => rfl
    | ok f =>
      change (c.publish >>= fun _ => pure f).attempt >>= _ =
        (c.publish >>= fun _ => count "immediate").attempt >>= _
      rw [attempt_bind_eq, attempt_bind_eq, bind_assoc, bind_assoc]
      apply bind_congr
      intro x
      cases x <;> rfl

/-- Nothing that waits publishes the listing, and nothing that is submitted meanwhile does. -/
def IsSilent (c : Entitlements) : Prop :=
  ∀ job ∈ c.backlog.queue, job.All fun r => r.publish = false

def flushing (c : Entitlements) (run : Registration → Program Entitlement) :
    Program (Except Error Nat × Entitlements) := do
  let (x, i) ← Backlog.flush run (pure ()) c.backlog
  return (x, { c with backlog := i })

theorem ready_eq {c : Entitlements} (hc : c.backlog.phase = .pending) :
    ready c = concluding c none (flushing c c.store) := by
  change (Backlog.flush c.store c.publish c.backlog >>= _) = _
  rw [Backlog.flush, Backlog.flushWith_eq c.store c.publish hc, concluding, flushing,
    Backlog.flush]
  simp only [bind_assoc]
  refine bind_congr fun x => ?_
  obtain ⟨_ | n, s, i⟩ := x
  · rfl
  · change (c.publish.attempt >>= _) >>= _ = (c.publish >>= fun _ => pure ()).attempt >>= _
    rw [bind_assoc, attempt_bind_eq, bind_assoc]
    refine bind_congr fun x => ?_
    cases x <;> rfl

theorem flushing_eq {c : Entitlements} (hsilent : c.IsSilent) :
    flushing c c.store = flushing c fun r => entering c r.entitlement := by
  have hqueue : ∀ entry ∈ c.backlog.queue.map (·, (none : Option Nat)),
      entry.1.All fun r => r.publish = false := by
    intro entry hentry
    obtain ⟨job, hjob, rfl⟩ := List.mem_map.mp hentry
    exact hsilent job hjob
  have hstore (r : Registration) (hr : r.publish = false) :
      c.store r = entering c r.entitlement := by
    rw [store_eq, hr]
    simp
  rw [flushing, flushing, Backlog.flush, Backlog.flush, Backlog.flushWith, Backlog.flushWith,
    Queue.run_congr hstore _ hqueue]

/-! A call with a listing and without one. -/

section

variable {α : Type}

def EndsAlike (c : Entitlements) (p : Stateful Entitlements α) (w : World) : Prop :=
  (Program.run (p c) w).1.map (fun (x, c') => (x, c'.unlisted)) = (Program.run (p c.unlisted) w).1 ∧
    (Program.run (p c) w).2.unlisted = (Program.run (p c.unlisted) w).2.unlisted

/-- How a call compares with the same call of a catalog without a listing. `series` is counted at
its end. -/
structure Compares (c : Entitlements) (p : Stateful Entitlements α)
    (series : Option Counters.Series) (w : World) : Prop where
  /-- Failures that are not passed on make no difference. -/
  alike : (∀ e, w.flaw? = some e → e.isPassed = false) → EndsAlike c p w
  /-- A call that fails without a listing does not come to it. -/
  failing : (∀ a c' v, Program.run (p c.unlisted) w ≠ (.ok (.ok a, c'), v)) → EndsAlike c p w
  /-- A failure that is passed on is the outcome of the call, and nothing is counted. -/
  cut : ∀ e, w.flaw? = some e → e.isPassed = true → ∀ a c' v,
    Program.run (p c.unlisted) w = (.ok (.ok a, c'), v) →
      ∃ (b : Entitlements) (u u' : World), Program.run (p c) w = (.ok (.error e, b), u') ∧
        b.unlisted = c' ∧ v = u.counted series ∧ u'.unlisted = u.unlisted
  /-- Whatever fails, the file stays as it is. -/
  kept : w.flaw?.isSome ∨ w.disk.fault.isSome →
    (Program.run (p c) w).2.disk.content = w.disk.content

variable {c : Entitlements} {p : Stateful Entitlements α} {series : Option Counters.Series}
  {w : World}

theorem compares_of_failing (h : EndsAlike c p w)
    (hfails : ∀ a c' v, Program.run (p c.unlisted) w ≠ (.ok (.ok a, c'), v))
    (hdisk : (Program.run (p c) w).2.disk = w.disk) : Compares c p series w where
  alike _ := h
  failing _ := h
  cut _ _ _ a c' v hrun := absurd hrun (hfails a c' v)
  kept _ := by rw [hdisk]

theorem content_publish_of_fault {d : Disk} (h : d.fault.isSome) (text : String) :
    (d.publish text).2.content = d.content := by
  rw [Disk.publish]
  cases hfault : d.fault with
  | none => rw [hfault] at h; cases h
  | some step => cases step <;> rfl

theorem compares_of_publishes {a : α} {b : Entitlements} {x : Except Error Unit} {u v : World}
    (hlisted : Program.run (p c) w =
      match x with
      | .ok () => (.ok (.ok a, b), u.counted series)
      | .error e => (.ok (.error e, b), u))
    (hpublishes : v.Publishes x u.disk) (hsame : u.unlisted = v.unlisted)
    (hflaw : v.flaw? = w.flaw?) (hdisk : v.disk = w.disk)
    (hunlisted : Program.run (p c.unlisted) w = (.ok (.ok a, b.unlisted), v.counted series)) :
    Compares c p series w := by
  have hreaches : ¬ ∀ a c' v, Program.run (p c.unlisted) w ≠ (.ok (.ok a, c'), v) :=
    fun h => h _ _ _ hunlisted
  have halike (hx : x = .ok ()) : EndsAlike c p w := by
    subst hx
    constructor
    · rw [hlisted, hunlisted]
      rfl
    · rw [hlisted, hunlisted, World.unlisted_counted, World.unlisted_counted, hsame]
  generalize hfile : u.disk = d at hpublishes
  -- the read fails and that is passed on, or it comes to the file, or it fails otherwise
  cases hpublishes with
  | passed h he =>
    rw [hflaw] at h
    have hcut : (Program.run (p c) w).2.disk = w.disk := by rw [hlisted, hfile, hdisk]
    refine ⟨fun hpassed => ?_, fun hfails => absurd hfails hreaches, ?_, fun _ => by rw [hcut]⟩
    · rw [hpassed _ h] at he
      cases he
    · intro e' h' _ a' c' v' hrun
      obtain rfl : _ = e' := Option.some.inj (h.symm.trans h')
      obtain ⟨hvalue, rfl⟩ := Prod.mk.inj (hunlisted.symm.trans hrun)
      obtain ⟨-, hcatalog⟩ := Prod.mk.inj (Except.ok.inj hvalue)
      exact ⟨b, v, u, hlisted, hcatalog, rfl, hsame⟩
  | published h =>
    rw [hflaw] at h
    refine ⟨fun _ => halike rfl, fun _ => halike rfl, fun e h' => ?_, fun hfault => ?_⟩
    · rw [h] at h'
      cases h'
    · rw [hlisted]
      change (u.counted series).disk.content = _
      rw [World.disk_counted, hfile, hdisk]
      apply content_publish_of_fault
      simpa [h] using hfault
  | skipped h he =>
    rw [hflaw] at h
    refine ⟨fun _ => halike rfl, fun _ => halike rfl, fun e' h' he' => ?_, fun _ => ?_⟩
    · obtain rfl : _ = e' := Option.some.inj (h.symm.trans h')
      rw [he] at he'
      cases he'
    · rw [hlisted]
      change (u.counted series).disk.content = _
      rw [World.disk_counted, hfile, hdisk]

theorem compares_of_concluding {path : String} (hlisting : c.listing = some path)
    {body : Program (Except Error α × Entitlements)} (hbody : Only Effect.isUnlisted body)
    (hlisted : p c = concluding c series body)
    (hunlisted : p c.unlisted = concluding c.unlisted series (do
      let (x, c') ← body
      return (x, c'.unlisted))) (w : World) :
    Compares c p series w := by
  have hkeeps := hbody.keeps (ι := World.answer)
    (I := fun v => v.flaw? = w.flaw? ∧ v.disk = w.disk) fun e he v hv =>
      ⟨(World.flaw?_unlisted he).1.trans hv.1, (World.flaw?_unlisted he).2.trans hv.2⟩
  obtain ⟨-, hflaw, hdisk⟩ := hkeeps.run ⟨rfl, rfl⟩
  rw [runBy_answer] at hflaw hdisk
  have hrun := run_concluding c series body w
  have hbare := run_concluding c.unlisted series (body >>= fun (x, c') => pure (x, c'.unlisted)) w
  rw [← hlisted] at hrun
  rw [← hunlisted, run_bind] at hbare
  -- the body is cut short, or it fails, or the listing follows it
  rcases hend : body.run w with ⟨e | ⟨e | a, b⟩, v⟩
  · rw [hend] at hrun hbare hdisk
    refine compares_of_failing ⟨?_, ?_⟩ (fun a c' v => ?_) (by rw [hrun]; exact hdisk)
    · rw [hrun, hbare]
      rfl
    · rw [hrun, hbare]
    · rw [hbare]
      simp
  · rw [hend] at hrun hbare hdisk
    refine compares_of_failing ⟨?_, ?_⟩ (fun a c' v => ?_) (by rw [hrun]; exact hdisk)
    · rw [hrun, hbare]
      rfl
    · rw [hrun, hbare]
      rfl
    · rw [hbare]
      intro h
      cases h
  · rw [hend] at hrun hbare hdisk hflaw
    refine compares_of_publishes ?_ (publishes c hlisting v) (unlisted_publish c v) hflaw hdisk
      hbare
    rw [hrun]
    dsimp only
    rcases c.publish.run v with ⟨_ | _, u⟩ <;> rfl

end

theorem unlisted_recording (c : Entitlements) (d : Definition) :
    Only Effect.isUnlisted (recording c d) := by
  refine Only.bind (Only.attempt ?_) fun x => only_pure (x, c)
  have hdefinition := (detached_definition d).mono fun _ => Effect.isUnlisted_of_isDetached
  exact hdefinition.bind fun e => unlisted_entering c e

theorem unlisted_flushing (c : Entitlements) :
    Only Effect.isUnlisted (flushing c fun r => entering c r.entitlement) := by
  have hrun (r : Registration) := unlisted_entering c r.entitlement
  refine Only.bind (only_flush (fun _ => rfl) hrun (fun _ => rfl) (only_pure ()) c.backlog) ?_
  exact fun _ => only_pure _

theorem compares_register {c : Entitlements} {path : String} (hlisting : c.listing = some path)
    (hc : c.backlog.phase = .flushed) (d : Definition) (w : World) :
    Compares c (register d) (some (Counters.registration "immediate")) w := by
  refine compares_of_concluding hlisting (unlisted_recording c d) (register_eq hc d) ?_ w
  rw [register_eq (c := c.unlisted) hc d, recording, recording, bind_assoc]
  rfl

theorem compares_ready {c : Entitlements} {path : String} (hlisting : c.listing = some path)
    (hc : c.backlog.phase = .pending) (hsilent : c.IsSilent) (w : World) :
    Compares c ready none w := by
  have hready := ready_eq hc
  have hbare := ready_eq (c := c.unlisted) hc
  rw [flushing_eq hsilent] at hready
  rw [flushing_eq (c := c.unlisted) hsilent, flushing] at hbare
  refine compares_of_concluding hlisting (unlisted_flushing c) hready ?_ w
  rw [hbare, flushing, bind_assoc]
  rfl

/-! What calls leave of a catalog. -/

open Stateful

def Queues (c c' : Entitlements) : Prop :=
  c.backlog.phase = .pending ∧ ∃ e, c' = queued c [e]

theorem leads_counted {P : Entitlements → Prop} (mode : String) (e : Entitlement) :
    Leads P (do
      count mode
      return e : Stateful Entitlements Entitlement) fun _ => P :=
  Leads.bind (leads_lift fun _ _ h => h) (fun _ => leads_pure fun _ h => h) fun _ _ h => h

theorem leads_declare (c : Entitlements) (d : Definition) :
    Leads (· = c) (declare d) fun _ c' => c' = c ∨ Queues c c' := by
  have henqueue (e : Entitlement) : Leads (· = c)
      (onBacklog (Backlog.enqueue (.mk ⟨e, false⟩ .none))) fun _ c' => c' = c ∨ Queues c c' := by
    rintro c' rfl
    cases hphase : c'.backlog.phase with
    | pending =>
      rw [enqueue_pending hphase]
      exact .inr ⟨hphase, e, rfl⟩
    | flushed =>
      obtain ⟨⟨phase, queue⟩, listeners, listing⟩ := c'
      obtain rfl : phase = .flushed := hphase
      exact .inl rfl
  refine Leads.bind (Q := fun _ c' => c' = c) (leads_lift fun _ _ h => h) (fun e => ?_)
    fun _ _ h => .inl h
  exact Leads.bind (henqueue e) (fun _ => leads_counted "queued" e) fun _ _ h => h

theorem leads_register (c : Entitlements) (d : Definition) :
    Leads (· = c) (register d) fun _ c' => c' = c ∨ Queues c c' := by
  have hsubmit (e : Entitlement) : Leads (· = c)
      (onBacklog (Backlog.submit c.store (.mk ⟨e, c.backlog.flushed⟩ .none)))
      fun _ c' => c' = c ∨ Queues c c' := by
    rintro c' rfl
    cases hphase : c'.backlog.phase with
    | pending =>
      have hflushed : c'.backlog.flushed = false := by simp [Backlog.flushed, hphase]
      rw [hflushed, submit_pending hphase]
      exact .inr ⟨hphase, e, rfl⟩
    | flushed =>
      rw [submit_flushed hphase]
      exact (returns_true _).bind fun _ _ => .inl rfl
  refine Leads.bind (Q := fun _ c' => c' = c) (leads_lift fun _ _ h => h) (fun e => ?_)
    fun _ _ h => .inl h
  rintro c' rfl
  exact Leads.bind (hsubmit e) (fun _ => leads_counted _ _) (fun _ _ h => h) c' rfl

theorem leads_give (c : Entitlements) (way : Way) (d : Definition) :
    Leads (· = c) (way.give d) fun _ c' => c' = c ∨ Queues c c' := by
  cases way with
  | declare => exact leads_declare c d
  | register => exact leads_register c d

theorem leads_ready (c : Entitlements) :
    Leads (· = c) ready fun _ c' =>
      c.backlog.phase = .flushed ∧ c' = c ∨ c' = { c with backlog := ⟨.flushed, []⟩ } := by
  have hflush : (Backlog.flushWith c.store c.publish c.backlog).Returns fun x =>
      c.backlog.phase = .flushed ∧ x.2.2 = c.backlog ∨ x.2.2 = ⟨.flushed, []⟩ := by
    unfold Backlog.flushWith
    split
    · rename_i hflushed
      exact .inl ⟨of_decide_eq_true hflushed, rfl⟩
    · refine (returns_true _).bind fun r _ => (returns_true _).bind fun _ _ => ?_
      cases r.outcome with
      | error e => exact .inr rfl
      | ok _ =>
        refine (returns_true _).bind fun _ _ => (returns_true _).bind fun x _ => ?_
        cases x <;> exact .inr rfl
  have hreturns : (Backlog.flush c.store c.publish c.backlog).Returns fun x =>
      c.backlog.phase = .flushed ∧ x.2 = c.backlog ∨ x.2 = ⟨.flushed, []⟩ :=
    hflush.bind fun _ hx => hx
  rintro c' rfl
  change (Backlog.flush c'.store c'.publish c'.backlog >>= _).Returns _
  refine hreturns.bind ?_
  rintro ⟨x, i⟩ (⟨hphase, hi⟩ | hi)
  · obtain rfl : i = c'.backlog := hi
    exact .inl ⟨hphase, rfl⟩
  · obtain rfl : i = ⟨.flushed, []⟩ := hi
    exact .inr rfl

theorem during_of_leads {α : Type} {c : Entitlements} {p : Stateful Entitlements α}
    {Q : Entitlements → Prop} (h : Leads (· = c) p fun _ => Q) (hc : Q c) (t : Instant)
    (w : World) : Q (during t p (c, w)).1 := by
  have hreturns := h c rfl
  unfold during
  rw [← runBy_answer]
  rcases hrun : (p c).runBy World.answer { w with clock := t } with ⟨e | ⟨x, c'⟩, v⟩
  · exact hc
  · exact hreturns.runBy (congrArg Prod.fst hrun)

def meanwhile (c : Entitlements) (n : Nat) (moves : Moves Registration) : Entitlements :=
  { c with backlog.queue := c.backlog.queue.modify n fun job => .mk job.task moves }

/-- What calls can make of a new catalog, whatever surrounds it. Registrations that are submitted
during a flush do not publish the listing. -/
inductive IsReached : Entitlements → Prop where
  | start {c : Entitlements} (h : c.backlog = {}) : IsReached c
  | given {c : Entitlements} (h : IsReached c) (call : Way × Submission) (w : World) :
    IsReached (given (c, w) call).1
  | meanwhile {c : Entitlements} (h : IsReached c) (n : Nat) {moves : Moves Registration}
    (hmoves : moves.All fun r => r.publish = false) : IsReached (c.meanwhile n moves)
  | ready {c : Entitlements} (h : IsReached c) (t : Instant) (w : World) :
    IsReached (during t ready (c, w)).1
  | listen {c : Entitlements} (h : IsReached c) (l : ChangeListener) (t : Instant) (w : World) :
    IsReached (during t (listen l) (c, w)).1

theorem isSilent_queued {c : Entitlements} (h : c.IsSilent) (e : Entitlement) :
    (queued c [e]).IsSilent :=
  List.forall_mem_append.mpr ⟨h, List.forall_mem_singleton.mpr ⟨rfl, trivial⟩⟩

theorem isSilent_meanwhile {c : Entitlements} (h : c.IsSilent) (n : Nat)
    {moves : Moves Registration} (hmoves : moves.All fun r => r.publish = false) :
    (c.meanwhile n moves).IsSilent := by
  have htask : ∀ job : Job Registration, (job.All fun r => r.publish = false) →
      (Job.mk job.task moves).All fun r => r.publish = false := by
    rintro ⟨task, _⟩ ⟨htask, -⟩
    exact ⟨htask, hmoves⟩
  intro job hjob
  obtain ⟨k, hk⟩ := List.mem_iff_getElem?.mp hjob
  rw [meanwhile, List.getElem?_modify] at hk
  obtain ⟨old, hold, rfl⟩ := Option.map_eq_some_iff.mp hk
  have hsilent := h old (List.mem_of_getElem? hold)
  split
  · exact htask old hsilent
  · exact hsilent

theorem IsReached.isSilent {c : Entitlements} (h : c.IsReached) : c.IsSilent := by
  induction h with
  | start h =>
    intro job hjob
    rw [h] at hjob
    cases hjob
  | @given c _ call w ih =>
    obtain ⟨way, d⟩ := call
    refine during_of_leads ((leads_give c way d.definition).mono fun _ c' hc' => ?_) ih d.time w
    rcases hc' with rfl | ⟨-, e, rfl⟩
    · exact ih
    · exact isSilent_queued ih e
  | meanwhile _ n hmoves ih => exact isSilent_meanwhile ih n hmoves
  | @ready c _ t w ih =>
    refine during_of_leads ((leads_ready c).mono fun _ c' hc' => ?_) ih t w
    rcases hc' with ⟨-, rfl⟩ | rfl
    · exact ih
    · exact fun _ hjob => nomatch hjob
  | listen _ l t w ih => exact ih

/-- The listing stands beside the calls, but for an error that is passed on. -/
theorem publishes_aside {c : Entitlements} (h : c.IsReached) {path : String}
    (hlisting : c.listing = some path) (w : World) :
    (c.backlog.phase = .flushed → ∀ d,
      Compares c (register d) (some (Counters.registration "immediate")) w) ∧
    (c.backlog.phase = .pending → Compares c ready none w) :=
  ⟨fun hc d => compares_register hlisting hc d w, fun hc => compares_ready hlisting hc h.isSilent w⟩

/-! A catalog that has become ready, and a store whose next read for the listing fails. -/

def launched : Entitlements :=
  { backlog := ⟨.flushed, []⟩, listing := some "types.py" }

def flawed : World :=
  let w := World.initial .error (some { service := "catalog" })
    { path := "types.py", content := some Listing.header }
  let faults := Faults.none.plan Method.entitlements (.missing "gone") (some 1)
  { w with ledger := { w.ledger with faults } }

theorem isReached_launched : launched.IsReached := by
  let c : Entitlements := { listing := some "types.py" }
  let w := World.initial .error none { path := "types.py" }
  have hw : Stocked [] 0 w := ⟨rfl, rfl, rfl⟩
  have hpending : c.backlog = pending [] := rfl
  have hcalm : ∀ l ∈ c.listeners, l.IsCalm := fun _ hl => absurd hl List.not_mem_nil
  obtain ⟨hopened, -⟩ := during_of_reaches (reaches_ready hcalm hpending (.ofSeconds 1)) hw
  have hreached := IsReached.ready (.start (c := c) rfl) (.ofSeconds 1) w
  rw [hopened] at hreached
  exact hreached

theorem publishes_aside_flawed :
    launched.IsReached ∧ launched.listing = some "types.py" ∧ launched.backlog.phase = .flushed ∧
      ∃ (e : Entitlement) (b : Entitlements) (u u' : World),
        Program.run (register (exports "first") launched) flawed =
          (.ok (.error (.missing "gone"), b), u') ∧
        Program.run (register (exports "first") launched.unlisted) flawed =
          (.ok (.ok e, b.unlisted), u.counted (some (Counters.registration "immediate"))) ∧
        u'.unlisted = u.unlisted := by
  have hlisting : launched.listing = some "types.py" := rfl
  obtain ⟨himmediate, -⟩ := publishes_aside isReached_launched hlisting flawed
  obtain ⟨e, c', v, hrun⟩ : ∃ e c' v,
      Program.run (register (exports "first") launched.unlisted) flawed = (.ok (.ok e, c'), v) :=
    ⟨_, _, _, rfl⟩
  obtain ⟨b, u, u', hcut, rfl, rfl, hsame⟩ :=
    (himmediate rfl (exports "first")).cut (.missing "gone") rfl rfl e c' v hrun
  exact ⟨isReached_launched, hlisting, rfl, e, b, u, u', hcut, hrun, hsame⟩

end Entitlements

end AccessControl
