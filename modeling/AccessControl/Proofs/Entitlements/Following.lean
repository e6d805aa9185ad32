import AccessControl.Proofs.Entitlements.Publishing

/-!
The listing while neither the store nor the disk fails. No call touches the file before the store is
ready; from then on it is the listing of the whole table after every call.
-/

namespace AccessControl

open Program Store

namespace World

variable {w : World}

structure IsFaultless (w : World) : Prop where
  faults : w.ledger.faults = .none
  disk : w.disk.fault = none

/-- The file is the listing of the table, and no draft is left beside it. -/
structure IsListed (w : World) : Prop where
  content : w.disk.content = some (Entitlements.Listing.render w.ledger.tables.entitlements.rows)
  draft : w.disk.draft = none

theorem IsFaultless.answer (h : w.IsFaultless) (e : Effect) : (w.answer e).2.IsFaultless := by
  cases e with
  | store c =>
    have hfaults : (w.ledger.call c).2.faults = .none := by
      rw [Ledger.faults_call, h.faults, Faults.take_none]
    exact ⟨hfaults, h.disk⟩
  | publish text =>
    have hfault : (w.disk.publish text).2.fault = none := by
      simp [Disk.publish, h.disk]
    exact ⟨h.faults, hfault⟩
  | _ => exact ⟨h.faults, h.disk⟩

theorem IsFaultless.run {α : Type} {p : Program α} {x : Except Error α} {v : World}
    (h : w.IsFaultless) (hrun : p.run w = (x, v)) : v.IsFaultless := by
  induction p generalizing w with
  | done | fail =>
    obtain ⟨-, rfl⟩ := Prod.mk.inj hrun
    exact h
  | ask e next ih => exact ih _ (h.answer e) hrun

theorem run_detached {α : Type} {p : Program α} (hp : Only Effect.isDetached p) (w : World) :
    (p.run w).2.ledger = w.ledger ∧ (p.run w).2.disk = w.disk := by
  have hkeeps := hp.keeps (ι := World.answer)
    (I := fun v => v.ledger = w.ledger ∧ v.disk = w.disk) fun e he v hv => by
      cases e <;> first | exact hv | cases he
  rw [← runBy_answer]
  exact (hkeeps.run ⟨rfl, rfl⟩).2

theorem IsListed.of_eq (h : w.IsListed) {v : World} (hledger : v.ledger = w.ledger)
    (hdisk : v.disk = w.disk) : v.IsListed := by
  constructor
  · rw [hledger, hdisk]
    exact h.content
  · rw [hdisk]
    exact h.draft

end World

namespace Entitlements

/-! The end of a call. -/

section

variable {α : Type} {c : Entitlements} {path : String} (hc : c.listing = some path)
  {series : Option Counters.Series} {body : Program (Except Error α × Entitlements)} {w : World}
  (hw : w.IsFaultless)

include hc hw

theorem run_publish_of_isFaultless :
    (c.publish.run w).1 = .ok () ∧ (c.publish.run w).2.IsListed := by
  have hsame := unlisted_publish c w
  have hpublishes := publishes c hc w
  have hflaw : w.flaw? = none := by
    rw [World.flaw?, hw.faults]
    rfl
  revert hsame hpublishes
  rcases c.publish.run w with ⟨x, u⟩
  dsimp only
  intro hsame hpublishes
  have htables : u.ledger.tables = w.ledger.tables := congrArg (·.ledger.tables) hsame
  generalize hfile : u.disk = d at hpublishes
  cases hpublishes with
  | published =>
    refine ⟨rfl, ?_, ?_⟩
    · rw [hfile, htables]
      simp [Disk.publish, hw.disk]
    · rw [hfile]
      simp [Disk.publish, hw.disk]
  | skipped h | passed h =>
    rw [hflaw] at h
    cases h

theorem run_concluding_of_isFaultless {a : α} {b : Entitlements} {u : World}
    (hbody : body.run w = (.ok (.ok a, b), u)) :
    ∃ v, (concluding c series body).run w = (.ok (.ok a, b), v) ∧ v.IsListed := by
  obtain ⟨hok, hlisted⟩ := run_publish_of_isFaultless hc (hw.run hbody)
  rw [run_concluding, hbody]
  dsimp only at hok hlisted ⊢
  revert hok hlisted
  rcases c.publish.run u with ⟨x, v⟩
  rintro rfl hlisted
  refine ⟨v.counted series, rfl, ?_⟩
  cases series with
  | none => exact hlisted
  | some series => exact hlisted.of_eq rfl rfl

theorem isListed_of_concluding {a : α} {b : Entitlements} {v : World}
    (h : (concluding c series body).run w = (.ok (.ok a, b), v)) : v.IsListed := by
  rcases hbody : body.run w with ⟨e | ⟨e | a', b'⟩, u⟩
  · rw [run_concluding, hbody] at h
    cases h
  · rw [run_concluding, hbody] at h
    cases h
  · obtain ⟨t, hrun, hlisted⟩ := run_concluding_of_isFaultless hc hw hbody
    obtain ⟨-, rfl⟩ := Prod.mk.inj (hrun.symm.trans h)
    exact hlisted

end

/-! The calls. -/

open Stateful (Leads)

theorem detached_counted (mode : String) (e : Entitlement) (c : Entitlements) :
    Only Effect.isDetached ((do
      count mode
      return e : Stateful Entitlements Entitlement) c) :=
  ⟨rfl, fun _ => trivial⟩

theorem detached_declare (c : Entitlements) (d : Definition) :
    Only Effect.isDetached (declare d c) := by
  rw [declare, lift_bind_eq]
  refine (detached_definition d).attempt.bind fun x => ?_
  cases x with
  | error e => exact only_pure _
  | ok e =>
    change Only _ (onBacklog (Backlog.enqueue (.mk ⟨e, false⟩ .none)) c >>= _)
    cases hphase : c.backlog.phase with
    | pending =>
      rw [enqueue_pending hphase]
      exact detached_counted "queued" e _
    | flushed =>
      obtain ⟨⟨phase, queue⟩, listeners, listing⟩ := c
      obtain rfl : phase = .flushed := hphase
      trivial

theorem detached_register {c : Entitlements} (hc : c.backlog.phase = .pending) (d : Definition) :
    Only Effect.isDetached (register d c) := by
  have hflushed : c.backlog.flushed = false := by simp [Backlog.flushed, hc]
  rw [register, lift_bind_eq]
  refine (detached_definition d).attempt.bind fun x => ?_
  cases x with
  | error e => exact only_pure _
  | ok e =>
    change Only _ (onBacklog (Backlog.submit c.store (.mk ⟨e, c.backlog.flushed⟩ .none)) c >>= _)
    rw [hflushed, submit_pending hc]
    exact detached_counted "queued" e _

theorem exists_run_entering {c : Entitlements} (hcalm : ∀ l ∈ c.listeners, l.IsCalm)
    (e : Entitlement) {w : World} (hw : w.IsFaultless) :
    ∃ f v, (entering c e).run w = (.ok f, v) := by
  have hentering : Reaches (Stocked w.ledger.tables.entitlements.rows w.minted) (entering c e)
      fun _ _ => True := by
    apply (reaches_save e).bind
    intro f
    exact (reaches_announce hcalm f.name).bind fun _ => attains_pure fun _ _ => trivial
  have hvalue := hentering w ⟨hw.faults, rfl, rfl⟩
  rw [runBy_answer] at hvalue
  rcases hrun : (entering c e).run w with ⟨x | f, v⟩
  · rw [hrun] at hvalue
    exact hvalue.elim
  · exact ⟨f, v, rfl⟩

theorem untouched_of_recording {c c' : Entitlements} (hcalm : ∀ l ∈ c.listeners, l.IsCalm)
    {d : Definition} {e : Error} {v w : World} (hw : w.IsFaultless)
    (h : (recording c d).run w = (.ok (.error e, c'), v)) :
    v.ledger = w.ledger ∧ v.disk = w.disk := by
  have hdefinition := World.run_detached (detached_definition d) w
  rw [recording, run_bind, run_attempt, run_bind] at h
  rcases hrow : d.entitlement.run w with ⟨x | row, u⟩
  · rw [hrow] at hdefinition h
    obtain ⟨-, rfl⟩ := Prod.mk.inj h
    exact hdefinition
  · -- a row is stored and told without failure, so this registration has not failed
    obtain ⟨f, t, hentered⟩ := exists_run_entering hcalm row (hw.run hrow)
    rw [hrow] at h
    dsimp only at h
    rw [hentered] at h
    cases h

/-- How the listing stands between two calls. `disk` is what there was at first. -/
structure Follows (disk : Disk) (c : Entitlements) (w : World) : Prop where
  faultless : w.IsFaultless
  calm : ∀ l ∈ c.listeners, l.IsCalm
  listing : ∃ path, c.listing = some path
  before : c.backlog.phase = .pending → w.disk = disk
  since : c.backlog.phase = .flushed → w.IsListed

section Follows

variable {disk : Disk} {c c' : Entitlements} {v w : World}

theorem Follows.at (h : Follows disk c w) (t : Instant) : Follows disk c { w with clock := t } where
  faultless := ⟨h.faultless.faults, h.faultless.disk⟩
  calm := h.calm
  listing := h.listing
  before := h.before
  since hc := (h.since hc).of_eq rfl rfl

theorem Follows.of_untouched (h : Follows disk c w) (hc : c' = c ∨ Queues c c')
    (hledger : v.ledger = w.ledger) (hdisk : v.disk = w.disk) : Follows disk c' v := by
  have hfaultless : v.IsFaultless := ⟨hledger ▸ h.faultless.faults, hdisk ▸ h.faultless.disk⟩
  have hbefore : c.backlog.phase = .pending → v.disk = disk := fun hc => hdisk.trans (h.before hc)
  rcases hc with rfl | ⟨hphase, e, rfl⟩
  · exact ⟨hfaultless, h.calm, h.listing, hbefore, fun hc => (h.since hc).of_eq hledger hdisk⟩
  · refine ⟨hfaultless, h.calm, h.listing, hbefore, fun hflushed => ?_⟩
    rw [show c.backlog.phase = .flushed from hflushed] at hphase
    cases hphase

theorem Follows.during_of_detached {α : Type} (h : Follows disk c w) {p : Stateful Entitlements α}
    (hp : Only Effect.isDetached (p c)) (hleads : Leads (· = c) p fun _ c' => c' = c ∨ Queues c c')
    (t : Instant) : Follows disk (during t p (c, w)).1 (during t p (c, w)).2 := by
  have hreturns := hleads c rfl
  obtain ⟨hledger, hdisk⟩ := World.run_detached hp { w with clock := t }
  unfold during
  rcases hrun : Program.run (p c) { w with clock := t } with ⟨e | ⟨x, c'⟩, v⟩
  · rw [hrun] at hledger hdisk
    exact (h.at t).of_untouched (.inl rfl) hledger hdisk
  · rw [hrun] at hledger hdisk
    rw [← runBy_answer] at hrun
    have hc' : c' = c ∨ Queues c c' := hreturns.runBy (congrArg Prod.fst hrun)
    exact (h.at t).of_untouched hc' hledger hdisk

theorem Follows.run_register (h : Follows disk c w) (hc : c.backlog.phase = .flushed)
    (d : Definition) :
    ∃ x v, Program.run (register d c) w = (.ok (x, c), v) ∧ Follows disk c v := by
  obtain ⟨path, hlisting⟩ := h.listing
  rw [register_eq hc]
  obtain ⟨x, u, hrecording⟩ : ∃ x u, (recording c d).run w = (.ok (x, c), u) := by
    rw [recording, run_bind, run_attempt]
    exact ⟨_, _, rfl⟩
  cases x with
  | error e =>
    obtain ⟨hledger, hdisk⟩ := untouched_of_recording h.calm h.faultless hrecording
    refine ⟨.error e, u, ?_, h.of_untouched (.inl rfl) hledger hdisk⟩
    rw [run_concluding, hrecording]
  | ok f =>
    obtain ⟨v, hrun, hlisted⟩ := run_concluding_of_isFaultless hlisting h.faultless hrecording
    have hfaultless := h.faultless.run hrun
    refine ⟨.ok f, v, hrun, hfaultless, h.calm, h.listing, fun hpending => ?_, fun _ => hlisted⟩
    rw [hc] at hpending
    cases hpending

theorem Follows.given (h : Follows disk c w) (call : Way × Submission) :
    Follows disk (given (c, w) call).1 (given (c, w) call).2 := by
  obtain ⟨way, d⟩ := call
  cases way with
  | declare =>
    exact h.during_of_detached (detached_declare c _) (leads_declare c d.definition) d.time
  | register =>
    cases hphase : c.backlog.phase with
    | pending =>
      have hregister := detached_register hphase d.definition
      exact h.during_of_detached hregister (leads_register c d.definition) d.time
    | flushed =>
      obtain ⟨x, v, hrun, hv⟩ := (h.at d.time).run_register hphase d.definition
      change Follows disk (during d.time (register d.definition) (c, w)).1
        (during d.time (register d.definition) (c, w)).2
      unfold during
      rw [hrun]
      exact hv

/-- The flush ends with the listing, whatever is asked for while it goes on. -/
theorem Follows.ready (h : Follows disk c w) {n : Nat}
    (hready : Program.run (Entitlements.ready c) w = (.ok (.ok n, c'), v)) : Follows disk c' v := by
  obtain ⟨path, hlisting⟩ := h.listing
  have hfaultless := h.faultless.run hready
  cases hphase : c.backlog.phase with
  | flushed =>
    -- another flush does nothing
    obtain ⟨⟨phase, queue⟩, listeners, listing⟩ := c
    obtain rfl : phase = .flushed := hphase
    cases hready
    exact h
  | pending =>
    have hreturns := leads_ready c c rfl
    have hc' := hreturns.runBy (congrArg Prod.fst ((runBy_answer _ w).trans hready))
    rcases hc' with ⟨hflushed, -⟩ | rfl
    · rw [hphase] at hflushed
      cases hflushed
    · rw [ready_eq hphase] at hready
      have hlisted := isListed_of_concluding hlisting h.faultless hready
      exact ⟨hfaultless, h.calm, h.listing, fun hpending => (nomatch hpending), fun _ => hlisted⟩

end Follows

/-! A flush succeeds, unless somebody stops waiting. -/

section

variable {c : Entitlements} {path : String} (hlisting : c.listing = some path)
  (hcalm : ∀ l ∈ c.listeners, l.IsCalm)

include hlisting hcalm

theorem exists_run_store {w : World} (hw : w.IsFaultless) (r : Registration) :
    ∃ f v, (c.store r).run w = (.ok f, v) := by
  obtain ⟨f, u, hentering⟩ := exists_run_entering hcalm r.entitlement hw
  obtain ⟨hpublished, -⟩ := run_publish_of_isFaultless hlisting (hw.run hentering)
  rw [store_eq, run_bind, hentering]
  change ∃ f v, Program.run (ite _ _ _) u = _
  split
  · rw [run_bind]
    revert hpublished
    rcases c.publish.run u with ⟨x, v⟩
    rintro rfl
    exact ⟨f, v, rfl⟩
  · exact ⟨f, u, rfl⟩

theorem exists_run_served {w : World} (hw : w.IsFaultless) (job : Job Registration) :
    ∃ f v, (job.serve c.store).run w = (.ok (.ok f), v) := by
  obtain ⟨r, moves⟩ := job
  obtain ⟨f, v, hstore⟩ := exists_run_store hlisting hcalm hw r
  rw [Job.serve, run_bind, run_attempt, hstore]
  simp only [run_bind, run_forM_notify]
  exact ⟨f, _, rfl⟩

theorem exists_run_queue {w : World} (hw : w.IsFaultless) (queue : Queue Registration)
    (hqueue : ∀ entry ∈ queue, entry.1.IsPatient) (count : Nat) {s : Submitters Registration}
    (hs : s.withdrawn = []) :
    ∃ n t v, (Queue.run c.store queue count s).run w = (.ok ⟨.ok (), n, [], t⟩, v) := by
  match queue with
  | [] =>
    rw [Queue.run]
    exact ⟨count, s, w, rfl⟩
  | (job, m) :: rest =>
    obtain ⟨hjob, hrest⟩ := List.forall_mem_cons.mp hqueue
    obtain ⟨f, v, hserved⟩ := exists_run_served hlisting hcalm hw job
    -- those who came during the job have joined the line
    have hline : ∀ entry ∈ rest ++ ranked s.tasks.length job.submitted, entry.1.IsPatient :=
      List.forall_mem_append.mpr ⟨hrest, isPatient_ranked hjob.submitted _⟩
    rw [Queue.run_cons c.store hjob m rest count hs, run_bind, hserved]
    exact exists_run_queue (hw.run hserved) _ hline (count + 1) hs
termination_by Queue.size queue
decreasing_by
  have hsize := hjob.size s
  rw [Queue.size_append, Queue.size]
  dsimp only at hsize
  omega

theorem exists_run_ready {w : World} (hw : w.IsFaultless) (hc : c.backlog.phase = .pending)
    (hpatient : ∀ job ∈ c.backlog.queue, job.IsPatient) :
    ∃ n v, Program.run (ready c) w = (.ok (.ok n, { c with backlog := ⟨.flushed, []⟩ }), v) := by
  have hqueue : ∀ entry ∈ c.backlog.queue.map (·, (none : Option Nat)), entry.1.IsPatient := by
    intro entry hentry
    obtain ⟨job, hjob, rfl⟩ := List.mem_map.mp hentry
    exact hpatient job hjob
  obtain ⟨n, t, u, hrun⟩ := exists_run_queue hlisting hcalm hw _ hqueue 0 (s := {}) rfl
  have hflush := Backlog.run_flushWith_ok c.publish hrun
  have hbacklog : c.backlog = ⟨.pending, c.backlog.queue⟩ := by rw [← hc]
  have hannounced := (hw.run hrun).answer (.record ⟨.info, Backlog.logger,
    "Catalog registrations flushed", [("count", .nat n)]⟩)
  have hok : ((Backlog.announced n c.publish).run u).1 = .ok () :=
    (run_publish_of_isFaultless hlisting hannounced).1
  rw [← hbacklog, hok] at hflush
  refine ⟨n, ((Backlog.announced n c.publish).run u).2, ?_⟩
  change Program.run ((Backlog.flushWith c.store c.publish c.backlog >>= _) >>= _) w = _
  rw [run_bind, run_bind, hflush]
  rfl

end

/-- What calls make of a new catalog, and of a world in which nothing fails. While a job that has
waited runs, others may ask for anything. -/
inductive Undisturbed (disk : Disk) : Entitlements × World → Prop where
  | start {c : Entitlements} {w : World} {path : String} (hbacklog : c.backlog = {})
    (hlisting : c.listing = some path) (hcalm : ∀ l ∈ c.listeners, l.IsCalm) (hw : w.IsFaultless)
    (hdisk : w.disk = disk) : Undisturbed disk (c, w)
  | given {x : Entitlements × World} (h : Undisturbed disk x) (call : Way × Submission) :
    Undisturbed disk (given x call)
  | meanwhile {c : Entitlements} {w : World} (h : Undisturbed disk (c, w)) (n : Nat)
    (moves : Moves Registration) : Undisturbed disk (c.meanwhile n moves, w)
  | ready {c c' : Entitlements} {v w : World} (h : Undisturbed disk (c, w)) {t : Instant} {n : Nat}
    (hready : Program.run (ready c) { w with clock := t } = (.ok (.ok n, c'), v)) :
    Undisturbed disk (c', v)
  | listen {c : Entitlements} {w : World} (h : Undisturbed disk (c, w)) {l : ChangeListener}
    (hl : l.IsCalm) (t : Instant) : Undisturbed disk (during t (listen l) (c, w))

theorem Undisturbed.follows {disk : Disk} {x : Entitlements × World} (h : Undisturbed disk x) :
    Follows disk x.1 x.2 := by
  induction h with
  | start hbacklog hlisting hcalm hw hdisk =>
    refine ⟨hw, hcalm, ⟨_, hlisting⟩, fun _ => hdisk, fun hflushed => ?_⟩
    rw [hbacklog] at hflushed
    cases hflushed
  | given _ call ih => exact ih.given call
  | meanwhile _ n moves ih => exact ⟨ih.faultless, ih.calm, ih.listing, ih.before, ih.since⟩
  | ready _ hready ih => exact (ih.at _).ready hready
  | listen _ hl t ih =>
    have hat := ih.at t
    have hcalm := List.forall_mem_append.mpr ⟨hat.calm, List.forall_mem_singleton.mpr hl⟩
    exact ⟨hat.faultless, hcalm, hat.listing, hat.before, hat.since⟩

/-- Before the store is ready no call touches the file; from then on it is the listing of the whole
table after every call. -/
theorem listing_follows {disk : Disk} {c : Entitlements} {w : World}
    (h : Undisturbed disk (c, w)) :
    (c.backlog.phase = .pending → w.disk = disk) ∧ (c.backlog.phase = .flushed → w.IsListed) :=
  ⟨h.follows.before, h.follows.since⟩

/-! A definition that waits, and another one that is registered while it is stored. -/

def imports : Entitlement :=
  (exports "late").row (identifier 7) "imports" (.ofSeconds 2)

def early : Entitlements × World :=
  given (overture, .initial .error none { path := "types.py" })
    (.declare, ⟨exports "first", .ofSeconds 1⟩)

def boarding : Entitlements × World :=
  (early.1.meanwhile 0 (.submit (.mk ⟨imports, false⟩ .none) .none), early.2)

theorem undisturbed_boarding : Undisturbed { path := "types.py" } boarding := by
  have hcalm : ∀ l ∈ overture.listeners, l.IsCalm := by
    simp [overture, ChangeListener.IsCalm]
  have hstart : Undisturbed { path := "types.py" }
      (overture, .initial .error none { path := "types.py" }) :=
    .start rfl rfl hcalm ⟨rfl, rfl⟩ rfl
  have hearly : Undisturbed { path := "types.py" } early := hstart.given _
  exact .meanwhile hearly 0 _

theorem listing_follows_boarding :
    let x := during (.ofSeconds 3) ready boarding
    Undisturbed { path := "types.py" } x ∧ x.1.backlog.phase = .flushed ∧ x.2.IsListed := by
  have hfollows := undisturbed_boarding.follows
  have hpatient : ∀ job ∈ boarding.1.backlog.queue, job.IsPatient := by
    have hqueue : boarding.1.backlog.queue =
        [.mk ⟨(exports "first").row (identifier 0) "exports" (.ofSeconds 1), false⟩
          (.submit (.mk ⟨imports, false⟩ .none) .none)] := rfl
    simp [hqueue, Job.IsPatient, Moves.IsPatient]
  have hlisting : boarding.1.listing = some "types.py" := rfl
  obtain ⟨n, v, hready⟩ := exists_run_ready hlisting hfollows.calm
    (hfollows.at (.ofSeconds 3)).faultless rfl hpatient
  have hx : during (.ofSeconds 3) ready boarding =
      ({ boarding.1 with backlog := ⟨.flushed, []⟩ }, v) := by
    unfold during
    rw [hready]
  intro x
  have hundisturbed : Undisturbed { path := "types.py" } x := by
    rw [show x = _ from hx]
    exact .ready undisturbed_boarding hready
  have hflushed : x.1.backlog.phase = .flushed := by
    rw [show x = _ from hx]
  exact ⟨hundisturbed, hflushed, (listing_follows hundisturbed).2 hflushed⟩

end Entitlements

end AccessControl
