import AccessControl.Proofs.Administration.Integrity
import AccessControl.Proofs.Administration.Reached
import AccessControl.Proofs.Entitlements.Flushing
import AccessControl.Proofs.Program.Preserving
import AccessControl.Proofs.Service.Transparency

/-!
The integrity of the tables over the whole time of a service. Its operations keep them intact, and
whatever else it does leaves roles, memberships and rulesets alone and takes no entitlement away.
-/

namespace AccessControl

open Program Store

theorem Effect.isApart_of_isPassive {e : Effect} (he : e.isPassive = true) : e.isApart = true := by
  cases e with
  | store c => cases c <;> first | rfl | cases he
  | cache => cases he
  | _ => rfl

theorem Store.Tables.IsIntact.apart {w : World} (h : w.ledger.tables.IsIntact) {e : Effect}
    (he : e.isApart = true) : (w.answer e).2.ledger.tables.IsIntact := by
  cases e with
  | store c =>
    have hadmits : w.ledger.tables.Admits c := by cases c <;> trivial
    change (w.ledger.call c).2.tables.IsIntact
    cases hc : w.ledger.fails c with
    | true =>
      obtain ⟨e, l, hcall, hl⟩ := Ledger.call_of_fails hc
      rw [hcall, hl]
      exact h
    | false =>
      rw [Ledger.call_of_not_fails hc]
      exact h.after hadmits
  | _ => exact h

/-! Registration. -/

namespace Entitlements

theorem apart_hear (name : String) (l : ChangeListener) : Only Effect.isApart (l.hear name) := by
  cases l with
  | cache => exact (GrantCache.only_succeeded rfl rfl fun _ => rfl).bind fun _ => only_pure ()
  | named listener l => exact (only_hear l _).mono fun _ => Effect.isApart_of_isPassive

theorem apart_publish (c : Entitlements) : Only Effect.isApart c.publish :=
  (only_publish c).mono fun _ => Effect.isApart_of_isPassive

theorem apart_store (c : Entitlements) (r : Registration) : Only Effect.isApart (c.store r) := by
  refine (only_save (fun _ => rfl) rfl (fun _ => rfl) rfl rfl).bind fun e => ?_
  refine (only_forM fun l => apart_hear e.name l).bind fun _ => ?_
  change Only Effect.isApart (ite _ _ _)
  split
  · exact (apart_publish c).bind fun _ => only_pure e
  · exact only_pure e

theorem apart_definition (d : Definition) : Only Effect.isApart d.entitlement :=
  only_definition (fun _ => rfl) rfl rfl d

abbrev Preserves {α : Type} (p : Stateful Entitlements α) : Prop :=
  Stateful.Preserves World.answer (·.ledger.tables.IsIntact) (fun _ => True) p

end Entitlements

theorem attains_apart {α : Type} {p : Program α} (hp : Only Effect.isApart p) :
    Attains World.answer (·.ledger.tables.IsIntact) p (fun _ w => w.ledger.tables.IsIntact)
      (·.ledger.tables.IsIntact) :=
  Keeps.attains (hp.keeps fun _ he _ h => h.apart he)

theorem preserves_apart {σ α : Type} {p : Stateful σ α} (hp : ∀ s, Only Effect.isApart (p s)) :
    Stateful.Preserves World.answer (·.ledger.tables.IsIntact) (fun _ => True) p := by
  intro s _
  rw [← bind_pure (p s)]
  exact (attains_apart (hp s)).bind fun _ => attains_pure fun _ hw => ⟨trivial, hw⟩

namespace Entitlements

open Stateful

theorem preserves_onBacklog {α : Type} {p : Stateful (Backlog Registration) α}
    (hp : Stateful.Preserves World.answer (·.ledger.tables.IsIntact) (fun _ => True) p) :
    Preserves (onBacklog p) :=
  Stateful.Preserves.zoom hp (fun _ _ => trivial) fun _ _ _ _ => trivial

theorem preserves_declare (d : Definition) : Preserves (declare d) := by
  refine (preserves_lift (attains_apart (apart_definition d))).bind fun e => ?_
  refine Stateful.Preserves.bind (preserves_onBacklog ?_) fun _ => ?_
  · refine preserves_get.bind fun i => ?_
    split
    · exact preserves_ofExcept _
    · exact preserves_set trivial
  · exact (preserves_lift (attains_apart (only_perform rfl))).bind fun _ => preserves_pure e

theorem preserves_register (d : Definition) : Preserves (register d) := by
  refine (preserves_lift (attains_apart (apart_definition d))).bind fun e => ?_
  refine preserves_get.bind fun c => Stateful.Preserves.bind (preserves_onBacklog ?_) fun stored => ?_
  · refine preserves_get.bind fun i => ?_
    split
    · refine (preserves_lift (attains_apart ?_)).bind fun _ => preserves_pure _
      rw [run_none]
      exact (apart_store c _).attempt.bind fun _ => only_ofExcept _
    · exact (preserves_set trivial).bind fun _ => preserves_pure none
  · exact (preserves_lift (attains_apart (only_perform rfl))).bind fun _ => preserves_pure _

theorem preserves_ready : Preserves ready := by
  refine preserves_get.bind fun c => preserves_onBacklog (preserves_apart fun i => ?_)
  exact only_flush (fun _ => rfl) (apart_store c) (fun _ => rfl) (apart_publish c) i

end Entitlements

namespace Service

open Stateful

/-- No other service waits for the tables of this one. -/
def IsAlone (s : Service) : Prop :=
  ∀ l ∈ s.readiness.listeners, ∀ other, l.2 ≠ .other other

abbrev Preserves {α : Type} (p : Stateful Service α) : Prop :=
  Stateful.Preserves World.answer (·.ledger.tables.IsIntact) IsAlone p

theorem preserves_onEntitlements {α : Type} {p : Stateful Entitlements α}
    (hp : Entitlements.Preserves p) : Preserves (onEntitlements p) :=
  hp.zoom (fun _ _ => trivial) fun _ _ hs _ => hs

theorem preserves_addOverride (o : Override) : Preserves (addOverride o) :=
  preserves_modify fun _ hs => hs

theorem preserves_addEntity (schema : Except Error Entity) : Preserves (addEntity schema) := by
  have hregister : Stateful.Preserves World.answer (·.ledger.tables.IsIntact) (fun _ => True)
      (Entities.register schema) := by
    refine (preserves_ofExcept schema).bind fun e => (preserves_modify fun _ _ => trivial).bind fun _ => ?_
    exact (preserves_lift (attains_apart (only_perform rfl))).bind fun _ => preserves_pure e
  exact hregister.zoom (fun _ _ => trivial) fun _ _ hs _ => hs

theorem preserves_protect : Preserves protect := by
  refine preserves_forM fun (entityType, fields) _ => (preserves_addEntity _).bind fun _ => ?_
  exact preserves_forM fun action _ => preserves_addOverride _

theorem isAlone_listen {r : Readiness Subscriber} (h : ∀ l ∈ r.listeners, ∀ other, l.2 ≠ .other other)
    (entityType : String) :
    ∀ l ∈ (r.listen entityType .entitlements).listeners, ∀ other, l.2 ≠ .other other := by
  intro l hl
  rcases mem_listeners_listen hl with hl | rfl
  · exact h l hl
  · rintro _ ⟨⟩

theorem preserves_settle : Preserves settle := by
  refine (preserves_modify fun _ hs => isAlone_listen hs _).bind fun _ => ?_
  refine preserves_protect.bind fun _ => preserves_forM fun d _ => ?_
  exact (preserves_onEntitlements (Entitlements.preserves_declare d)).bind fun _ => preserves_pure _

theorem preserves_setUp : Preserves setUp := by
  refine preserves_get.bind fun s => ?_
  split
  · exact (preserves_onEntitlements (preserves_modify fun _ _ => trivial)).bind fun _ =>
      preserves_settle
  · exact preserves_settle

theorem preserves_tell {l : Subscriber} (hl : ∀ other, l ≠ .other other) : Preserves (tell l) := by
  cases l with
  | entitlements =>
    exact (preserves_onEntitlements Entitlements.preserves_ready).bind fun _ => preserves_pure _
  | other entitlements => exact absurd rfl (hl entitlements)
  | named name l =>
    refine preserves_lift (attains_apart ?_)
    exact (Entitlements.only_hear l _).mono fun _ => Effect.isApart_of_isPassive

theorem preserves_announce (entityType : String) :
    Preserves (Readiness.announce Service.readiness (fun s readiness => { s with readiness }) tell
      entityType) := by
  intro s hs
  change Attains World.answer _
    ((ite (s.readiness.isReady entityType = true) _ _ : Stateful Service Unit) s) _ _
  by_cases hready : s.readiness.isReady entityType
  · rw [if_pos hready]
    exact preserves_pure () s hs
  · rw [if_neg hready]
    refine (preserves_set ?_).bind (fun _ => preserves_forM fun l hl => preserves_tell ?_) s hs
    · exact fun l hl => hs l (List.mem_of_mem_filter hl)
    · obtain ⟨entry, hentry, rfl⟩ := List.mem_map.1 hl
      exact hs entry (List.mem_of_mem_filter hentry)

theorem preserves_startTables (isReady : Bool) : Preserves (startTables isReady) := by
  have hlog : Preserves logStarted :=
    preserves_get.bind fun _ => preserves_lift (attains_apart (only_log rfl))
  cases isReady with
  | true => exact (preserves_tell (l := .entitlements) fun _ h => nomatch h).bind fun _ => hlog
  | false =>
    refine Stateful.Preserves.bind ?_ fun _ => hlog
    refine (preserves_lift (attains_apart (only_call rfl))).bind fun _ => ?_
    refine (preserves_forM fun t _ => preserves_announce t).bind fun _ => ?_
    exact preserves_lift (attains_apart (only_log rfl))

theorem preserves_start : Preserves start := by
  have hcache : Only Effect.isApart GrantCache.start := by
    refine (only_perform rfl).bind fun x => ?_
    cases x with
    | ok a => exact only_log rfl
    | error reason => exact (only_log rfl).bind fun _ => trivial
  rw [start_eq]
  refine preserves_get.bind fun s => ?_
  split
  · exact (preserves_lift (attains_apart hcache)).bind fun _ => preserves_startTables _
  · exact preserves_startTables _

theorem preserves_administer (op : Operation) : Preserves (administer op) := by
  refine preserves_get.bind fun s => preserves_lift fun w hw => ?_
  have h := op.isIntact_run s.cache hw
  rw [← runBy_answer] at h
  revert h
  rcases (op.run s.cache).runBy World.answer w with ⟨e | a, v⟩ <;> exact id

end Service

theorem supplies_tables (t : Tables) (cache : Option GrantCache) :
    Supplies World.answer (fun w => w.ledger.tables = t) True t cache (fun _ _ => True)
      fun _ => True := by
  refine supplies_any (fun e he w hw => ?_) (fun c hc w hw => ?_) (fun _ _ hw => hw) cache
  · cases e with
    | store | cache | database | publish | mint => cases he
    | _ => exact hw
  · subst hw
    change (w.ledger.call c).2.tables = _ ∧ Yielded _ _ (w.ledger.call c).1
    cases hfails : w.ledger.fails c with
    | true =>
      obtain ⟨e, l, hcall, hl⟩ := Ledger.call_of_fails hfails
      rw [hcall]
      exact ⟨hl, trivial⟩
    | false =>
      rw [Ledger.call_of_not_fails hfails]
      exact ⟨hc, rfl⟩

theorem keeps_grants (t : Tables) (q : Evaluation) (f : Filter) :
    Keeps World.answer (fun w => w.ledger.tables = t) (q.grants f) := by
  have hsupplies := supplies_tables t f.authority.grants.cache
  cases q with
  | accessOfRoles roles => exact (Grants.yields_ofRoles hsupplies roles).keeps
  | creation account | access account | unlocking account | filtering account =>
    exact (Grants.yields_ofAccount hsupplies account.id).keeps

namespace Service

open Stateful

theorem attains_still {α : Type} {p : Program α}
    (hp : ∀ w : World, Program.Keeps World.answer (·.ledger.tables = w.ledger.tables) p) :
    Attains World.answer (·.ledger.tables.IsIntact) p (fun _ w => w.ledger.tables.IsIntact)
      (·.ledger.tables.IsIntact) := by
  intro w hw
  have h : (p.runBy World.answer w).2.ledger.tables.IsIntact := by
    rw [((hp w).run rfl).2]
    exact hw
  revert h
  rcases p.runBy World.answer w with ⟨e | a, v⟩ <;> exact id

theorem preserves_evaluate (q : Evaluation) : Preserves (evaluate q) :=
  preserves_get.bind fun s => preserves_lift <| attains_still fun w =>
    (closed_keeps (supplies_tables w.ledger.tables none).inert).ask
      (keeps_grants w.ledger.tables q s.filter)

theorem preserves_stream (account : Account) (action : String) (listener : Option Listener)
    (records : List Record) : Preserves (stream account action listener records) := by
  refine preserves_get.bind fun s => preserves_lift <| attains_still fun w => ?_
  have hsupplies := supplies_tables w.ledger.tables s.filter.authority.grants.cache
  have hidle : Pipe.IsIdle { account, action, listener } :=
    ⟨rfl, fun _ h => absurd h List.not_mem_nil⟩
  have hserve := Pipe.yields_serve hsupplies.inert
    (hidle.keeps hsupplies.inert ⟨w, rfl⟩
      (Grants.yields_ofAccount hsupplies account.id).keeps) records
  exact hserve.keeps.bind fun _ => trivial

/-- Whatever is asked of a service leaves its tables intact. -/
theorem preserves_run (x : Step) : Preserves x.run := by
  cases x with
  | administer op => exact preserves_administer op
  | declare d => exact preserves_onEntitlements (Entitlements.preserves_declare d)
  | register d => exact preserves_onEntitlements (Entitlements.preserves_register d)
  | listen name l => exact preserves_onEntitlements (preserves_modify fun _ _ => trivial)
  | override o => exact preserves_addOverride o
  | entity schema => exact preserves_addEntity schema
  | start => exact preserves_start
  | evaluate q => exact preserves_evaluate q
  | stream account action listener records => exact preserves_stream account action listener records

theorem take_preserves {α : Type} {p : Stateful Service α} (hp : Preserves p) {c : Service}
    (hc : c.IsAlone) {w : World} (hw : w.ledger.tables.IsIntact) :
    (take World.answer p c w).2.1.IsAlone ∧
      (take World.answer p c w).2.2.ledger.tables.IsIntact := by
  have h := hp c hc w hw
  revert h
  rw [take]
  rcases (p c).runBy World.answer w with ⟨e | ⟨x, c'⟩, w'⟩
  · exact fun h => ⟨hc, h⟩
  · exact id

theorem runAll_preserves (es : List Event) {c : Service} (hc : c.IsAlone) {w : World}
    (hw : w.ledger.tables.IsIntact) :
    (runAll World.answer World.later es c w).2.2.ledger.tables.IsIntact := by
  induction es generalizing c w with
  | nil => exact hw
  | cons e es ih =>
    obtain ⟨hc', hw'⟩ := take_preserves (w := w.later e.time) (preserves_run e.step) hc hw
    exact ih hc' hw'

/-- A service whose tables are empty at first keeps them intact, whatever is asked of it and
whichever calls of its store fail. So a revocation that succeeds then leaves no row of the kind that
it names. -/
theorem integrity (name : String) (policy : Policy) (listing : Option String)
    (cache : Option GrantCache) (events : List Event) {w : World}
    (hempty : w.ledger.tables = .empty) :
    let v := (serve World.answer World.later (bare name policy listing cache) events w).2.2
    v.ledger.tables.IsIntact ∧ ∀ op : Operation, ((op.run cache).run v).1 = .ok () →
      op.Clears ((op.run cache).run v).2.ledger.tables := by
  have hstart : w.ledger.tables.IsIntact := hempty ▸ Tables.isIntact_empty
  have hbare : (bare name policy listing cache).IsAlone := fun _ h => absurd h List.not_mem_nil
  obtain ⟨halone, hset⟩ := take_preserves preserves_setUp hbare hstart
  have hintact := runAll_preserves events halone hset
  exact ⟨hintact, fun op hok => op.clears_run hintact hok⟩

/-! A member joins a role while the store fails now and then, and leaves it. -/

def joining : List Event :=
  let event (op : Operation) : Event := ⟨.administer op, .ofSeconds 60, isDated_minute⟩
  [event (.createRole "analyst" ""), event (.grantMembership (identifier 3) "ann"),
    event (.grantMembership (identifier 3) "ann")]

def failing : World :=
  { founding with ledger :=
      ⟨.empty, Faults.none.plan .putMembership (.outside .system "disk full") (some 1)⟩ }

theorem integrity_of_joining :
    let v := (serve World.answer World.later (bare "permissions" ⟨{}, hasFlag⟩ none none) joining
      failing).2.2
    failing.ledger.tables = .empty ∧ v.ledger.tables.memberships.rows.length = 1 ∧
      v.ledger.tables.IsIntact ∧
      (Operation.revokeMembership (identifier 3) "ann").Clears
        (((Operation.revokeMembership (identifier 3) "ann").run none).run v).2.ledger.tables := by
  intro v
  obtain ⟨hintact, hclears⟩ := integrity "permissions" ⟨{}, hasFlag⟩ none none joining
    (w := failing) rfl
  have hrun : (((Operation.revokeMembership (identifier 3) "ann").run none).run v).1 = .ok () := rfl
  exact ⟨rfl, rfl, hintact, hclears _ hrun⟩

end Service

end AccessControl
