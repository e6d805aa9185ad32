import AccessControl.Entitlements
import AccessControl.Proofs.Cache.Lockstep

/-!
Registration of entitlements with a cache and without one. An entitlement that is stored makes the
cached table stale; the cache hears of it before any other listener does.
-/

namespace AccessControl

open Program Store
open Fading (Mirror)

/-! Accesses that leave the tables as they are. -/

def Store.Call.isRead : Call → Bool
  | .enter _ | .entitlement _ | .entitlements => true
  | _ => false

def Effect.isPassive : Effect → Bool
  | .store c => c.isRead
  | e => e.isShared

theorem Effect.isShared_of_isPassive {e : Effect} (he : e.isPassive = true) :
    e.isShared = true := by
  cases e <;> first | rfl | exact he

def Effect.isListing : Effect → Bool
  | .store .entitlements | .record _ | .publish _ | .pause => true
  | _ => false

def Effect.isTelling : Effect → Bool
  | .store .entitlements | .record _ | .notify _ | .publish _ | .pause => true
  | _ => false

theorem Effect.isTelling_of_isListing {e : Effect} (he : e.isListing = true) :
    e.isTelling = true := by
  cases e with
  | store c => cases c <;> first | rfl | cases he
  | _ => first | rfl | cases he

theorem Effect.isPassive_of_isTelling {e : Effect} (he : e.isTelling = true) :
    e.isPassive = true := by
  cases e with
  | store c => cases c <;> first | rfl | cases he
  | _ => first | rfl | cases he

theorem World.IsFit.passive {w : World} (h : w.IsFit) {e : Effect} (he : e.isPassive = true) :
    (w.answer e).2.IsFit ∧ (w.answer e).2.ledger.tables = w.ledger.tables := by
  cases e with
  | store c =>
    have hafter : w.ledger.tables.after c = w.ledger.tables := by
      cases c <;> first | rfl | cases he
    rw [World.answer_store h.faults, hafter]
    exact ⟨⟨rfl, h.tables, h.entitlements, h.clock⟩, rfl⟩
  | cache | database | enter | leave | statistics => cases he
  | mint => exact ⟨⟨h.faults, h.tables.mono (Nat.le_succ _), h.entitlements, h.clock⟩, rfl⟩
  | _ => exact ⟨⟨h.faults, h.tables, h.entitlements, h.clock⟩, rfl⟩

theorem Fading.Mirror.passive {s : Fading} {w : World} (h : Mirror s w) {e : Effect}
    (he : e.isPassive = true) :
    (Fading.answer s e).1 = (w.answer e).1 ∧ Mirror (Fading.answer s e).2 (w.answer e).2 := by
  obtain ⟨hreply, hfollows⟩ :=
    (Follows.refl h.copies.same).answer (Effect.isShared_of_isPassive he)
  obtain ⟨hfit, htables⟩ := h.fit.passive he
  refine ⟨hreply, hfollows.copies h.copies (fun a _ => ?_) fun _ => ?_, hfit⟩
  · rw [htables]
  · rw [htables]

namespace Program

variable {α : Type} {p : Program α}

theorem mirrors_perform {e : Effect} (he : e.isPassive = true) {E : Fading → World → Prop} :
    Mirrors Fading.answer World.answer Mirror (perform e) (perform e)
      (fun a b s w => a = b ∧ Mirror s w) E :=
  fun _ _ h => .value (h.passive he)

theorem mirrors_passive (hp : Only Effect.isPassive p) :
    Mirrors Fading.answer World.answer Mirror p p (fun a b s w => a = b ∧ Mirror s w) Mirror :=
  hp.mirrors fun _ he _ _ h => h.passive he

end Program

namespace Entitlements

/-! One registration. -/

section Asked

variable {kind : Effect → Bool} (hlog : ∀ line, kind (.record line) = true)

include hlog

theorem only_save {e : Entitlement} (hread : kind (.store (.entitlement e.name)) = true)
    (hwrite : ∀ f, kind (.store (.putEntitlement f)) = true) (hlock : kind (.lock e.name) = true)
    (hunlock : kind (.unlock e.name) = true) : Only kind (save e) := by
  refine Only.locking (Only.storing ?_ (fun _ _ => hlog _) _) hlock hunlock
  refine (only_call hread).bind fun old => (only_log (hlog _)).bind fun _ => ?_
  exact (only_call (hwrite _)).bind fun _ => only_pure _

theorem only_definition (hmint : kind .mint = true) (hnow : kind .now = true) (d : Definition) :
    Only kind d.entitlement := by
  rw [Definition.entitlement]
  refine (only_ofExcept _).bind fun x => Only.bind ?_ fun _ => ?_
  · rw [Definition.warnInert]
    split
    · exact only_pure ()
    · exact only_log (hlog _)
  · exact (only_perform hmint).bind fun id => (only_perform hnow).bind fun now => only_pure _

end Asked

theorem isWritable_renewed {t : Tables} (ht : ∀ e ∈ t.entitlements.rows, e.IsWritable)
    {e : Entitlement} (he : e.IsWritable) :
    (renewed e (t.reply (.entitlement e.name))).IsWritable := by
  cases hold : t.reply (.entitlement e.name) with
  | none => exact he
  | some old =>
    obtain ⟨hmem, -⟩ := Table.get?_eq_some_iff.1 hold
    exact ⟨he.permissions, (ht old hmem).createdAt, he.updatedAt⟩

theorem attains_save {t : Tables} {n : Nat} (hk : t.IsKept n)
    (ht : ∀ e ∈ t.entitlements.rows, e.IsWritable) {e : Entitlement} (he : e.IsWritable) :
    Attains World.answer (World.At True t n) (save e)
      (fun f w => f.IsWritable ∧ w.At True (t.after (.putEntitlement f)) n)
      (World.Left True t) := by
  refine Attains.locking (attains_storing ?_ _ _) e.name (fun _ hw => hw.quiet rfl)
    (fun _ _ hw => ⟨hw.1, hw.2.quiet rfl⟩) fun _ hw => hw.quiet rfl
  refine attains_call hk (attains_log (attains_call hk ?_))
  exact attains_pure fun w hw => ⟨isWritable_renewed ht he, hw⟩

theorem mirrors_save {e : Entitlement} (he : e.IsWritable) :
    Mirrors Fading.answer World.answer Mirror (save e) (save e)
      (fun f g s w => f = g ∧ s.Copies [GrantCache.entitlementsKey] w ∧ w.IsFit) Mirror := by
  rintro s w ⟨hs, hw⟩
  have hshared : Only Effect.isShared (save e) :=
    only_save (fun _ => rfl) rfl (fun _ => rfl) rfl rfl
  have hmirrors := Fading.mirrors_follows hshared s s w (.refl hs.same)
  have hsaved := attains_save hw.tables hw.entitlements he w
    ⟨rfl, rfl, hw.clock, fun _ => hw.faults⟩
  revert hmirrors hsaved
  rcases (save e).runBy Fading.answer s with ⟨x, s'⟩
  rcases (save e).runBy World.answer w with ⟨y, w'⟩
  rintro (⟨rfl, hfollows⟩ | hfollows)
  · rintro ⟨hf, hat⟩
    refine .value ⟨rfl, hfollows.copies hs (fun a _ => by rw [hat.tables]; rfl) (fun h => ?_), ?_⟩
    · exact absurd List.mem_cons_self h
    · refine hat.isFit (hw.tables.after trivial) fun g hg => ?_
      rcases Table.mem_insert hg with rfl | hg
      · exact hf
      · exact hw.entitlements g hg
  · exact fun hleft => .failure (hfollows.mirror hs hw hleft)

def withCache (c : Entitlements) : Entitlements :=
  { c with listeners := .cache :: c.listeners }

/-- None of the listeners is a cache, and the registrations that wait can be cached. -/
structure IsPlain (c : Entitlements) : Prop where
  listeners : ∀ l ∈ c.listeners, ∃ name listener, l = .named name listener
  backlog : ∀ job ∈ c.backlog.queue, ∃ r : Registration, job = .mk r .none ∧
    r.entitlement.IsWritable

theorem listing_publish (c : Entitlements) : Only Effect.isListing c.publish := by
  have hall : Only Effect.isListing all := (only_call rfl).storing (fun _ _ => rfl) _
  unfold publish
  split
  · trivial
  · refine hall.attempt.bind fun x => ?_
    split
    · refine (only_perform rfl).bind fun published => (only_perform rfl).bind fun _ => ?_
      split <;> exact only_log rfl
    · exact only_log rfl
    · trivial

theorem telling_publish (c : Entitlements) : Only Effect.isTelling c.publish :=
  (listing_publish c).mono fun _ => Effect.isTelling_of_isListing

theorem telling_hear (l : Listener) (n : Notice) : Only Effect.isTelling (l.hear n) := by
  refine (only_perform rfl).bind fun _ => ?_
  split <;> trivial

theorem only_publish (c : Entitlements) : Only Effect.isPassive c.publish :=
  (telling_publish c).mono fun _ => Effect.isPassive_of_isTelling

theorem only_hear (l : Listener) (n : Notice) : Only Effect.isPassive (l.hear n) :=
  (telling_hear l n).mono fun _ => Effect.isPassive_of_isTelling

theorem only_announce {c : Entitlements} (hc : c.IsPlain) (name : String) :
    Only Effect.isPassive (c.listeners.forM (·.hear name)) := by
  have hlisteners := hc.listeners
  revert hlisteners
  induction c.listeners with
  | nil => exact fun _ => only_pure ()
  | cons l ls ih =>
    intro h
    refine Only.bind ?_ fun _ => ih fun l hl => h l (List.mem_cons_of_mem _ hl)
    obtain ⟨name, listener, rfl⟩ := h l List.mem_cons_self
    exact only_hear listener _

theorem mirrors_store {c : Entitlements} (hc : c.IsPlain) {r : Registration}
    (hr : r.entitlement.IsWritable) :
    Mirrors Fading.answer World.answer Mirror (c.withCache.store r) (c.store r)
      (fun e f s w => e = f ∧ Mirror s w) Mirror := by
  refine (mirrors_save hr).bind fun e f => ?_
  rintro s w ⟨rfl, hs, hw⟩
  let rest : Program Entitlement := do
    c.listeners.forM (·.hear e.name)
    if r.publish then c.publish
    return e
  have hrest : Only Effect.isPassive rest := by
    refine (only_announce hc e.name).bind fun _ => ?_
    change Only Effect.isPassive (ite _ _ _)
    split
    · exact (only_publish c).bind fun _ => only_pure e
    · exact only_pure e
  have hcached : (do
      c.withCache.listeners.forM (·.hear e.name)
      if r.publish then c.withCache.publish
      return e) = GrantCache.dropEntitlements >>= fun _ => rest := by
    rw [withCache]
    change ((GrantCache.dropEntitlements >>= fun _ => pure ()) >>= fun _ =>
      c.listeners.forM (·.hear e.name)) >>= _ = _
    simp only [bind_assoc, pure_bind]
    rfl
  have h : Mirrors Fading.answer World.answer
      (fun s v => s.Copies [GrantCache.entitlementsKey] v ∧ v.IsFit)
      (GrantCache.dropEntitlements >>= fun _ => rest) rest (fun e f s w => e = f ∧ Mirror s w)
      Mirror := by
    refine Mirrors.left (C := fun _ => Mirror) (fun v => ?_) fun _ => mirrors_passive hrest
    rintro s ⟨hs, hv⟩
    obtain ⟨hr, hs⟩ := GrantCache.ensures_dropped GrantCache.entitlementsKey s hs
    exact ⟨_, hr, hs, hv⟩
  rw [← hcached] at h
  exact h s w ⟨hs, hw⟩

theorem isText_permissions {d : Definition} {x : String × List Permission.Rule}
    (h : d.check = .ok x) : ∀ v ∈ d.permissions, v.text?.isSome := by
  obtain ⟨_, -, h⟩ := Outcome.bind_eq_ok_iff.1 h
  obtain ⟨rs, hrs, -⟩ := Outcome.bind_eq_ok_iff.1 h
  have hall : d.permissions.all fun v => (Permission.Rule.ofValue v).isOk := by
    rw [← Outcome.isOk_mapM]
    exact congrArg Except.isOk hrs
  intro v hv
  have hok := List.all_eq_true.1 hall v hv
  cases v <;> first | rfl | cases hok

theorem mirrors_entitlement (d : Definition) :
    Mirrors Fading.answer World.answer Mirror d.entitlement d.entitlement
      (fun e f s w => e = f ∧ e.IsWritable ∧ Mirror s w) Mirror := by
  cases hcheck : d.check with
  | error e =>
    rw [Definition.entitlement, hcheck]
    exact mirrors_fail fun _ _ => id
  | ok x =>
    obtain ⟨name, rules⟩ := x
    have htexts := isText_permissions hcheck
    have hwarn : Only Effect.isPassive (d.warnInert name rules) := by
      rw [Definition.warnInert]
      split
      · trivial
      · exact only_log rfl
    rw [Definition.entitlement, hcheck]
    have hmint : Only Effect.isPassive (perform .mint) := only_perform rfl
    have hnow : Mirrors Fading.answer World.answer Mirror (perform .now) (perform .now)
        (fun now now' s w => now = now' ∧ now.IsDated ∧ Mirror s w) Mirror := by
      intro s w h
      obtain ⟨hreply, hafter⟩ := h.passive (e := .now) rfl
      have hdated : (Fading.answer s .now).1.IsDated := hreply ▸ h.fit.clock
      exact .value ⟨hreply, hdated, hafter⟩
    refine (mirrors_passive hwarn).bind fun _ _ => ?_
    refine Mirrors.mono (P := Mirror) ?_ (fun _ _ h => h.2) (fun _ _ _ _ => id) fun _ _ => id
    refine (mirrors_passive hmint).bind fun id id' => ?_
    rintro s w ⟨rfl, h⟩
    refine hnow.bind (fun now now' => ?_) s w h
    rintro s w ⟨rfl, hdated, h⟩
    exact .value ⟨rfl, ⟨htexts, hdated, hdated⟩, h⟩

/-! The backlog. Whether there is a cache makes no difference to what waits in it. -/

/-- The same registrations wait, and they can be cached. -/
def SameBacklog (i j : Backlog Registration) : Prop :=
  i = j ∧ ∀ job ∈ j.queue, ∃ r : Registration, job = .mk r .none ∧ r.entitlement.IsWritable

theorem mirrors_count (mode : String) :
    Mirrors Fading.answer World.answer Mirror (count mode) (count mode)
      (fun a b s w => a = b ∧ Mirror s w) Mirror :=
  mirrors_passive (only_perform rfl)

theorem mirrors_enqueue {r : Registration} (hr : r.entitlement.IsWritable) :
    Stateful.Mirrors Fading.answer World.answer Mirror SameBacklog Eq
      (Backlog.enqueue (.mk r .none)) (Backlog.enqueue (.mk r .none)) := by
  refine Stateful.mirrors_get.bind ?_
  rintro i _ ⟨rfl, hi⟩
  by_cases hflushed : i.flushed
  · rw [if_pos hflushed]
    exact Stateful.mirrors_ofExcept (.failure _)
  · rw [if_neg hflushed]
    refine Stateful.mirrors_set ⟨rfl, fun job hjob => ?_⟩
    rcases List.mem_append.1 hjob with hjob | hjob
    · exact hi job hjob
    · exact ⟨r, List.mem_singleton.1 hjob, hr⟩

theorem run_none {ι β : Type} (run : ι → Program β) (task : ι) :
    Job.run run (.mk task .none) = (run task).attempt >>= ofExcept := by
  rw [Job.run]
  refine bind_congr fun outcome => ?_
  rw [Moves.run, pure_bind]

section Backlog

variable {run run' : Registration → Program Entitlement}
  (hrun : ∀ r, r.entitlement.IsWritable → Mirrors Fading.answer World.answer Mirror (run r) (run' r)
    (fun e f s w => e = f ∧ Mirror s w) Mirror)

include hrun

theorem mirrors_submit {r : Registration} (hr : r.entitlement.IsWritable) :
    Stateful.Mirrors Fading.answer World.answer Mirror SameBacklog Eq
      (Backlog.submit run (.mk r .none)) (Backlog.submit run' (.mk r .none)) := by
  refine Stateful.mirrors_get.bind ?_
  rintro i _ ⟨rfl, hi⟩
  by_cases hflushed : i.flushed
  · rw [if_pos hflushed, if_pos hflushed, run_none, run_none]
    have hjob := (hrun r hr).attempt.bind fun _ _ => mirrors_ofExcept
    exact (Stateful.mirrors_lift hjob).bind fun e f h => Stateful.mirrors_pure (congrArg some h)
  · rw [if_neg hflushed, if_neg hflushed]
    have hset : SameBacklog { i with queue := i.queue ++ [.mk r .none] }
        { i with queue := i.queue ++ [.mk r .none] } := by
      refine ⟨rfl, fun job hjob => ?_⟩
      rcases List.mem_append.1 hjob with hjob | hjob
      · exact hi job hjob
      · exact ⟨r, List.mem_singleton.1 hjob, hr⟩
    exact (Stateful.mirrors_set hset).bind fun _ _ _ => Stateful.mirrors_pure rfl

theorem mirrors_queue (queue : Queue Registration)
    (hqueue : ∀ entry ∈ queue, ∃ r : Registration, entry = (.mk r .none, none) ∧
      r.entitlement.IsWritable) (n : Nat) (t : Submitters Registration)
    {E : Fading → World → Prop} :
    Mirrors Fading.answer World.answer Mirror (Queue.run run queue n t) (Queue.run run' queue n t)
      (fun a b s w => a = b ∧ Mirror s w) E := by
  induction queue generalizing n with
  | nil =>
    rw [Queue.run, Queue.run]
    exact mirrors_pure fun _ _ h => ⟨rfl, h⟩
  | cons entry rest ih =>
    obtain ⟨r, rfl, hr⟩ := hqueue entry List.mem_cons_self
    have hrest := ih fun entry h => hqueue entry (List.mem_cons_of_mem _ h)
    rw [Queue.run, Queue.run]
    refine (hrun r hr).attempt.bind fun x y => ?_
    simp only [Moves.answers, pure_bind, Moves.queued, List.append_nil, Submitters.tell]
    intro s w h
    cases h with
    | value h => exact hrest (n + 1) s w h.2
    | @failure e _ _ h => cases e <;> exact .value ⟨rfl, h⟩

variable {after : Program Unit} (hafter : Only Effect.isPassive after)

include hafter

theorem mirrors_flushWith {i : Backlog Registration} (hi : SameBacklog i i) :
    Mirrors Fading.answer World.answer Mirror (i.flushWith run after) (i.flushWith run' after)
      (fun x y s w => x = y ∧ SameBacklog x.2.2 y.2.2 ∧ Mirror s w) fun _ _ => False := by
  unfold Backlog.flushWith
  by_cases hflushed : i.flushed
  · rw [if_pos hflushed, if_pos hflushed]
    exact mirrors_pure fun s w h => ⟨rfl, hi, h⟩
  rw [if_neg hflushed, if_neg hflushed]
  have hempty : SameBacklog { phase := .flushed } { phase := .flushed } :=
    ⟨rfl, fun _ hjob => absurd hjob List.not_mem_nil⟩
  have hqueue : ∀ entry ∈ i.queue.map (·, (none : Option Nat)), ∃ r : Registration,
      entry = (.mk r .none, none) ∧ r.entitlement.IsWritable := by
    intro entry hentry
    obtain ⟨job, hjob, rfl⟩ := List.mem_map.1 hentry
    obtain ⟨r, rfl, hr⟩ := hi.2 job hjob
    exact ⟨r, rfl, hr⟩
  refine (mirrors_queue hrun _ hqueue 0 {}).bind fun a b => ?_
  rintro s w ⟨rfl, h⟩
  revert s w
  have hwarn : Mirrors Fading.answer World.answer Mirror (Backlog.warnDropped a.left)
      (Backlog.warnDropped a.left) (fun _ _ => Mirror) fun _ _ => False := by
    unfold Backlog.warnDropped
    split
    · exact mirrors_pure fun _ _ => id
    · exact mirrors_log
  refine hwarn.bind fun _ _ => ?_
  cases a.outcome with
  | error e => exact mirrors_pure fun s w h => ⟨rfl, hempty, h⟩
  | ok _ =>
    refine mirrors_log.bind fun _ _ => ?_
    refine (mirrors_passive hafter).attempt.bind ?_
    rintro _ _ s w (h | h)
    · exact .value ⟨rfl, hempty, h.2⟩
    · exact .value ⟨rfl, hempty, h⟩

theorem mirrors_flush :
    Stateful.Mirrors Fading.answer World.answer Mirror SameBacklog Eq (Backlog.flush run after)
      (Backlog.flush run' after) := by
  rintro i _ ⟨rfl, hi⟩
  refine (mirrors_flushWith hrun hafter ⟨rfl, hi⟩).bind ?_
  rintro ⟨x, t, i⟩ _ s w ⟨rfl, hij, h⟩
  exact .value ⟨Stateful.agree_refl x, hij, h⟩

end Backlog

/-! Entitlements beside the same ones without a cache. -/

def Caches (c' c : Entitlements) : Prop :=
  c' = c.withCache ∧ c.IsPlain

variable {α β : Type}

theorem mirrors_onBacklog {A : α → β → Prop} {p : Stateful (Backlog Registration) α}
    {q : Stateful (Backlog Registration) β}
    (h : Stateful.Mirrors Fading.answer World.answer Mirror SameBacklog A p q) :
    Stateful.Mirrors Fading.answer World.answer Mirror Caches A (onBacklog p) (onBacklog q) := by
  refine h.zoom ?_ ?_
  · rintro _ c ⟨rfl, hc⟩
    exact ⟨rfl, hc.backlog⟩
  · rintro _ c _ i ⟨rfl, hc⟩ ⟨rfl, hi⟩
    exact ⟨rfl, hc.listeners, hi⟩

theorem mirrors_definition (d : Definition) :
    Stateful.Mirrors Fading.answer World.answer Mirror Caches
      (fun e f => e = f ∧ e.IsWritable) (liftM d.entitlement) (liftM d.entitlement) :=
  Stateful.mirrors_lift <| (mirrors_entitlement d).mono (fun _ _ => id)
    (fun _ _ _ _ ⟨he, hw, h⟩ => ⟨⟨he, hw⟩, h⟩) fun _ _ => id

theorem mirrors_declare (d : Definition) :
    Stateful.Mirrors Fading.answer World.answer Mirror Caches Eq (declare d) (declare d) := by
  refine (mirrors_definition d).bind ?_
  rintro e _ ⟨rfl, he⟩
  refine (mirrors_onBacklog (mirrors_enqueue he)).bind fun _ _ _ => ?_
  refine (Stateful.mirrors_lift (mirrors_count _)).bind fun _ _ _ => ?_
  exact Stateful.mirrors_pure rfl

theorem mirrors_register (d : Definition) :
    Stateful.Mirrors Fading.answer World.answer Mirror Caches Eq (register d) (register d) := by
  refine (mirrors_definition d).bind ?_
  rintro e _ ⟨rfl, he⟩
  refine Stateful.mirrors_get.bind ?_
  rintro _ c ⟨rfl, hc⟩
  refine (mirrors_onBacklog (mirrors_submit (fun _ => mirrors_store hc) he)).bind fun stored _ h => ?_
  refine (Stateful.mirrors_lift (mirrors_count _)).bind fun _ _ _ => ?_
  exact Stateful.mirrors_pure (congrArg (·.getD e) h)

theorem mirrors_ready :
    Stateful.Mirrors Fading.answer World.answer Mirror Caches Eq ready ready := by
  refine Stateful.mirrors_get.bind ?_
  rintro _ c ⟨rfl, hc⟩
  exact mirrors_onBacklog (mirrors_flush (fun _ => mirrors_store hc) (only_publish c))

theorem mirrors_listen (name : String) (l : Listener) :
    Stateful.Mirrors Fading.answer World.answer Mirror Caches Eq (listen (.named name l))
      (listen (.named name l)) := by
  refine Stateful.mirrors_modify ?_
  rintro _ c ⟨rfl, hc⟩
  refine ⟨rfl, fun m hm => ?_, hc.backlog⟩
  rcases List.mem_append.1 hm with hm | hm
  · exact hc.listeners m hm
  · exact ⟨name, l, List.mem_singleton.1 hm⟩

end Entitlements

end AccessControl
