import AccessControl.Proofs.Administration.Isolation
import AccessControl.Proofs.Pipe.Veiling

/-!
Failures are never taken for answers. While the store and the cache server fail, in whatever
pattern, a filter answers as it does while the store does not fail, or it fails as an operation of
the store; and nobody is told what the reason was.
-/

namespace AccessControl

open Program Store Pipe
open Error (Shown Barring IsSealed)

namespace Filter

/-- In a world, whatever a filter is asked, it comes to the same as in another world `v`, or it
fails as an operation of the store. -/
structure FailsOrAgrees (f : Filter) (v w : World) : Prop where
  evaluation (q : Evaluation) :
    Barring (IsSealed q.operations) ((q.ask f).run v).1 ((q.ask f).run w).1
  demand (account : Account) (record : Record) (action : Action) :
    Barring (IsSealed Grants.accountOperations) ((f.authority.demand account record action).run v).1
      ((f.authority.demand account record action).run w).1
  creation (account : Account) (entityType : String) (attributes : Value) :
    Barring (IsSealed Grants.accountOperations)
      ((f.authority.demandCreation account entityType attributes).run v).1
      ((f.authority.demandCreation account entityType attributes).run w).1
  stream (account : Account) (action : String) (listener : Option Listener)
    (records : List Record) :
    ∃ zs ys, ((results f { account, action, listener } records).run v).1 = .ok (zs.map some) ∧
      ((results f { account, action, listener } records).run w).1 = .ok (ys.map some) ∧
      List.Forall₂ (Barring (IsSealed Grants.accountOperations)) zs ys
  /-- Records come together, after others have come. What a call has shown by the time the turns are
  over is what its record shows alone. -/
  together (account : Account) (action : String) (listener : Option Listener)
    (earlier records : List Record) :
    ∃ q, ((do feed f (← serve f { account, action, listener } earlier) records).run w).1 = .ok q ∧
      ∀ record y, (record, some y) ∈ q.shows →
        ∃ z, ((results f { account, action, listener } [record]).run v).1 = .ok [some z] ∧
          Barring (IsSealed Grants.accountOperations) z y

/-- Whatever a filter is asked, it tells the same in two worlds. -/
structure TellsSame (f : Filter) (v w : World) : Prop where
  evaluation (q : Evaluation) : ((q.ask f).run v).1 = ((q.ask f).run w).1
  demand (account : Account) (record : Record) (action : Action) :
    ((f.authority.demand account record action).run v).1 =
      ((f.authority.demand account record action).run w).1
  creation (account : Account) (entityType : String) (attributes : Value) :
    ((f.authority.demandCreation account entityType attributes).run v).1 =
      ((f.authority.demandCreation account entityType attributes).run w).1
  stream (account : Account) (action : String) (listener : Option Listener)
    (records : List Record) :
    ((results f { account, action, listener } records).run v).1 =
      ((results f { account, action, listener } records).run w).1
  together (account : Account) (action : String) (listener : Option Listener)
    (earlier records : List Record) :
    ((do
      let p ← serve f { account, action, listener } earlier
      return (← feed f p records).shows).run v).1 =
      ((do
        let p ← serve f { account, action, listener } earlier
        return (← feed f p records).shows).run w).1

theorem tellsSame_of_masks (f : Filter) {v w : World} (h : v.Masks w) : f.TellsSame v w where
  evaluation q := ((q.veiled_ask f).run h).eq
  demand account record action :=
    ((closed_veiled.denied (closed_veiled.bind
      ((Evaluation.access account [record] action).veiled_ask f) fun _ => closed_veiled.pure _)
        _).run h).eq
  creation account entityType attributes :=
    ((closed_veiled.denied ((Evaluation.creation account entityType attributes).veiled_ask f)
      _).run h).eq
  stream account action listener records :=
    ((veiled_results f account action listener records).run h).eq
  together account action listener earlier records := by
    have hshown (q q' : Pipe) (hq : q.Veiled q') :
        Program.Veiled (Shown fun _ => True) (pure q.shows) (pure q'.shows) := by
      rw [hq.shows_eq]
      exact .done (.value _)
    exact ((((veiled_refl account action listener).serve earlier).pair_bind fun _ _ hp =>
      (hp.feed records).pair_bind hshown).run h).eq

/-- Failures are never taken for answers. -/
theorem fails_or_agrees (f : Filter) {t : Tables}
    (ht : f.authority.grants.cache.isSome → t.IsWritable) {v w : World}
    (hv : v.Falters t f.authority.grants.cache) (hnone : v.ledger.faults = .none)
    (hw : w.Falters t f.authority.grants.cache) :
    f.FailsOrAgrees v w ∧ (∀ w', w.Masks w' → f.TellsSame w w') ∧
      ∀ operations e, IsSealed operations e → ∃ operation ∈ operations, e.report? =
        some ⟨.storage, "STORAGE_ERROR", "Internal storage error",
          [("operation", .text operation)]⟩ := by
  have hcompositional := compositional_withstands ht (IsSealed Grants.accountOperations)
  refine ⟨?_, fun w' => tellsSame_of_masks f, fun operations e => IsSealed.report⟩
  exact {
    evaluation q := (q.withstands_ask ht).run hv hnone hw
    demand account record action :=
      (Authority.comes_demand hcompositional
        ((Evaluation.access account [record] action).withstands_ask ht)).run hv hnone hw
    creation account entityType attributes :=
      (Authority.comes_demandCreation hcompositional
        ((Evaluation.creation account entityType attributes).withstands_ask ht)).run hv hnone hw
    stream account action listener records :=
      results_withstand ht account action listener hv hnone hw records
    together account action listener earlier records :=
      feed_withstands ht account action listener hv hnone hw earlier records }

/-! Ann may export. Once the entitlements cannot be read, while what is cached of her makes no sense
and nothing can be written to the cache. -/

section Example

open Evaluation (alone holding)

def cached : Filter := ⟨⟨⟨{}, ⟨fun _ => .ok false, false⟩⟩, ⟨some {}⟩⟩, {}⟩

def exportsOfAnn : Evaluation := .unlocking { id := "ann" } (.text "export") .null

def nonsense : Cache.Entry := ⟨GrantCache.accountKey "ann", none, "nonsense"⟩

def faltering (e : Error) : World :=
  { holding alone with
    ledger := ⟨alone, Faults.none.plan .entitlements e (some 1)⟩
    server :=
      { entries := ⟨[nonsense], List.nodup_singleton _⟩
        faults := fun verb _ => if verb = .set then some "down" else none } }

theorem isWritable_alone : alone.IsWritable := by
  have hdated : (Instant.ofSeconds 0).IsDated := by decide
  refine Tables.isWritable_of_dated (fun account => ⟨fun _ h => ?_, fun r hr => ?_⟩) fun e he => ?_
  · exact absurd h List.not_mem_nil
  · obtain rfl := List.mem_singleton.1 (List.mem_filter.1 hr).1
    exact hdated
  · obtain rfl := List.mem_singleton.1 he
    exact ⟨fun _ h => absurd h List.not_mem_nil, hdated, hdated⟩

theorem areOutside_none : (Faults.none : Faults Method Error).AreOutside :=
  fun _ _ _ h => nomatch h

theorem falters_holding : (holding alone).Falters alone (some {}) where
  tables := rfl
  faults := areOutside_none
  rows _ _ _ h := nomatch h
  listing _ _ h := nomatch h

variable {e e' : Error} (he : e.isOwn = false ∧ e ≠ .cancelled)

include he

theorem falters_faltering : (faltering e).Falters alone (some {}) where
  tables := rfl
  faults := areOutside_none.plan he _ _
  rows _ account text h now rows hread := by
    obtain ⟨entry, hget, rfl⟩ := Option.map_eq_some_iff.1 h
    obtain rfl : entry = nonsense := List.mem_singleton.1 (Table.get?_eq_some_iff.1 hget).1
    cases hread
  listing _ text h := by
    obtain ⟨entry, hget, -⟩ := Option.map_eq_some_iff.1 h
    obtain ⟨hentry, hkey⟩ := Table.get?_eq_some_iff.1 hget
    obtain rfl : entry = nonsense := List.mem_singleton.1 hentry
    exact absurd hkey (GrantCache.accountKey_ne_entitlementsKey "ann")

theorem masks_faltering (he' : e'.isOwn = false ∧ e' ≠ .cancelled) :
    (faltering e).Masks (faltering e') where
  same := rfl
  faults := areOutside_none.masks_plan he he' _ _

omit he in
theorem fails_or_agrees_of_nonsense :
    cached.FailsOrAgrees (holding alone) (faltering (.outside .database "disk full")) ∧
      cached.TellsSame (faltering (.outside .database "disk full"))
        (faltering (.outside .system "no such file")) ∧
      ((exportsOfAnn.ask cached).run (holding alone)).1 = .ok true ∧
      ((exportsOfAnn.ask cached).run (faltering (.outside .system "no such file"))).1 =
        .error (.storage "all_entitlements") := by
  have hfull := falters_faltering (e := .outside .database "disk full") ⟨rfl, nofun⟩
  obtain ⟨hagrees, hsame, -⟩ :=
    fails_or_agrees cached (fun _ => isWritable_alone) falters_holding rfl hfull
  exact ⟨hagrees, hsame _ (masks_faltering ⟨rfl, nofun⟩ ⟨rfl, nofun⟩), rfl, rfl⟩

end Example

end Filter

end AccessControl
