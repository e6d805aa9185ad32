import AccessControl.Proofs.Administration.Plans
import AccessControl.Proofs.Cache.Lockstep

/-!
Operations in a world that provides the tables. No call of the store fails there, so an operation
makes all calls of its plan, and the world provides the tables which these leave.
-/

namespace AccessControl

open Program Store

theorem Program.Mirrored.leaves {α β σ τ : Type} {E : σ → τ → Prop} {x : Except Error α}
    {y : Except Error β} {s : σ} {t : τ} (h : Mirrored (fun _ _ => E) E x y s t) : E s t := by
  cases h with
  | value h => exact h
  | failure h => exact h

namespace Fading

theorem mirror_lasting {v w : World} (hsame : v.Same w) (hfit : w.IsFit) (hv : v.IsCoherent []) :
    Mirror (lasting v) w :=
  ⟨⟨hsame, hv⟩, hfit⟩

end Fading

namespace World

/-- The world is fit, and what is cached, if there is a cache, is what the store would say. -/
structure IsSettled (cache : Option GrantCache) (w : World) : Prop where
  fit : w.IsFit
  coherent : cache = none ∨ w.IsCoherent []

theorem IsFit.stores {w : World} (h : w.IsFit) : w.Stores w.ledger.tables := by
  rw [World.Stores, ← h.faults]

theorem IsSettled.provides {cache : Option GrantCache} {w : World} (h : w.IsSettled cache) :
    w.Provides ⟨cache⟩ w.ledger.tables :=
  ⟨h.fit.stores, h.coherent.imp_right fun hc => ⟨h.fit, hc⟩⟩

theorem isSettled_of_mirror {v w : World} (h : Fading.Mirror (Fading.lasting v) w)
    (cache : GrantCache) : v.IsSettled (some cache) :=
  ⟨h.copies.same.isFit h.fit, .inr h.copies.coherent⟩

def cleared (w : World) : World := { w with server := .empty }

theorem same_cleared (w : World) : w.cleared.Same w :=
  ⟨rfl, rfl, rfl, rfl⟩

theorem isCoherent_cleared (w : World) : w.cleared.IsCoherent [] where
  faults := rfl
  rows _ _ _ h := nomatch h
  table _ _ h := nomatch h

end World

theorem Store.Ledger.callAll_none (t : Tables) (cs : List Call) :
    (⟨t, .none⟩ : Ledger).callAll cs = (true, ⟨t.afterAll cs, .none⟩) := by
  induction cs generalizing t with
  | nil => rfl
  | cons c cs ih =>
    rw [Ledger.callAll, Ledger.call_none]
    exact ih (t.after c)

namespace Operation

variable {cache : Option GrantCache} {w : World}

theorem mirror_run {v w : World} (h : Fading.Mirror (Fading.lasting v) w) (cache : GrantCache)
    (op : Operation) :
    Fading.Mirror (Fading.lasting ((op.run (some cache)).run v).2) ((op.run none).run w).2 := by
  have hrun := op.mirrors_run cache _ _ h
  rw [Fading.runBy_lasting, runBy_answer] at hrun
  exact hrun.leaves

theorem isSettled_run (h : w.IsSettled cache) (op : Operation) :
    ((op.run cache).run w).2.IsSettled cache := by
  cases cache with
  | some cache =>
    have hcoherent : w.IsCoherent [] := h.coherent.resolve_left (by simp)
    have hmirror := Fading.mirror_lasting (.refl w) h.fit hcoherent
    exact World.isSettled_of_mirror (mirror_run hmirror cache op) cache
  | none =>
    -- the same service with a cache that is still empty goes beside it
    have hmirror := Fading.mirror_lasting w.same_cleared h.fit w.isCoherent_cleared
    exact ⟨(mirror_run hmirror {} op).fit, .inl rfl⟩

theorem stores_run {t : Tables} (hw : w.Stores t) (cache : Option GrantCache) (op : Operation) :
    let x := op.plan t (identifier w.minted) w.clock
    ((op.run cache).run w).1.isOk = !x.refuses ∧
      ((op.run cache).run w).2.Stores (t.afterAll x.calls) := by
  intro x
  have htables : w.ledger.tables = t := by rw [hw]
  obtain ⟨hledger, hok⟩ := op.obeys_change t w.minted w.clock w htables rfl rfl
  rw [hw, Ledger.callAll_none, Bool.true_and] at hok
  rw [hw, Ledger.callAll_none] at hledger
  rw [run_eq, run_bind]
  revert hok hledger
  rcases op.change.run w with ⟨e | u, v⟩
  · exact fun hledger hok => ⟨hok, hledger⟩
  · obtain ⟨v', hv', hbeside⟩ := exists_run_settle cache u v
    simp only [hv']
    exact fun hledger hok => ⟨hok, hbeside.ledger.trans hledger⟩

theorem provides_run {t : Tables} (hw : w.Provides ⟨cache⟩ t) (op : Operation) :
    let x := op.plan t (identifier w.minted) w.clock
    ((op.run cache).run w).1.isOk = !x.refuses ∧
      ((op.run cache).run w).2.Provides ⟨cache⟩ (t.afterAll x.calls) := by
  obtain ⟨hok, hstores⟩ := op.stores_run hw.1 cache
  refine ⟨hok, hstores, ?_⟩
  rcases hw.2 with hnone | ⟨hfit, hcoherent⟩
  · exact .inl hnone
  · have hbefore : w.IsSettled cache := ⟨hfit, .inr hcoherent⟩
    have hsettled := isSettled_run hbefore op
    exact hsettled.coherent.imp_right fun hc => ⟨hsettled.fit, hc⟩

theorem provides_run_ok {t : Tables} (hw : w.Provides ⟨cache⟩ t) {op : Operation}
    (hok : ((op.run cache).run w).1 = .ok ()) :
    let x := op.plan t (identifier w.minted) w.clock
    x.refuses = false ∧ ((op.run cache).run w).2.Provides ⟨cache⟩ (t.afterAll x.calls) := by
  obtain ⟨hplan, hprovides⟩ := op.provides_run hw
  rw [hok] at hplan
  refine ⟨?_, hprovides⟩
  rw [← Bool.not_eq_true']
  exact hplan.symm

end Operation

end AccessControl
