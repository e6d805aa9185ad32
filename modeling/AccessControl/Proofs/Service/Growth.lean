import AccessControl.Proofs.Administration.Growth
import AccessControl.Proofs.Service.Transparency

/-!
Grants and revocations over the time of a service. In every state that it gets to, a grant only adds to
what is allowed and shown, and a revocation or a deletion only takes from it; and a grant that is revoked
leaves no trace.
-/

namespace AccessControl

open Program Store Outcome

namespace Service

open Fading (Mirror lasting mirror_lasting)

variable {α : Type} {cache : Option GrantCache}

/-! Where nothing expires, the service itself is run. -/

theorem take_lasting (p : Stateful Service α) (c : Service) (w : World) :
    take Fading.answer p c (lasting w) =
      ((take World.answer p c w).1, (take World.answer p c w).2.1,
        lasting (take World.answer p c w).2.2) := by
  rw [take, take, Fading.runBy_lasting, runBy_answer]
  rcases (p c).run w with ⟨e | ⟨r, c'⟩, w'⟩ <;> rfl

theorem runAll_lasting (es : List Event) (c : Service) (w : World) :
    runAll Fading.answer Fading.later es c (lasting w) =
      ((runAll World.answer World.later es c w).1, (runAll World.answer World.later es c w).2.1,
        lasting (runAll World.answer World.later es c w).2.2) := by
  induction es generalizing c w with
  | nil => rfl
  | cons e es ih =>
    have htaken := take_lasting e.step.run c (w.later e.time)
    have hlater : Fading.later e.time (lasting w) = lasting (w.later e.time) := rfl
    rw [runAll, runAll, hlater, htaken, ih]

/-- A service with a cache and the same service without one, beside each other. -/
theorem isSettled_runAll {cache : GrantCache} {x y : Service × World}
    (h : Beside cache (x.1, lasting x.2) y) (es : List Event) :
    (runAll World.answer World.later es x.1 x.2).2.2.IsSettled (some cache) ∧
      (runAll World.answer World.later es y.1 y.2).2.2.IsSettled none := by
  have hmirror := (runAll_beside es h).2.2
  rw [runAll_lasting] at hmirror
  exact ⟨World.isSettled_of_mirror hmirror cache, hmirror.fit, .inl rfl⟩

theorem isSettled_taken {cache : GrantCache} {p q : Stateful Service α} {c' c : Service} {w : World}
    (h : Program.Mirrors Fading.answer World.answer Mirror (p c') (q c)
      (fun x y s w => Stateful.Agree Eq x.1 y.1 ∧ Caches cache x.2 y.2 ∧ Mirror s w)
      fun _ _ => False) (hw : Mirror (lasting w) w) (es : List Event) :
    let x := (take World.answer p c' w).2
    let y := (take World.answer q c w).2
    (runAll World.answer World.later es x.1 x.2).2.2.IsSettled (some cache) ∧
      (runAll World.answer World.later es y.1 y.2).2.2.IsSettled none := by
  have hset := (take_beside h hw).2
  rw [take_lasting] at hset
  exact isSettled_runAll hset es

theorem isSettled_serve (name : String) (policy : Policy) (listing : Option String)
    (cache : Option GrantCache) (events : List Event) {w : World} (hw : w.IsFit)
    (hserver : w.server = .empty) :
    (serve World.answer World.later (bare name policy listing cache) events w).2.2.IsSettled cache := by
  have hstart : Mirror (lasting w) w := mirror_start hw hserver _
  have hsettled (cache : GrantCache) :=
    isSettled_taken (mirrors_setUp cache name policy listing) hstart events
  cases cache with
  | some cache => exact (hsettled cache).1
  | none => exact (hsettled {}).2

theorem grows_ask {f : Filter} {t u : Tables} {v w : World} (hv : v.Provides f.authority.grants t)
    (hw : w.Provides f.authority.grants u) (h : t.Extends u) (q : Evaluation) :
    Grows q.AtMost q.IsTyped ((q.ask f).run v).1 ((q.ask f).run w).1 := by
  rw [hv.run_ask q, hw.run_ask q]
  exact q.grows_told (h.snapshot q)

/-- In every state that a service gets to, a grant that succeeds takes nothing from what is allowed and
shown, and a revocation or a deletion adds nothing to it. A grant that changes the tables can be revoked,
and they are the same then as before, with all answers. -/
theorem grants_grow (name : String) (policy : Policy) (listing : Option String)
    (cache : Option GrantCache) (events : List Event) {w : World} (hw : w.IsFit)
    (hserver : w.server = .empty) :
    let v := (serve World.answer World.later (bare name policy listing cache) events w).2.2
    ∀ op : Operation, ((op.run cache).run v).1 = .ok () →
      let v' := ((op.run cache).run v).2
      let answer (f : Filter) (q : Evaluation) (u : World) := ((q.ask f).run u).1
      (∀ f : Filter, f.authority.grants = ⟨cache⟩ → ∀ q : Evaluation,
        (op.inverse?.isSome = true → Grows q.AtMost q.IsTyped (answer f q v) (answer f q v')) ∧
        (op.isRemoval = true → Grows q.AtMost q.IsTyped (answer f q v') (answer f q v))) ∧
      ∀ back, op.inverse? = some back → v'.ledger.tables ≠ v.ledger.tables →
        ∃ v'', (back.run cache).run v' = (.ok (), v'') ∧ v''.ledger.tables = v.ledger.tables ∧
          ∀ f : Filter, f.authority.grants = ⟨cache⟩ → ∀ q, answer f q v'' = answer f q v := by
  intro v op hok v' answer
  have hv : v.IsSettled cache := isSettled_serve name policy listing cache events hw hserver
  have hbefore := hv.provides
  obtain ⟨hrefuses, hafter⟩ := Operation.provides_run_ok hbefore hok
  change v'.Provides ⟨cache⟩ _ at hafter
  have htables := congrArg Ledger.tables hafter.1
  refine ⟨fun f hf q => ⟨fun hop => ?_, fun hop => ?_⟩, fun back hback hne => ?_⟩
  · rw [← hf] at hbefore hafter
    exact grows_ask hbefore hafter (Operation.extends_plan hv.fit.tables hop) q
  · rw [← hf] at hbefore hafter
    exact grows_ask hafter hbefore (Operation.plan_extends hop) q
  · obtain ⟨hmade, hrestored⟩ := Operation.restores_plan hv.fit.tables hback hrefuses htables.symm hne
      (identifier v'.minted) v'.clock
    have hreached : v'.Provides ⟨cache⟩ v'.ledger.tables := htables ▸ hafter
    obtain ⟨hok', hprovides⟩ := Operation.provides_run hreached back
    rw [hmade] at hok'
    rw [hrestored] at hprovides
    rcases hrun : (back.run cache).run v' with ⟨e | u, v''⟩
    · rw [hrun] at hok'
      cases hok'
    · rw [hrun] at hprovides
      change v''.Provides ⟨cache⟩ _ at hprovides
      refine ⟨v'', rfl, by rw [hprovides.1], fun f hf q => ?_⟩
      rw [← hf] at hbefore hprovides
      exact (hprovides.run_ask q).trans (hbefore.run_ask q).symm

/-! Ann becomes an analyst, who may export, and is none again. -/

def analysing : List Event :=
  let event (step : Step) : Event := ⟨step, .ofSeconds 60, isDated_minute⟩
  let definition : Entitlements.Definition :=
    { name := .text "export", description := "", group := "", features := ["export"]
      defaultFeatureScopes := ["*"] }
  [event .start, event (.administer (.createRole "analyst" "")), event (.register definition),
    event (.administer (.grantRoleRuleset (identifier 3) "export" "t1" "" "" (.list [])))]

def analysts : Filter :=
  ⟨⟨⟨{}, hasFlag⟩, ⟨some {}⟩⟩, {}⟩

abbrev annExports : Evaluation :=
  .unlocking { id := "ann" } (.text "export") .null

theorem grants_grow_of_analysing :
    let v := (serve World.answer World.later (bare "permissions" ⟨{}, hasFlag⟩ none (some {}))
      analysing founding).2.2
    let v' := (((Operation.grantMembership (identifier 3) "ann").run (some {})).run v).2
    let answer (u : World) := ((annExports.ask analysts).run u).1
    founding.IsFit ∧ founding.server = .empty ∧ answer v = .ok false ∧
      Grows annExports.AtMost annExports.IsTyped (answer v) (answer v') ∧ answer v' = .ok true ∧
      ∃ v'', ((Operation.revokeMembership (identifier 3) "ann").run (some {})).run v' = (.ok (), v'') ∧
        v''.ledger.tables = v.ledger.tables ∧ answer v'' = .ok false := by
  intro v v' answer
  have hbefore : answer v = .ok false := by decide +kernel
  have hafter : answer v' = .ok true := by decide +kernel
  have hnew : v'.ledger.tables ≠ v.ledger.tables := by decide +kernel
  obtain ⟨hgrows, hback⟩ := grants_grow "permissions" ⟨{}, hasFlag⟩ none (some {}) analysing
    isFit_founding rfl (.grantMembership (identifier 3) "ann") (by decide +kernel)
  obtain ⟨v'', hrun, htables, hsame⟩ := hback (.revokeMembership (identifier 3) "ann") rfl hnew
  refine ⟨isFit_founding, rfl, hbefore, (hgrows analysts rfl annExports).1 rfl, hafter, v'', hrun,
    htables, (hsame analysts rfl annExports).trans hbefore⟩

end Service

end AccessControl
