import AccessControl.Proofs.Decision.Composition
import AccessControl.Proofs.Decision.Keeping
import AccessControl.Proofs.Grant.Failing

/-!
Evaluations while the store and the cache server fail. What is decided is decided on the grants of
the tables; when they cannot be had, the evaluation fails, and no decision is made in their place.
-/

namespace AccessControl

open Program Store
open Error (Shown)

namespace Program

variable {σ α β : Type} {ι : Interpreter σ} {I : σ → Prop} {kind : Error → Prop}

theorem Upholds.barring_bind {p : Program α} {x : Except Error α} {f : α → Program β}
    {y : α → Except Error β} (hp : p.Upholds ι I (Error.Barring kind x))
    (hf : ∀ a, x = .ok a → (f a).Upholds ι I (Error.Barring kind (y a))) :
    (p >>= f).Upholds ι I (Error.Barring kind (x >>= y)) := by
  refine Upholds.bind hp ?_ ?_
  · rintro a (rfl | ⟨e, -, hr⟩)
    · exact hf a rfl
    · cases hr
  · rintro e (rfl | ⟨e', he, hr⟩)
    · exact .inl rfl
    · exact .inr ⟨e', he, congrArg _ (Except.error.inj hr)⟩

theorem Settles.barring {p : Program α} {x : Except Error α} (hp : Settles ι I p x) :
    p.Upholds ι I (Error.Barring kind x) :=
  Upholds.mono hp fun _ => .inl

theorem compositional_barring (hI : Inert ι I) (kind : Error → Prop) :
    Compositional fun p x => p.Upholds ι I (Error.Barring kind x) where
  fixed hp := (hp.settles hI fun _ => id).barring
  bind hp hf := hp.barring_bind hf
  within hp b := Upholds.within hI hp b

/-- What a program comes to while the store does not fail, it comes to in any case, unless it fails
with an error of a kind. -/
structure Withstands (t : Tables) (cache : Option GrantCache) (kind : Error → Prop) (p : Program α)
    (x : Except Error α) : Prop where
  faultless : Settles World.answer (fun v => v.Falters t cache ∧ v.ledger.faults = .none) p x
  faltering : p.Upholds World.answer (World.Falters t cache) (Error.Barring kind x)

theorem Withstands.run {t : Tables} {cache : Option GrantCache} {p : Program α}
    {x : Except Error α} (h : Withstands t cache kind p x) {v w : World} (hv : v.Falters t cache)
    (hnone : v.ledger.faults = .none) (hw : w.Falters t cache) :
    Error.Barring kind (p.run v).1 (p.run w).1 := by
  have hleft := (h.faultless.run ⟨hv, hnone⟩).1
  have hright := (h.faltering.run hw).1
  rw [runBy_answer] at hleft hright
  rwa [hleft]

theorem compositional_withstands {t : Tables} {cache : Option GrantCache}
    (ht : cache.isSome → t.IsWritable) (kind : Error → Prop) :
    Compositional (Withstands t cache kind) where
  fixed hp :=
    ⟨(compositional_settles (supplies_faultless ht).inert).fixed hp,
      (compositional_barring (supplies_falters ht).inert kind).fixed hp⟩
  bind hp hf :=
    ⟨(compositional_settles (supplies_faultless ht).inert).bind hp.faultless
        fun a ha => (hf a ha).faultless,
      hp.faltering.barring_bind fun a ha => (hf a ha).faltering⟩
  within hp b :=
    ⟨Upholds.within (supplies_faultless ht).inert hp.faultless b,
      Upholds.within (supplies_falters ht).inert hp.faltering b⟩

theorem Veiled.attempted {kind : Error → Prop} {p p' : Program α}
    (h : Veiled (Shown kind) p p') : Veiled (Shown kind) p.attempt p'.attempt := by
  refine h.attempt.mono fun r r' hr => ?_
  cases hr with
  | value h =>
    cases h
    exact .value _
  | failure h =>
    cases h
    exact .value _

theorem Veiled.withstands {p : Program α} {a : α} {t : Tables} {cache : Option GrantCache}
    (h : Veiled (Shown kind) p p) (ht : cache.isSome → t.IsWritable)
    (hp : ∀ {I : World → Prop} {mayFail : Prop}, SuppliesRows World.answer I mayFail t cache →
      Yields World.answer I mayFail p (· = a)) :
    Withstands t cache kind p (.ok a) where
  faultless := settles_of_yields (hp (supplies_faultless ht))
  faltering := by
    refine Upholds.mono (h.upholds (fun c _ hw => hw.hidden c) (hp (supplies_falters ht))) ?_
    rintro (e | b) ⟨hb, r', hr⟩
    · exact .inr ⟨e, hr.of_error, rfl⟩
    · exact .inl (congrArg _ hb)

theorem closed_veiled : Closed fun p => Veiled (Shown fun _ => True) p p where
  ofExcept _ := veiled_shown fun _ _ => trivial
  quiet he := veiled_perform (Effect.isElsewhere_of_isQuiet _ he)
  bind hp hf := hp.shown_bind hf
  attempt hp := hp.attempted

end Program

namespace Evaluation

/-- The operations of the store of which an evaluation may tell that they failed. -/
def operations : Evaluation → List String
  | .accessOfRoles .. => Grants.roleOperations
  | _ => Grants.accountOperations

theorem veiled_grants (f : Filter) (q : Evaluation) :
    Veiled (Shown (Error.IsSealed q.operations)) (q.grants f) (q.grants f) := by
  cases q with
  | accessOfRoles roles => exact Grants.veiled_sealedRoles _ roles
  | creation account | access account | unlocking account | filtering account =>
    exact Grants.veiled_sealed _ account.id

/-- An evaluation comes to the answer that follows from the tables, unless it fails as an operation
of the store. -/
theorem withstands_ask {f : Filter} {t : Tables}
    (ht : f.authority.grants.cache.isSome → t.IsWritable) (q : Evaluation) :
    Withstands t f.authority.grants.cache (Error.IsSealed q.operations) (q.ask f)
      ((q.told f (q.snapshot t)).map Prod.fst) :=
  comes_ask (compositional_withstands ht _) fun _ _ _ _ _ =>
    (q.veiled_grants f).withstands ht fun h => q.yields_grants h rfl

theorem veiled_ask (f : Filter) (q : Evaluation) :
    Veiled (Shown fun _ => True) (q.ask f) (q.ask f) :=
  closed_veiled.ask ((veiled_grants f q).mono fun _ _ h => h.mono fun _ _ => trivial)

end Evaluation

end AccessControl
