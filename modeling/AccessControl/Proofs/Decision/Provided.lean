import AccessControl.Proofs.Cache.Fading
import AccessControl.Proofs.Decision.Composition

/-!
Evaluations in a world that provides the tables: their answers follow from these.
-/

namespace AccessControl

open Program Store

/-- What a program comes to in every world that provides the tables. -/
def Program.ComesOver {α : Type} (grants : Grants) (t : Tables) (p : Program α)
    (x : Except Error α) : Prop :=
  ∀ w : World, w.Provides grants t → (p.run w).1 = x

variable {f : Filter} {t : Tables} {w : World}

theorem World.Provides.run_grants (hw : w.Provides f.authority.grants t) (q : Evaluation) :
    ((q.grants f).run w).1 = .ok (q.snapshot t) :=
  hw.run_eq fun hs _ => settles_of_yields (q.yields_grants hs rfl)

theorem World.Provides.run_ask (hw : w.Provides f.authority.grants t) (q : Evaluation) :
    ((q.ask f).run w).1 = (q.told f (q.snapshot t)).map Prod.fst :=
  q.run_ask f (hw.run_grants q)

end AccessControl
