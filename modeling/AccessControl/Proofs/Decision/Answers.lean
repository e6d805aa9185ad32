import AccessControl.Proofs.Decision.Keeping
import AccessControl.Proofs.Grant.Resolution

/-!
Answers that follow from the tables: how the rows are supplied makes no difference.
-/

namespace AccessControl

open Program Store

variable {σ : Type} {ι : Interpreter σ} {I : σ → Prop} {t : Tables} {cache : Option GrantCache}

abbrev SuppliesRows (ι : Interpreter σ) (I : σ → Prop) (mayFail : Prop) (t : Tables)
    (cache : Option GrantCache) : Prop :=
  Supplies ι I mayFail t cache (fun a rows => rows = t.reachable a) (· = t.entitlements.rows)

abbrev SuppliesAll (ι : Interpreter σ) (I : σ → Prop) (t : Tables) (cache : Option GrantCache) :
    Prop :=
  SuppliesRows ι I False t cache

def Store.Tables.grantsOfRoles (t : Tables) (roles : List String) : List Grant :=
  ((t.rulesetsHeldBy roles).map .role).filterMap t.grant?

theorem Program.settles_of_yields {α : Type} {p : Program α} {a : α}
    (h : Yields ι I False p (· = a)) : Settles ι I p (.ok a) := by
  refine Upholds.mono h fun r hr => ?_
  obtain ⟨b, hr, hb⟩ := hr.of_not id
  rw [hr, hb]

namespace Grants

variable {mayFail : Prop}

theorem yields_grantsOf (h : SuppliesRows ι I mayFail t cache) (account : String) :
    Yields ι I mayFail (Grants.ofAccount ⟨cache⟩ account)
      (· = ⟨account, t.grantsOf account⟩) := by
  refine (yields_ofAccount h account).mono ?_
  rintro s ⟨_, _, rfl, rfl, rfl⟩
  rw [t.grant?_ofEntitlements]
  rfl

theorem yields_grantsOfRoles (h : SuppliesRows ι I mayFail t cache) (roles : List String) :
    Yields ι I mayFail (Grants.ofRoles ⟨cache⟩ roles)
      (· = ⟨subjectOfRoles roles, t.grantsOfRoles roles⟩) := by
  refine (yields_ofRoles h roles).mono ?_
  rintro s ⟨_, rfl, rfl⟩
  rw [t.grant?_ofEntitlements]
  rfl

theorem settles_ofAccount (h : SuppliesAll ι I t cache) (account : String) :
    Settles ι I (Grants.ofAccount ⟨cache⟩ account) (.ok ⟨account, t.grantsOf account⟩) :=
  settles_of_yields (yields_grantsOf h account)

end Grants

namespace Evaluation

variable {f : Filter}

def snapshot (t : Tables) : Evaluation → Snapshot
  | .creation account .. | .access account .. | .unlocking account .. | .filtering account .. =>
    ⟨account.id, t.grantsOf account.id⟩
  | .accessOfRoles roles .. => ⟨Grants.subjectOfRoles roles, t.grantsOfRoles roles⟩

theorem yields_grants {mayFail : Prop} (h : SuppliesRows ι I mayFail t cache)
    (hf : f.authority.grants = ⟨cache⟩) (q : Evaluation) :
    Yields ι I mayFail (q.grants f) (· = q.snapshot t) := by
  cases q with
  | accessOfRoles roles =>
    rw [grants, hf]
    exact Grants.yields_grantsOfRoles h roles
  | creation account | access account | unlocking account | filtering account =>
    rw [grants, hf]
    exact Grants.yields_grantsOf h account.id

end Evaluation

end AccessControl
