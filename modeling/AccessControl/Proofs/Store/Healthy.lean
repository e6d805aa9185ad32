import AccessControl.Proofs.Program.Interpretation

/-!
A store that does not fail: its calls reply as the tables say.
-/

namespace AccessControl

namespace Faults

variable {κ ε : Type} [DecidableEq κ]

theorem skip_none (k : κ) : (none : Faults κ ε).skip k = none := by
  funext l n
  simp only [skip, none, ite_self]

theorem take_none (ks : List κ) : (none : Faults κ ε).take ks = (.none, none) := by
  induction ks with
  | nil => rfl
  | cons k ks ih =>
    change ((none : Faults κ ε).skip k).take ks = _
    rw [skip_none, ih]

end Faults

open Store

theorem Store.Ledger.call_none (t : Tables) (c : Call) :
    (⟨t, .none⟩ : Ledger).call c = (.ok (t.reply c), ⟨t.after c, .none⟩) := by
  rw [Ledger.call, Faults.take_none]

def World.Stores (t : Tables) (w : World) : Prop :=
  w.ledger = ⟨t, .none⟩

namespace Program

theorem inert_stores (t : Tables) : Inert World.answer (World.Stores t) := by
  intro e he w hw
  cases e with
  | store | cache | database | publish | mint => cases he
  | _ => exact hw

theorem stores_store {t : Tables} {c : Call} (hc : t.after c = t) {w : World}
    (hw : w.Stores t) :
    World.Stores t (w.answer (.store c)).2 ∧ (w.answer (.store c)).1 = .ok (t.reply c) := by
  have h : w.ledger.call c = (.ok (t.reply c), ⟨t, .none⟩) := by
    rw [hw, Ledger.call_none, hc]
  simp only [World.answer, h, World.Stores, and_self]

end Program

end AccessControl
