import AccessControl.Proofs.Decision.Provided
import AccessControl.Proofs.Grant.Equivalence
import AccessControl.Proofs.Pipe.Failing

/-!
Streams in a world that provides the tables. What evaluations and streams come to does not tell tables
apart whose entitlements stand for equivalent capabilities.
-/

namespace AccessControl

open Program Store

variable {f : Filter} {t u : Tables} {w : World}

namespace Pipe

theorem run_results_provided (hw : w.Provides f.authority.grants t) (account : Account)
    (action : String) (listener : Option Listener) (records : List Record) :
    ((results f { account, action, listener } records).run w).1 =
      .ok (records.map fun record =>
        some (fields f { account, action, listener } record (standingBy f t account))) := by
  refine hw.run_eq fun hs hne => ?_
  have hstanding := comes_standing (f := f) (p := { account, action, listener })
    (compositional_settles hs.inert) (Grants.settles_ofAccount hs account.id)
  exact settles_results hs.inert hne account action listener hstanding records

theorem fields_of_visible {s s' : Snapshot} {p : Pipe} {record : Record}
    (h : f.visible s record p.action = f.visible s' record p.action) :
    p.fields f record (.ok (.grants s)) = p.fields f record (.ok (.grants s')) := by
  have hshown : p.shownFields f record (.grants s) = p.shownFields f record (.grants s') := by
    rw [shownFields, shownFields, h]
  rw [fields, fields, concludedFields, concludedFields, Outcome.ok_bind, Outcome.ok_bind, hshown]

theorem fields_of_equivalent (h : t.Equivalent u) (p : Pipe) (record : Record) :
    p.fields f record (standingBy f t p.account) = p.fields f record (standingBy f u p.account) := by
  rw [standingBy, standingBy]
  cases f.authority.policy.privilege (some p.account) with
  | error e => rfl
  | ok privileged =>
    cases privileged with
    | true => rfl
    | false =>
      have hsnapshot : Snapshot.Equivalent ⟨p.account.id, t.grantsOf p.account.id⟩
          ⟨p.account.id, u.grantsOf p.account.id⟩ := h.grantsOf p.account.id
      exact fields_of_visible (hsnapshot.visible f record p.action)

end Pipe

/-- Whatever is evaluated or streamed comes to the same over either tables. -/
structure Store.Tables.Indistinct (t u : Tables) : Prop where
  ask : ∀ (f : Filter) (q : Evaluation) (v w : World), v.Provides f.authority.grants t →
    w.Provides f.authority.grants u → ((q.ask f).run v).1 = ((q.ask f).run w).1
  results : ∀ (f : Filter) (account : Account) (action : String) (listener : Option Listener)
    (records : List Record) (v w : World), v.Provides f.authority.grants t →
    w.Provides f.authority.grants u →
    ((Pipe.results f { account, action, listener } records).run v).1 =
      ((Pipe.results f { account, action, listener } records).run w).1

theorem Store.Tables.Equivalent.indistinct (h : t.Equivalent u) : t.Indistinct u where
  ask f q v w hv hw := by
    rw [hv.run_ask, hw.run_ask, (h.snapshot q).told_eq]
  results f account action listener records v w hv hw := by
    rw [Pipe.run_results_provided hv, Pipe.run_results_provided hw]
    have hfields (record : Record) := Pipe.fields_of_equivalent (f := f) h
      { account, action, listener } record
    simp only [hfields]

end AccessControl
