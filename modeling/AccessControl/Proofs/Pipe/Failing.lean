import AccessControl.Proofs.Decision.Failing
import AccessControl.Proofs.Pipe.Keeping
import AccessControl.Proofs.Pipe.Sequence

/-!
Pipes while the store and the cache server fail. Whatever a record shows follows from how the
account stands in the tables, or the call fails as an operation of the store.
-/

namespace AccessControl

open Program Store
open Error (Shown)

namespace Pipe

variable {σ : Type} {ι : Interpreter σ} {I : σ → Prop} {S : Except Error Standing → Prop}
  {f : Filter} {start p : Pipe}

/-! In any order of the calls. -/

def Showing (f : Filter) (start : Pipe) (S : Except Error Standing → Prop) (record : Record)
    (y : Except Error Value.Fields) : Prop :=
  ∃ x, S x ∧ y = start.fields f record x

theorem Showing.concluded {record : Record} {x : Except Error Standing}
    (h : start.blockedFields f record = .ok none) (hx : S x) :
    Showing f start S record (start.concludedFields f record x) :=
  ⟨x, hx, by rw [fields, h]; rfl⟩

def Law.answering (hI : Inert ι I) (hne : ∃ s, I s)
    (hstanding : (start.standing f).Upholds ι I S) : Law ι I f start where
  stage record
    | .checking rest => Settles ι I rest (start.blockedFields f record)
    | .waiting => start.blockedFields f record = .ok none
    | .showing rest => rest.Upholds ι I (Showing f start S record)
    | .ended y => Showing f start S record y
  search rest := rest.Upholds ι I S
  ending := S
  arrives record := settles_blocked? hI start record
  checks {record rest} h := (Upholds.turn h hne).mono fun progress hprogress => by
    -- a call that is blocked shows the same, however the account stands
    obtain ⟨x, hx⟩ : ∃ x, S x := by
      obtain ⟨s, hs⟩ := hne
      exact ⟨_, (hstanding.run hs).1⟩
    rcases progress with rest | e | _ | visible
    · exact hprogress
    · have he : .error e = start.blockedFields f record := hprogress
      exact ⟨x, hx, by rw [fields, ← he]; rfl⟩
    · exact Eq.symm hprogress
    · have hvisible : .ok (some visible) = start.blockedFields f record := hprogress
      exact ⟨x, hx, by rw [fields, ← hvisible]; rfl⟩
  concludes {record ending} hwaiting hx :=
    Upholds.mono (settles_conclude hI start record ending) fun _ hr =>
      hr ▸ Showing.concluded hwaiting hx
  shows h := (Upholds.turn h hne).mono fun progress hprogress => by
    cases progress <;> exact hprogress
  starts := hstanding
  searches h := (Upholds.turn h hne).mono fun progress hprogress => by
    cases progress <;> exact hprogress

theorem Law.holds_new {account : Account} {action : String} {listener : Option Listener}
    (L : Law ι I f { account, action, listener }) : L.Holds { account, action, listener } where
  account := rfl
  action := rfl
  listener := rfl
  calls _ h := absurd h List.not_mem_nil
  finding _ h := nomatch h
  resolution := Once.ends_empty

/-! In a world that fails. -/

variable {kind : Error → Prop} {x : Except Error Standing} {t : Tables}

theorem Showing.barring {record : Record} {y : Except Error Value.Fields}
    (h : Showing f start (Error.Barring kind x) record y) :
    Error.Barring kind (start.fields f record x) y := by
  obtain ⟨_, rfl | ⟨e, he, rfl⟩, rfl⟩ := h
  · exact .inl rfl
  · -- only a call that is not blocked asks how the account stands
    rw [fields, fields]
    rcases start.blockedFields f record with e' | _ | visible
    · exact .inl rfl
    · exact .inr ⟨e, he, rfl⟩
    · exact .inl rfl

def standingBy (f : Filter) (t : Tables) (account : Account) : Except Error Standing :=
  f.authority.policy.privilege (some account) >>= fun
    | true => .ok .admin
    | false => .ok (.grants ⟨account.id, t.grantsOf account.id⟩)

def shows (p : Pipe) : List (Record × Option (Except Error Value.Fields)) :=
  p.calls.map fun c => (c.record, c.stage.result?)

section Worlds

variable (ht : f.authority.grants.cache.isSome → t.IsWritable)

include ht

theorem withstands_standing (p : Pipe) :
    Withstands t f.authority.grants.cache (Error.IsSealed Grants.accountOperations) (p.standing f)
      (standingBy f t p.account) :=
  comes_standing (compositional_withstands ht _) <|
    (Grants.veiled_sealed _ p.account.id).withstands ht fun h =>
      Grants.yields_grantsOf h p.account.id

variable (account : Account) (action : String) (listener : Option Listener) {v w : World}

theorem run_results (hv : v.Falters t f.authority.grants.cache) (hnone : v.ledger.faults = .none)
    (records : List Record) :
    ((results f { account, action, listener } records).run v).1 =
      .ok (records.map fun record =>
        some (fields f { account, action, listener } record (standingBy f t account))) := by
  have h := (settles_results (supplies_faultless ht).inert ⟨v, hv, hnone⟩ account action listener
    (withstands_standing ht { account, action, listener }).faultless records).run ⟨hv, hnone⟩
  rw [runBy_answer] at h
  exact h.1

variable (hv : v.Falters t f.authority.grants.cache) (hnone : v.ledger.faults = .none)
  (hw : w.Falters t f.authority.grants.cache)

include hv hnone hw

theorem results_withstand (records : List Record) :
    ∃ zs ys, ((results f { account, action, listener } records).run v).1 = .ok (zs.map some) ∧
      ((results f { account, action, listener } records).run w).1 = .ok (ys.map some) ∧
      List.Forall₂ (Error.Barring (Error.IsSealed Grants.accountOperations)) zs ys := by
  have h := (upholds_results (supplies_falters ht).inert ⟨w, hw⟩ account action listener
    (withstands_standing ht { account, action, listener }).faltering records).run hw
  rw [runBy_answer] at h
  obtain ⟨⟨ys, hys, hforall⟩, -⟩ := h
  refine ⟨records.map fun record => fields f { account, action, listener } record
    (standingBy f t account), ys, ?_, hys, ?_⟩
  · rw [run_results ht account action listener hv hnone, List.map_map]
    rfl
  · exact List.forall₂_map_left_iff.2 (hforall.imp fun _ _ h => Showing.barring h)

theorem feed_withstands (earlier records : List Record) :
    ∃ q, ((do feed f (← serve f { account, action, listener } earlier) records).run w).1 = .ok q ∧
      ∀ record y, (record, some y) ∈ q.shows →
        ∃ z, ((results f { account, action, listener } [record]).run v).1 = .ok [some z] ∧
          Error.Barring (Error.IsSealed Grants.accountOperations) z y := by
  have hI := (supplies_falters ht).inert
  have hstanding := (withstands_standing ht { account, action, listener }).faltering
  have hserve := yields_serve hI (Law.answering hI ⟨w, hw⟩ hstanding).holds_new earlier
  have hfed := ((hserve.bind fun p hp => yields_feed hI hp records).run hw).1
  rw [runBy_answer] at hfed
  obtain ⟨q, hq, hholds⟩ := Yielded.of_not hfed id
  refine ⟨q, hq, fun record y hshown =>
    ⟨_, run_results ht account action listener hv hnone [record], ?_⟩⟩
  obtain ⟨⟨_, stage⟩, hc, heq⟩ := List.mem_map.1 hshown
  obtain ⟨rfl, hstage⟩ := Prod.mk.inj heq
  have hcall := hholds.calls _ hc
  cases stage with
  | checking | waiting | showing => cases hstage
  | ended y' =>
    obtain rfl := Option.some.inj hstage
    exact Showing.barring hcall

end Worlds

end Pipe

end AccessControl
