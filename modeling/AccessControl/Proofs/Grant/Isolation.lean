import AccessControl.Grant.Resolution
import AccessControl.Proofs.Program.Accesses

/-!
Resolution depends on the store, the cache server and the clock only, and tells nothing of
decisions.
-/

namespace AccessControl

open Program

def Effect.isResolving : Effect → Bool
  | .store _ | .cache _ | .now | .timed | .tally _ | .pause => true
  | .record line => line.logger = GrantCache.logger || line.logger = Grants.logger
  | .count s => s.family = .resolutions
  | _ => false

/-- Worlds with the same store, cache server and clock. -/
def World.Alike (v w : World) : Prop :=
  v.ledger = w.ledger ∧ v.server = w.server ∧ v.clock = w.clock

theorem World.Alike.refl (w : World) : w.Alike w :=
  ⟨rfl, rfl, rfl⟩

theorem World.Alike.trans {u v w : World} (h : u.Alike v) (h' : v.Alike w) : u.Alike w :=
  ⟨h.1.trans h'.1, h.2.1.trans h'.2.1, h.2.2.trans h'.2.2⟩

theorem World.Alike.answer {e : Effect} (he : e.isResolving = true) {v w : World}
    (h : v.Alike w) :
    (v.answer e).1 = (w.answer e).1 ∧ (v.answer e).2.Alike (w.answer e).2 := by
  obtain ⟨hledger, hserver, hclock⟩ := h
  cases e with
  | store c =>
    simp only [World.answer, hledger]
    exact ⟨trivial, rfl, hserver, hclock⟩
  | cache c =>
    simp only [World.answer, hserver]
    exact ⟨trivial, hledger, rfl, hclock⟩
  | now => exact ⟨hclock, hledger, hserver, hclock⟩
  | record | count | timed | tally | pause => exact ⟨rfl, hledger, hserver, hclock⟩
  | _ => cases he

namespace GrantCache

theorem only_understood {α : Type} (message key : String) (fields : Value.Fields)
    (read? : Instant → String → Option α) :
    Only Effect.isResolving (understood message fields read? key) := by
  have hmissed : Only Effect.isResolving (understood.missed (α := α) message fields) :=
    (only_log rfl).bind fun _ => (only_perform rfl).bind fun _ => only_pure none
  refine (only_perform rfl).bind fun x => ?_
  rcases x with e | _ | text
  · exact hmissed
  · exact (only_perform rfl).bind fun _ => only_pure none
  · refine (only_perform rfl).bind fun now => ?_
    cases read? now text with
    | none => exact hmissed
    | some a => exact (only_perform rfl).bind fun _ => only_pure (some a)

end GrantCache

namespace Grants

theorem only_storedRulesets (account : String) :
    Only Effect.isResolving (storedRulesets account) :=
  (((only_call rfl).both (only_call rfl) rfl).storing (fun _ _ => rfl) _).bind
    fun _ => only_pure _

theorem only_rulesets (grants : Grants) (account : String) :
    Only Effect.isResolving (grants.rulesets account) := by
  rw [rulesets]
  cases grants.cache with
  | none =>
    exact (only_storedRulesets account).bind fun rows =>
      (only_perform rfl).bind fun _ => only_pure rows
  | some c =>
    refine (GrantCache.only_understood _ _ _ _).bind fun rows => ?_
    cases rows with
    | some rows => exact (only_perform rfl).bind fun _ => only_pure rows
    | none =>
      exact (only_storedRulesets account).bind fun rows =>
        (GrantCache.only_succeeded rfl rfl fun _ => rfl).bind fun _ =>
          (only_perform rfl).bind fun _ => only_pure rows

theorem only_entitlements (grants : Grants) : Only Effect.isResolving grants.entitlements := by
  have hstored : Only Effect.isResolving (storing logger "all_entitlements" (call .entitlements)) :=
    (only_call rfl).storing (fun _ _ => rfl) _
  rw [entitlements]
  cases grants.cache with
  | none => exact hstored
  | some c =>
    refine (GrantCache.only_understood _ _ _ _).bind fun rows => ?_
    cases rows with
    | some rows => exact only_pure rows
    | none =>
      exact hstored.bind fun rows =>
        (GrantCache.only_succeeded rfl rfl fun _ => rfl).bind fun _ => only_pure rows

theorem only_index (grants : Grants) : Only Effect.isResolving grants.index := by
  refine (only_entitlements grants).bind fun rows => ?_
  refine Only.bind (only_forM fun e => ?_) fun _ => only_pure _
  rw [warnMalformed]
  split
  · exact only_pure ()
  · exact only_log rfl

theorem only_assemble (subject : String) (rulesets : List Ruleset) (index : CapabilityIndex) :
    Only Effect.isResolving (assemble subject rulesets index) := by
  refine Only.bind (only_forM fun r => ?_) fun _ => only_pure _
  rw [warnDangling]
  split
  · exact only_pure ()
  · exact only_log rfl

theorem only_ofAccount (grants : Grants) (account : String) :
    Only Effect.isResolving (grants.ofAccount account) := by
  have hsnapshot : Only Effect.isResolving (grants.snapshot account) := by
    refine (only_rulesets grants account).bind fun rows => ?_
    split
    · exact only_pure _
    · exact (only_index grants).bind fun index => only_assemble account _ index
  exact hsnapshot.attempt.bind fun x => (only_perform rfl).bind fun _ => only_ofExcept x

theorem only_ofRoles (grants : Grants) (roles : List String) :
    Only Effect.isResolving (grants.ofRoles roles) := by
  have hread : Only Effect.isResolving
      (storing logger "role_rulesets_for_roles" (both (call (.rulesetsOfRoles roles)) grants.index)) :=
    ((only_call rfl).both (only_index grants) rfl).storing (fun _ _ => rfl) _
  exact hread.bind fun _ => (only_perform rfl).bind fun _ =>
    (only_ofExcept _).bind fun subject => only_assemble subject _ _

end Grants

end AccessControl
