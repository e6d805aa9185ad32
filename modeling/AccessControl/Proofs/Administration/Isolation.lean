import AccessControl.Proofs.Administration.Plans
import AccessControl.Proofs.Decision.Order
import AccessControl.Proofs.Decision.Provided
import AccessControl.Proofs.Store.Agreement

/-!
Isolation between accounts. What an account is answered follows from its own roles, their rulesets,
its own rulesets and the entitlements that these name. An operation about another account, whichever
of its calls fail, leaves all of that.
-/

namespace AccessControl

open Program Administration Store Outcome

/-- No membership and no ruleset of an account has the identifier. -/
structure Store.Tables.Lacks (t : Tables) (id : String) : Prop where
  memberships : ∀ m ∈ t.memberships.rows, m.id ≠ id
  accountRulesets : ∀ r ∈ t.accountRulesets.rows, r.id ≠ id

namespace Operation

def account? : Operation → Option String
  | .grantMembership _ account | .revokeMembership _ account |
    .grantAccountRuleset account .. | .revokeAccountRuleset account .. |
    .forgetAccount account => some account
  | _ => none

theorem spares_read {t : Tables} {account : String} {c : Call} (hread : t.after c = t) :
    t.Spares account c := by
  rw [Tables.Spares, hread]
  exact ⟨rfl, rfl⟩

theorem spares_plan {t : Tables} {id account other : String} (hid : t.Lacks id)
    {op : Operation} (hop : op.account? = some other) (hne : account ≠ other) (now : Instant) :
    t.Along (Tables.Spares account) (op.plan t id now).calls := by
  cases op with
  | grantMembership role other =>
    obtain rfl := Option.some.inj hop
    refine along_reading (spares_read rfl) rfl (along_demanding fun r _ => ?_)
    refine along_reading (spares_read rfl) rfl ?_
    cases t.reply (.membership role other) with
    | some m => trivial
    | none => exact ⟨⟨Tables.reachable_putMembership hid.memberships hne, rfl⟩, trivial⟩
  | revokeMembership role other =>
    obtain rfl := Option.some.inj hop
    refine along_reading (spares_read rfl) rfl (along_demanding fun m hm => ?_)
    obtain ⟨hmem, hparties⟩ := Tables.of_reply_membership hm
    have haccount : m.account = other := congrArg Prod.snd hparties
    exact ⟨⟨Tables.reachable_dropMembership hmem (haccount ▸ hne), rfl⟩, trivial⟩
  | grantAccountRuleset other entitlement target featureScopes =>
    obtain rfl := Option.some.inj hop
    refine along_reading (spares_read rfl) rfl (along_demanding fun e _ => ?_)
    refine along_reading (spares_read rfl) rfl ?_
    cases t.reply (.accountRuleset other entitlement target) with
    | some r => trivial
    | none =>
      exact along_demanding fun scopes _ =>
        ⟨⟨Tables.reachable_putAccountRuleset hid.accountRulesets hne, rfl⟩, trivial⟩
  | revokeAccountRuleset other entitlement target =>
    obtain rfl := Option.some.inj hop
    refine along_reading (spares_read rfl) rfl (along_demanding fun r hr => ?_)
    obtain ⟨hmem, hterms⟩ := Tables.of_reply_accountRuleset hr
    have haccount : r.account = other := congrArg Prod.fst hterms
    exact ⟨⟨Tables.reachable_dropAccountRuleset hmem (haccount ▸ hne), rfl⟩, trivial⟩
  | forgetAccount other =>
    obtain rfl := Option.some.inj hop
    exact ⟨spares_read rfl, ⟨Tables.reachable_dropMemberships hne, rfl⟩,
      ⟨Tables.reachable_dropRulesetsOfAccount hne, rfl⟩, trivial⟩
  | _ => cases hop

theorem mem_grantsOf_run (cache : Option GrantCache) {op : Operation} {other : String}
    (hop : op.account? = some other) {account : String} (hne : account ≠ other) {w : World}
    (hid : w.ledger.tables.Lacks (identifier w.minted)) (g : Grant) :
    g ∈ w.ledger.tables.grantsOf account ↔
      g ∈ ((op.run cache).run w).2.ledger.tables.grantsOf account := by
  rw [(op.run_plan cache w).1]
  exact ((spares_plan hid hop hne w.clock).takeWhile _).mem_grantsOf_iff g

end Operation

namespace Evaluation

/-- The outcome of an evaluation is the same over either tables. With a scope that no set takes it
may fail over one of them only, but two answers are still the same. -/
def AnsweredAlike (f : Filter) (t u : Tables) (q : Evaluation) : Prop :=
  ∀ v w : World, v.Provides f.authority.grants t → w.Provides f.authority.grants u →
    (q.IsScoped → ((q.ask f).run v).1 = ((q.ask f).run w).1) ∧
      Consistent ((q.ask f).run v).1 ((q.ask f).run w).1

section

variable {f : Filter} {q : Evaluation} {account : Account} (hq : q.account = some account)
  {t u : Tables}

include hq

theorem snapshot_of_account (t : Tables) : q.snapshot t = ⟨account.id, t.grantsOf account.id⟩ := by
  cases q with
  | accessOfRoles => cases hq
  | _ =>
    obtain rfl := Option.some.inj hq
    rfl

theorem answeredAlike_of_grants
    (h : ∀ g, g ∈ t.grantsOf account.id ↔ g ∈ u.grantsOf account.id) : q.AnsweredAlike f t u := by
  intro v w hv hw
  rw [hv.run_ask, hw.run_ask, snapshot_of_account hq t, snapshot_of_account hq u]
  have hmatches : Snapshot.Matches ⟨account.id, t.grantsOf account.id⟩
      ⟨account.id, u.grantsOf account.id⟩ := h
  exact ⟨fun hscoped => by rw [told_eq_of_matches hmatches hscoped],
    (consistent_told hmatches q).map _⟩

/-- Isolation between accounts. An account is answered alike over tables that agree on what is its
own. Operations about other accounts make no difference to it, wherever they fail, nor does an
entitlement, malformed or not, that none of its rulesets names. -/
theorem isolation (f : Filter) (t : Tables) :
    (∀ u, t.AgreeOn account.id u → q.AnsweredAlike f t u) ∧
    (∀ (op : Operation) (other : String), op.account? = some other → account.id ≠ other →
      ∀ (cache : Option GrantCache) (w : World), w.ledger.tables = t →
        t.Lacks (identifier w.minted) →
        q.AnsweredAlike f t ((op.run cache).run w).2.ledger.tables) ∧
    ∀ e : Entitlement, (∀ r ∈ (t.reachable account.id).toList, r.entitlement ≠ e.name) →
      q.AnsweredAlike f t (t.after (.putEntitlement e)) := by
  refine ⟨fun u hu => ?_, fun op other hop hne cache w hw hid => ?_, fun e he => ?_⟩
  · exact answeredAlike_of_grants hq hu.mem_grantsOf_iff
  · subst hw
    exact answeredAlike_of_grants hq (Operation.mem_grantsOf_run cache hop hne hid)
  · exact answeredAlike_of_grants hq (Tables.mem_grantsOf_putEntitlement he)

end

/-! Ann may export. Next to her ruleset there may be one of Bob, and an entitlement that cannot be
read. -/

def exporting : Entitlement :=
  let now := Instant.ofSeconds 0
  ⟨"e", "exporter", "", "", [], [], ["export"], [wildcard], now, now⟩

def broken : Entitlement := { exporting with name := "broken", permissions := [.null] }

def exports (id account : String) : AccountRuleset :=
  ⟨id, account, "exporter", "t1", [], Instant.ofSeconds 0⟩

def alone : Tables :=
  { Tables.empty with
    entitlements := ⟨[exporting], List.nodup_singleton _⟩
    accountRulesets := ⟨[exports (identifier 0) "ann"], List.nodup_singleton _⟩ }

def together : Tables :=
  { alone with
    entitlements := ⟨[broken, exporting], by decide⟩
    accountRulesets := ⟨[exports "b" "bob", exports (identifier 0) "ann"], by decide⟩ }

def holding (t : Tables) : World :=
  { World.initial .error none ⟨"", none, none, none⟩ with minted := 1, ledger := ⟨t, .none⟩ }

theorem reachable_alone : (alone.reachable "ann").toList = [.account (exports (identifier 0) "ann")] :=
  rfl

theorem agreeOn_together : alone.AgreeOn "ann" together where
  roles _ := rfl
  roleRulesets _ _ := Iff.rfl
  accountRulesets r hr := by
    have hne : r ≠ exports "b" "bob" := by
      rintro rfl
      exact absurd hr (by decide)
    simp [alone, together, hne]
  entitlements r hr e he := by
    obtain rfl := List.mem_singleton.1 (reachable_alone ▸ hr)
    have hne : e ≠ broken := by
      rintro rfl
      exact absurd he (by decide)
    simp [alone, together, hne]

theorem isolation_of_ann :
    let f : Filter := ⟨⟨⟨{}, ⟨fun _ => .ok false, false⟩⟩, ⟨none⟩⟩, {}⟩
    let asks : Evaluation := .unlocking { id := "ann" } (.text "export") .null
    let grants : Operation := .grantAccountRuleset "bob" "exporter" "t1" (.list [])
    ((asks.ask f).run (holding alone)).1 = .ok true ∧
      ((asks.ask f).run (holding together)).1 = .ok true ∧
      asks.AnsweredAlike f alone ((grants.run none).run (holding alone)).2.ledger.tables ∧
      asks.AnsweredAlike f alone (alone.after (.putEntitlement broken)) := by
  intro f asks grants
  obtain ⟨hagree, hgrant, hput⟩ := isolation (q := asks) rfl f alone
  have hann : ((asks.ask f).run (holding alone)).1 = .ok true := rfl
  have halone : (holding alone).Provides ⟨none⟩ alone := ⟨rfl, .inl rfl⟩
  have htogether : (holding together).Provides ⟨none⟩ together := ⟨rfl, .inl rfl⟩
  refine ⟨hann, ?_, ?_, ?_⟩
  · rw [← hann]
    exact ((hagree together agreeOn_together _ _ halone htogether).1 rfl).symm
  · have hlacks : alone.Lacks (identifier 1) := by
      refine ⟨fun _ h => (nomatch h), fun r hr => ?_⟩
      obtain rfl := List.mem_singleton.1 hr
      exact isMade_identifier 0 1 (Nat.le_refl 1)
    exact hgrant grants "bob" rfl (by decide) none (holding alone) rfl hlacks
  · refine hput broken fun r hr => ?_
    obtain rfl := List.mem_singleton.1 (reachable_alone ▸ hr)
    decide

end Evaluation

end AccessControl
