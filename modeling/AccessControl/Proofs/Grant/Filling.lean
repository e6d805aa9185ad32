import AccessControl.Proofs.Cache.Shelves
import AccessControl.Proofs.Program.Heeding

/-!
A resolution fills the cache: it changes nothing in the store, and what it puts on one of two
shelves is what the store has told it.
-/

namespace AccessControl

open Program Store

/-- What the store has told a resolution so far. -/
abbrev Findings := List (Sigma Call.Reply)

namespace Findings

def Tell (f : Findings) (s : Shelf) (reply : (c : Call) → c.Reply) : Prop :=
  ∀ c, s.concerns c = true → ⟨c, reply c⟩ ∈ f

def law (filled : Shelf → Prop) : Law Findings where
  allows f
    | .store c => c.isWrite = false
    | .cache (.get _) => True
    | .cache (.set key _ text) => ∃ (s : Shelf) (reply : (c : Call) → c.Reply),
      filled s ∧ f.Tell s reply ∧ key = s.key ∧ text = s.text reply
    | .cache _ | .database _ | .publish _ | .mint => False
    | _ => True
  expects _ _ _ := True
  record f
    | .store c, .ok r => ⟨c, r⟩ :: f
    | _, _ => f

variable {filled : Shelf → Prop}

theorem ignores {e : Effect} (he : e.isQuiet = true) : (law filled).Ignores e := by
  intro f
  cases e with
  | store | cache | database | publish | mint => cases he
  | _ => exact ⟨trivial, fun _ => rfl⟩

theorem ignores_get (key : String) : (law filled).Ignores (.cache (.get key)) :=
  fun _ => ⟨trivial, fun _ => rfl⟩

variable {α : Type} {A : α → Findings → Prop} {f : Findings}

/-- Nothing is said of what a failure leaves. -/
abbrev Fills (filled : Shelf → Prop) (p : Program α) (A : α → Findings → Prop) (f : Findings) :
    Prop :=
  p.Heeds (law filled) A (fun _ => True) f

theorem fills_quiet {p : Program α} (hp : Only Effect.isQuiet p) :
    Fills filled p (fun _ => (· = f)) f :=
  (hp.heeds fun _ => ignores).mono (fun _ _ => id) fun _ _ => trivial

theorem fills_call {c : Call} (hc : c.isWrite = false) :
    Fills filled (call c) (fun r g => g = ⟨c, r⟩ :: f) f := by
  refine heeds_perform hc fun r _ => heeds_ofExcept ?_
  cases r with
  | error e => trivial
  | ok r => rfl

theorem fills_storing {p : Program α} (hp : Fills filled p A f) (logger operation : String) :
    Fills filled (storing logger operation p) A f :=
  hp.storing (fun _ => ignores rfl) logger operation

theorem fills_understood (message : String) (fields : Value.Fields)
    (read? : Instant → String → Option α) (key : String) :
    Fills filled (GrantCache.understood message fields read? key) (fun _ => (· = f)) f := by
  have hmissed : Only Effect.isQuiet (GrantCache.understood.missed (α := α) message fields) :=
    (only_log rfl).bind fun _ => (only_perform rfl).bind fun _ => only_pure _
  refine heeds_ignored (ignores_get key) fun x _ => ?_
  rcases x with e | _ | text
  · exact fills_quiet hmissed
  · exact heeds_ignored (ignores rfl) fun _ _ => rfl
  · refine heeds_ignored (ignores rfl) fun now _ => ?_
    cases read? now text with
    | none => exact fills_quiet hmissed
    | some a => exact heeds_ignored (ignores rfl) fun _ _ => rfl

theorem fills_put {s : Shelf} (hs : filled s) {reply : (c : Call) → c.Reply} (hf : f.Tell s reply)
    (ttl : Int) (tally : Cache.Tally) (message : String) (fields : Value.Fields) :
    Fills filled (GrantCache.succeeded (.set s.key ttl (s.text reply)) tally message fields)
      (fun _ => (· = f)) f := by
  refine heeds_perform ⟨s, reply, hs, hf, rfl, rfl⟩ fun x _ => ?_
  cases x with
  | error reason => exact heeds_ignored (ignores rfl) fun _ _ => rfl
  | ok _ => exact heeds_ignored (ignores rfl) fun _ _ => rfl

def replying (role : List RoleRuleset) (account : List AccountRuleset) (es : List Entitlement) :
    (c : Call) → c.Reply
  | .rulesetsThroughRoles _ => role
  | .rulesetsOfAccount _ => account
  | .entitlements => es
  | c => Tables.empty.reply c

end Findings

namespace Grants

open Findings

variable {filled : Shelf → Prop} {f : Findings}

theorem fills_storedRulesets (account : String) :
    Fills filled (storedRulesets account) (fun rows g =>
      g.Tell (.rows account) (replying rows.role rows.account [])) f := by
  have hboth : Fills filled
      (both (call (.rulesetsThroughRoles account)) (call (.rulesetsOfAccount account)))
      (fun rows g => g.Tell (.rows account) (replying rows.1 rows.2 [])) f := by
    refine (fills_call rfl).both (ignores rfl) fun x g hg => ?_
    refine (fills_call rfl).mono (fun direct h hh => ?_) fun _ _ => trivial
    cases x with
    | error e => trivial
    | ok role =>
      obtain rfl : g = _ := hg
      obtain rfl : h = _ := hh
      intro c hc
      cases c with
      | rulesetsThroughRoles b =>
        obtain rfl := of_decide_eq_true hc
        exact List.mem_cons_of_mem _ List.mem_cons_self
      | rulesetsOfAccount b =>
        obtain rfl := of_decide_eq_true hc
        exact List.mem_cons_self
      | _ => cases hc
  exact (fills_storing hboth _ _).bind fun rows g hg => hg

theorem fills_rulesets (cache : GrantCache) {account : String} (hs : filled (.rows account)) :
    Fills filled (Grants.rulesets ⟨some cache⟩ account) (fun _ _ => True) f := by
  refine (fills_understood _ _ _ _).bind ?_
  rintro rows _ rfl
  cases rows with
  | some rows => exact heeds_ignored (ignores rfl) fun _ _ => trivial
  | none =>
    refine (fills_storedRulesets account).bind fun rows g hg => ?_
    refine Heeds.bind (fills_put hs hg cache.rulesetTtl _ _ _) fun _ _ _ => ?_
    exact heeds_ignored (ignores rfl) fun _ _ => trivial

theorem fills_entitlements (cache : GrantCache) (hs : filled .table) :
    Fills filled (Grants.entitlements ⟨some cache⟩) (fun _ _ => True) f := by
  refine (fills_understood _ _ _ _).bind ?_
  rintro es _ rfl
  cases es with
  | some es => trivial
  | none =>
    refine Heeds.bind (fills_storing (fills_call rfl) _ _) ?_
    rintro es _ rfl
    have htell {f : Findings} : Tell (⟨.entitlements, es⟩ :: f) .table (replying [] [] es) := by
      intro c hc
      cases c with
      | entitlements => exact List.mem_cons_self
      | _ => cases hc
    exact Heeds.bind (fills_put hs htell cache.entitlementTtl _ _ _) fun _ _ _ => trivial

theorem fills_snapshot (cache : GrantCache) {account : String} (hs : filled (.rows account))
    (ht : filled .table) :
    Fills filled (Grants.snapshot ⟨some cache⟩ account) (fun _ _ => True) f := by
  refine (fills_rulesets cache hs).bind fun rows g _ => ?_
  split
  · trivial
  · refine Heeds.bind (A := fun _ _ => True) ?_ fun index g _ => ?_
    · refine (fills_entitlements cache ht).bind fun es g _ => ?_
      have hwarn : Only Effect.isQuiet (es.forM warnMalformed) := by
        refine only_forM fun e => ?_
        rw [warnMalformed]
        split
        · exact only_pure ()
        · exact only_log rfl
      exact (fills_quiet hwarn).bind fun _ _ _ => trivial
    · have hwarn : Only Effect.isQuiet (rows.toList.forM (warnDangling index)) := by
        refine only_forM fun r => ?_
        rw [warnDangling]
        split
        · exact only_pure ()
        · exact only_log rfl
      exact (fills_quiet hwarn).bind fun _ _ _ => trivial

theorem fills_ofAccount (cache : GrantCache) (account : String) :
    Fills (fun s => s = .rows account ∨ s = .table) (Grants.ofAccount ⟨some cache⟩ account)
      (fun _ _ => True) f := by
  refine (fills_snapshot cache (.inl rfl) (.inr rfl)).attempt.bind fun x g _ => ?_
  refine heeds_ignored (ignores rfl) fun _ _ => heeds_ofExcept ?_
  cases x <;> trivial

end Grants

end AccessControl
