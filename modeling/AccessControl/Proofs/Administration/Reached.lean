import AccessControl.Proofs.Administration.Revocation

/-!
A service with a cache over time. Between its operations it evaluates, entitlements are registered,
cached texts expire, and the store and the cache server begin and cease to fail.
-/

namespace AccessControl

open Program Administration Store

/-! Accesses that change neither roles, memberships or rulesets nor what is cached of them. -/

/-- The call leaves roles, memberships and rulesets as they are. -/
def Store.Call.isApart : Call → Bool
  | .putRole _ | .dropRole _ | .putMembership _ | .dropMembership _ | .dropMemberships .. |
    .putRoleRuleset _ | .dropRoleRuleset _ | .dropRulesetsOfRole _ | .putAccountRuleset _ |
    .dropAccountRuleset _ | .dropRulesetsOfAccount _ => false
  | _ => true

def Cache.Command.isApart : Command → Bool
  | .set key .. => !GrantCache.rulesetsStart.toList.isPrefixOf key.toList
  | _ => true

def Effect.isApart : Effect → Bool
  | .store c => c.isApart
  | .cache c => c.isApart
  | _ => true

namespace World

theorem IsTended.at {w : World} (h : w.IsTended) : w.At False w.ledger.tables w.minted :=
  ⟨rfl, rfl, h.clock, False.elim⟩

theorem answer_cache (w : World) (c : Cache.Command) :
    (w.answer (.cache c)).2.Beside w ∧
      ((∃ reason, (w.answer (.cache c)).1 = .error reason) ∧
          (w.answer (.cache c)).2.server.entries = w.server.entries ∨
        (w.answer (.cache c)).1 = .ok (w.server.entries.reply c) ∧
          (w.answer (.cache c)).2.server.entries = w.server.entries.after c) :=
  ⟨⟨rfl, rfl, rfl⟩, w.server.serve_cases c⟩

theorem IsSound.of_fewer {v w : World} (h : w.IsSound)
    (hentries : ∀ a text, v.server.entries.text? (GrantCache.accountKey a) = some text →
      w.server.entries.text? (GrantCache.accountKey a) = some text)
    (hreach : ∀ a, v.ledger.tables.reachable a = w.ledger.tables.reachable a) : v.IsSound := by
  rintro a r ⟨text, now, rows, ht, hr, hm⟩
  rw [Reaches, hreach]
  exact h a r ⟨text, now, rows, hentries a text ht, hr, hm⟩

theorem IsTended.apart {w : World} (hw : w.IsTended) (hs : w.IsSound) {e : Effect}
    (he : e.isApart = true) : (w.answer e).2.IsTended ∧ (w.answer e).2.IsSound := by
  cases e with
  | store c =>
    have hkept : (w.ledger.tables.after c).IsKept w.minted := by
      refine hw.tables.after ?_
      cases c <;> trivial
    have hreach (a : String) : (w.ledger.tables.after c).reachable a =
        w.ledger.tables.reachable a := by
      cases c <;> first | rfl | cases he
    rcases hw.at.call c with ⟨-, -, hat⟩ | ⟨-, hat⟩
    · refine ⟨⟨by rw [hat.tables, hat.minted]; exact hw.tables, hat.clock⟩, ?_⟩
      exact hs.of_fewer (fun _ _ => id) fun a => by rw [hat.tables]
    · refine ⟨⟨by rw [hat.tables, hat.minted]; exact hkept, hat.clock⟩, ?_⟩
      exact hs.of_fewer (fun _ _ => id) fun a => by rw [hat.tables, hreach]
  | cache c =>
    obtain ⟨hbeside, hentries⟩ := w.answer_cache c
    refine ⟨⟨by rw [hbeside.ledger, hbeside.minted]; exact hw.tables,
      by rw [hbeside.clock]; exact hw.clock⟩, ?_⟩
    refine hs.of_fewer (fun a text ht => ?_) fun a => by rw [hbeside.ledger]
    rcases hentries with ⟨-, h⟩ | ⟨-, h⟩ <;> rw [h] at ht
    · exact ht
    · cases c with
      | set key ttl value =>
        rw [Cache.Entries.text?_set, if_neg] at ht
        · exact ht
        · rintro rfl
          rw [Effect.isApart, Cache.Command.isApart, GrantCache.isPrefixOf_accountKey] at he
          cases he
      | delete keys =>
        change (w.server.entries.without keys).text? _ = _ at ht
        rw [Cache.Entries.text?_without] at ht
        split at ht
        · cases ht
        · exact ht
      | _ => exact ht
  | mint => exact ⟨⟨hw.tables.mono (Nat.le_succ _), hw.clock⟩, hs⟩
  | _ => exact ⟨⟨hw.tables, hw.clock⟩, hs⟩

/-- The rows that are written are reached; those of other accounts were so before. -/
theorem IsSound.set_rows {w : World} (hs : w.IsSound) {a : String}
    (hdated : (w.ledger.tables.reachable a).IsDated) (ttl : Int) :
    (w.answer (.cache (.set (GrantCache.accountKey a) ttl
      (Wire.write (w.ledger.tables.reachable a).value)))).2.IsSound := by
  rintro b r ⟨text, now, rows, ht, hr, hm⟩
  obtain ⟨hbeside, hentries⟩ := w.answer_cache
    (.set (GrantCache.accountKey a) ttl (Wire.write (w.ledger.tables.reachable a).value))
  rw [Reaches, hbeside.ledger]
  rcases hentries with ⟨-, h⟩ | ⟨-, h⟩ <;> rw [h] at ht
  · exact hs b r ⟨text, now, rows, ht, hr, hm⟩
  · rw [Cache.Entries.text?_set] at ht
    by_cases hab : a = b
    · subst hab
      rw [if_pos rfl, Option.some.injEq] at ht
      rw [← ht, Rulesets.read?_write hdated, Option.some.injEq] at hr
      rw [hr]
      exact hm
    · rw [if_neg fun h => hab (GrantCache.accountKey_injective h)] at ht
      exact hs b r ⟨text, now, rows, ht, hr, hm⟩

theorem IsSound.of_get {w : World} (hs : w.IsSound) {a text : String}
    (htext : (w.answer (.cache (.get (GrantCache.accountKey a)))).1 = .ok (some text))
    {now : Instant} {rows : Rulesets} (hr : Rulesets.read? now text = some rows) :
    ∀ r ∈ rows.toList, w.Reaches a r := by
  intro r hm
  obtain ⟨-, ⟨⟨reason, he⟩, -⟩ | ⟨hreply, -⟩⟩ := w.answer_cache (.get (GrantCache.accountKey a))
  · cases he.symm.trans htext
  · exact hs a r ⟨text, now, rows, Except.ok.inj (hreply.symm.trans htext), hr, hm⟩

end World

/-! Resolution. -/

theorem supplies_sound {t : Tables} {n : Nat} (hk : t.IsKept n) (cache : GrantCache) :
    Supplies World.answer (fun w => w.At False t n ∧ w.IsSound) True t (some cache)
      (fun a rows => ∀ r ∈ rows.toList, r ∈ (t.reachable a).toList) fun _ => True := by
  have hapart {e : Effect} (he : e.isApart = true) (w : World)
      (hw : w.At False t n ∧ w.IsSound) (hat : (w.answer e).2.At False t n) :
      (w.answer e).2.At False t n ∧ (w.answer e).2.IsSound := by
    obtain ⟨hw, hs⟩ := hw
    have htended : w.IsTended := ⟨by rw [hw.tables, hw.minted]; exact hk, hw.clock⟩
    exact ⟨hat, (htended.apart hs he).2⟩
  have hbeside (w : World) (hw : w.At False t n) (c : Cache.Command) :
      (w.answer (.cache c)).2.At False t n :=
    ⟨hw.tables, hw.minted, hw.clock, False.elim⟩
  exact {
    inert := by
      intro e he w hw
      refine hapart ?_ w hw (hw.1.quiet he)
      cases e <;> first | rfl | cases he
    store := by
      intro c hc w hw
      have hstore : c.isApart = true → (w.answer (.store c)).2.IsSound := fun h =>
        (World.IsTended.apart ⟨by rw [hw.1.tables, hw.1.minted]; exact hk, hw.1.clock⟩ hw.2
          (e := .store c) h).2
      have hsound : (w.answer (.store c)).2.IsSound := by
        refine hw.2.of_fewer (fun _ _ => id) fun a => ?_
        rcases hw.1.call c with ⟨-, -, hat⟩ | ⟨-, hat⟩
        · rw [hat.tables, hw.1.tables]
        · rw [hat.tables, hc, hw.1.tables]
      rcases hw.1.call c with ⟨-, ⟨e, he⟩, hat⟩ | ⟨hr, hat⟩
      · exact ⟨⟨hat, hsound⟩, by rw [he]; trivial⟩
      · rw [hc] at hat
        exact ⟨⟨hat, hsound⟩, by rw [hr]; rfl⟩
    rows := fun _ _ => id
    table := trivial
    get := fun _ key w hw => hapart rfl w hw (hbeside w hw.1 _)
    set_rows := by
      rintro c - a w ⟨hw, hs⟩
      refine ⟨hbeside w hw _, ?_⟩
      rw [← hw.tables]
      exact hs.set_rows (by rw [hw.tables]; exact hk.isDated a) c.rulesetTtl
    set_table := by
      intro c _ w hw
      have hprefix : GrantCache.rulesetsStart.toList.isPrefixOf GrantCache.entitlementsKey.toList =
          false := by decide
      refine hapart ?_ w hw (hbeside w hw.1 _)
      rw [Effect.isApart, Cache.Command.isApart, hprefix]
      rfl
    read_rows := by
      rintro - a w ⟨hw, hs⟩ text htext now rows hr r hm
      have hreached := hs.of_get htext hr r hm
      rwa [World.Reaches, hw.tables] at hreached
    read_table := fun _ _ _ _ _ _ _ _ => trivial }

/-! Runs. -/

/-- The worlds that a service with a cache comes to while none of its operations slips. -/
inductive Reached (cache : GrantCache) : World → Prop where
  | start {w : World} (htended : w.IsTended) (hempty : w.server.entries = .empty) : Reached cache w
  | administered {w : World} (h : Reached cache w) (op : Operation) (hop : ¬ op.Slips cache w) :
    Reached cache ((op.run (some cache)).run w).2
  | evaluated {w : World} (h : Reached cache w) (f : Filter)
    (hf : f.authority.grants = ⟨some cache⟩) (q : Evaluation) :
    Reached cache ((q.ask f).run w).2
  | fed {w : World} (h : Reached cache w) (f : Filter) (hf : f.authority.grants = ⟨some cache⟩)
    (p : Pipe) (hp : p.IsIdle) (records : List Record) : Reached cache ((p.feed f records).run w).2
  /-- Anything that is apart from roles, memberships and rulesets, such as a registration. -/
  | apart {w : World} (h : Reached cache w) {α : Type} (p : Program α)
    (hp : p.Only Effect.isApart) : Reached cache (p.run w).2
  /-- Time goes by, texts expire, and other calls and commands are to fail. -/
  | disturbed {v w : World} (h : Reached cache w) (htables : v.ledger.tables = w.ledger.tables)
    (hminted : v.minted = w.minted) (hclock : v.clock.IsDated)
    (hentries : ∀ key text, v.server.entries.text? key = some text →
      w.server.entries.text? key = some text) : Reached cache v

namespace Reached

variable {cache : GrantCache} {w : World}

theorem isTended_and_isSound (h : Reached cache w) : w.IsTended ∧ w.IsSound := by
  induction h with
  | @start w htended hempty =>
    refine ⟨htended, ?_⟩
    rintro a r ⟨text, now, rows, ht, -⟩
    rw [hempty] at ht
    cases ht
  | administered h op hop ih =>
    exact ⟨(Operation.run_tended ih.1 cache op).1, (Operation.isSound_iff ih.1 ih.2 cache op).2 hop⟩
  | @evaluated w h f hf q ih =>
    have hsupplies := supplies_sound ih.1.tables cache
    -- the way to the grants is all of an evaluation that touches the store or the cache
    have hgrants : Keeps World.answer
        (fun v => v.At False w.ledger.tables w.minted ∧ v.IsSound) (q.grants f) := by
      cases q with
      | accessOfRoles roles =>
        rw [Evaluation.grants, hf]
        exact (Grants.yields_ofRoles hsupplies roles).keeps
      | creation account | access account | unlocking account | filtering account =>
        rw [Evaluation.grants, hf]
        exact (Grants.yields_ofAccount hsupplies account.id).keeps
    have hkeeps := ((closed_keeps hsupplies.inert).ask hgrants).run ⟨ih.1.at, ih.2⟩
    rw [runBy_answer] at hkeeps
    obtain ⟨-, hat, hsound⟩ := hkeeps
    exact ⟨⟨by rw [hat.tables, hat.minted]; exact ih.1.tables, hat.clock⟩, hsound⟩
  | @fed w h f hf p hp records ih =>
    have hsupplies := supplies_sound ih.1.tables cache
    have hgrants : Keeps World.answer (fun v => v.At False w.ledger.tables w.minted ∧ v.IsSound)
        (f.authority.grants.ofAccount p.account.id) := by
      rw [hf]
      exact (Grants.yields_ofAccount hsupplies p.account.id).keeps
    have hholds := hp.keeps hsupplies.inert ⟨w, ih.1.at, ih.2⟩ hgrants
    have hkeeps := (Pipe.yields_feed hsupplies.inert hholds records).run ⟨ih.1.at, ih.2⟩
    rw [runBy_answer] at hkeeps
    obtain ⟨-, hat, hsound⟩ := hkeeps
    exact ⟨⟨by rw [hat.tables, hat.minted]; exact ih.1.tables, hat.clock⟩, hsound⟩
  | @apart w h α p hp ih =>
    have hkeeps : Keeps World.answer (fun v => v.IsTended ∧ v.IsSound) p :=
      hp.keeps fun e he v hv => hv.1.apart hv.2 he
    rw [← runBy_answer]
    exact (hkeeps.run ih).2
  | @disturbed v w h htables hminted hclock hentries ih =>
    refine ⟨⟨by rw [htables, hminted]; exact ih.1.tables, hclock⟩, ?_⟩
    exact ih.2.of_fewer (fun a => hentries _) fun a => by rw [htables]

/-- No revoked row is left in the cache until an operation slips, which is exactly when one is:
until then all that a resolution grants is reached. -/
theorem revocation (h : Reached cache w) :
    w.IsSound ∧
      (∀ op : Operation, ((op.run (some cache)).run w).2.IsSound ↔ ¬ op.Slips cache w) ∧
      ∀ account s, ((Grants.ofAccount ⟨some cache⟩ account).run w).1 = .ok s →
        ∀ g ∈ s.grants, w.Reaches account g.ruleset := by
  obtain ⟨htended, hsound⟩ := h.isTended_and_isSound
  refine ⟨hsound, fun op => op.isSound_iff htended hsound cache, fun account s hs g hg => ?_⟩
  have hsupplies := supplies_sound htended.tables cache
  have hyields := ((Grants.yields_ofAccount hsupplies account).run ⟨htended.at, hsound⟩).1
  rw [runBy_answer, hs] at hyields
  obtain ⟨rows, es, hrows, -, rfl⟩ := hyields
  obtain ⟨r, hr, hgrant⟩ := List.mem_filterMap.1 hg
  obtain ⟨c, -, rfl⟩ := Option.map_eq_some_iff.1 hgrant
  exact hrows r hr

/-! A role with one member and one ruleset. While its members cannot be read, the ruleset is taken
away, but stays cached. -/

def analysts : World :=
  let now := Instant.ofSeconds 0
  { World.initial .error none ⟨"", none, none, none⟩ with
    minted := 3
    ledger :=
      { tables :=
          { Tables.empty with
            roles := ⟨[⟨identifier 0, "analyst", "", now, now⟩], List.nodup_singleton _⟩
            memberships := ⟨[⟨identifier 1, identifier 0, "ann", now⟩], List.nodup_singleton _⟩
            roleRulesets := ⟨[⟨identifier 2, identifier 0, "curve-analyst", "t1", "", "", [], now⟩],
              List.nodup_singleton _⟩ }
        faults := Faults.none.plan .membersOf (.outside .system "disk full") (some 1) } }

def analystsAsked : World :=
  (((Evaluation.unlocking { id := "ann" } (.text "export") .null).ask
    ⟨⟨⟨{}, ⟨fun _ => .ok false, false⟩⟩, ⟨some {}⟩⟩, {}⟩).run analysts).2

def revokesAnalysts : Operation := .revokeRoleRuleset (identifier 0) "curve-analyst" "t1"

theorem isTended_analysts : analysts.IsTended where
  tables := by
    have hmade (i : Nat) (hi : i < 3) : IsMade 3 (identifier i) := (isMade_identifier i).mono hi
    have hdated : (Instant.ofSeconds 0).IsDated := by decide
    constructor <;> simp only [analysts, List.mem_singleton, forall_eq]
    · exact hmade 0 (by decide)
    · exact ⟨hmade 1 (by decide), hmade 0 (by decide)⟩
    · exact ⟨hmade 2 (by decide), hdated⟩
    · exact fun _ h => nomatch h
  clock := by decide

theorem reached_analystsAsked : Reached {} analystsAsked :=
  .evaluated (.start isTended_analysts rfl) _ rfl _

theorem caches_analystsAsked {r : RoleRuleset}
    (hr : r ∈ analysts.ledger.tables.roleRulesets.rows) : analystsAsked.Caches "ann" (.role r) := by
  have htext : analystsAsked.server.entries.text? (GrantCache.accountKey "ann") =
      some (Wire.write (analysts.ledger.tables.reachable "ann").value) := rfl
  have hdated := isTended_analysts.tables.isDated "ann"
  refine ⟨_, analystsAsked.clock, _, htext, Rulesets.read?_write hdated _, ?_⟩
  exact List.mem_append_left _ (List.mem_map_of_mem hr)

theorem slips_revokesAnalysts : revokesAnalysts.Slips {} analystsAsked := by
  have hempty : (((revokesAnalysts.run (some {})).run analystsAsked).2.ledger.tables.reachable
      "ann").toList = [] := rfl
  refine ⟨"ann", _, caches_analystsAsked List.mem_cons_self, ?_, .inl ⟨.storage "delete_role_ruleset", ?_⟩⟩
  · rw [World.Reaches, hempty]
    exact List.not_mem_nil
  · rfl

theorem revocation_of_analysts :
    Reached {} analystsAsked ∧ ¬ ((revokesAnalysts.run (some {})).run analystsAsked).2.IsSound := by
  refine ⟨reached_analystsAsked, fun hsound => ?_⟩
  exact ((reached_analystsAsked.revocation.2.1 revokesAnalysts).1 hsound) slips_revokesAnalysts

end Reached

end AccessControl
