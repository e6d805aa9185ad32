import AccessControl.Proofs.Administration.Operations
import AccessControl.Proofs.Cache.Fading
import AccessControl.Proofs.Program.Mirroring
import AccessControl.Proofs.Text.Order

/-!
A service with a cache beside the same service without one. Operations change both stores alike, and
what the first one holds in its cache stays what its store would say.
-/

namespace AccessControl

open Program Administration Store

def Effect.isShared : Effect → Bool
  | .cache _ | .database _ | .enter _ | .leave _ | .statistics => false
  | _ => true

theorem Effect.isShared_of_isPlain {e : Effect} (he : e.isPlain = true) : e.isShared = true := by
  cases e <;> first | rfl | cases he

namespace Fading

structure Follows (s₀ s : Fading) (w : World) : Prop where
  same : s.world.Same w
  faults : s.world.server.faults = s₀.world.server.faults
  fewer : ∀ key text, s.world.server.entries.text? key = some text →
    s₀.world.server.entries.text? key = some text

theorem Follows.refl {s : Fading} {w : World} (h : s.world.Same w) : Follows s s w :=
  ⟨h, rfl, fun _ _ => id⟩

theorem Follows.answer {s₀ s : Fading} {w : World} (h : Follows s₀ s w) {e : Effect}
    (he : e.isShared = true) :
    (Fading.answer s e).1 = (w.answer e).1 ∧ Follows s₀ (Fading.answer s e).2 (w.answer e).2 := by
  have hsame : s.faded.Same w := (World.same_without _ _).trans h.same
  have hserver : (Fading.answer s e).2.world.server = s.faded.server := by
    cases e with
    | cache | database | enter | leave | statistics => cases he
    | _ => rfl
  have hfewer : ∀ key text, (Fading.answer s e).2.world.server.entries.text? key = some text →
      s₀.world.server.entries.text? key = some text := by
    intro key text ht
    rw [hserver] at ht
    exact h.fewer key text (World.text?_without ht).2
  have hanswer : (Fading.answer s e).1 = (w.answer e).1 ∧
      (Fading.answer s e).2.world.Same (w.answer e).2 := by
    cases e with
    | cache | database | enter | leave | statistics => cases he
    | store c =>
      simp only [Fading.answer, World.answer, hsame.ledger]
      exact ⟨trivial, rfl, hsame.minted, hsame.clock, hsame.disk⟩
    | now => exact ⟨hsame.clock, hsame.ledger, hsame.minted, hsame.clock, hsame.disk⟩
    | mint =>
      simp only [Fading.answer, World.answer, hsame.minted]
      exact ⟨trivial, hsame.ledger, rfl, hsame.clock, hsame.disk⟩
    | publish text =>
      simp only [Fading.answer, World.answer, hsame.disk]
      exact ⟨trivial, hsame.ledger, hsame.minted, hsame.clock, rfl⟩
    | _ => exact ⟨rfl, hsame.ledger, hsame.minted, hsame.clock, hsame.disk⟩
  refine ⟨hanswer.1, hanswer.2, ?_, hfewer⟩
  rw [hserver]
  exact h.faults

theorem mirrors_follows {α : Type} {p : Program α} (hp : Only Effect.isShared p) (s₀ : Fading) :
    Mirrors Fading.answer World.answer (Follows s₀) p p (fun a b s w => a = b ∧ Follows s₀ s w)
      (Follows s₀) :=
  hp.mirrors fun _ he _ _ h => h.answer he

theorem Follows.copies {s₀ s : Fading} {v w : World} {stale : List String} (h : Follows s₀ s w)
    (h₀ : s₀.Copies [] v)
    (hrows : ∀ a, GrantCache.accountKey a ∉ stale →
      w.ledger.tables.reachable a = v.ledger.tables.reachable a)
    (htable : GrantCache.entitlementsKey ∉ stale →
      w.ledger.tables.entitlements.rows = v.ledger.tables.entitlements.rows) :
    s.Copies stale w where
  same := h.same
  coherent :=
    { faults := h.faults.trans h₀.coherent.faults
      rows := by
        intro a text hstale ht
        rw [h.same.ledger, hrows a hstale, ← h₀.same.ledger]
        exact h₀.coherent.rows a text List.not_mem_nil (h.fewer _ _ ht)
      table := by
        intro text hstale ht
        rw [h.same.ledger, htable hstale, ← h₀.same.ledger]
        exact h₀.coherent.table text List.not_mem_nil (h.fewer _ _ ht) }

/-- Both services are at rest: the stores are the same, and the cache holds what they say. -/
structure Mirror (s : Fading) (w : World) : Prop where
  copies : s.Copies [] w
  fit : w.IsFit

theorem Copies.of_same {s : Fading} {v w : World} {stale : List String} (h : s.Copies stale w)
    (hv : v.Same w) : s.Copies stale v :=
  ⟨h.same.trans hv.symm, h.coherent⟩

theorem Mirror.quiet {s : Fading} {w : World} (h : Mirror s w) {e e' : Effect} (he : e.isQuiet)
    (he' : e'.isQuiet) : Mirror (Fading.answer s e).2 (w.answer e').2 := by
  obtain ⟨hsame, -⟩ := w.same_quiet he'
  exact ⟨(h.copies.quiet he).of_same hsame, hsame.isFit h.fit⟩

end Fading

open Fading (Mirror)

/-! Dropping cached texts. -/

namespace GrantCache

theorem ensures_dropped {stale : List String} {w : World} (key : String) {tally : Cache.Tally}
    {message : String} {fields : Value.Fields} :
    Ensures Fading.answer (Fading.Copies (key :: stale) w)
      (succeeded (.delete [key]) tally message fields)
      fun r s => r = .ok true ∧ s.Copies stale w := by
  refine Ensures.bind (Q := fun r s => (∃ n, r = .ok (.ok n)) ∧ s.Copies stale w)
    (ensures_perform fun s hs => ?_) (fun x => ?_) (by simp)
  · obtain ⟨hreply, hs⟩ := hs.delete
    exact ⟨⟨_, congrArg _ hreply⟩, hs⟩
  · rintro s ⟨⟨n, hx⟩, hs⟩
    obtain rfl := Except.ok.inj hx
    exact ⟨rfl, hs.quiet (e := .tally tally) rfl⟩

theorem ensures_dropAll {stale : List String} {w : World} (accounts : List String) :
    Ensures Fading.answer (Fading.Copies (accounts.map accountKey ++ stale) w)
      (accounts.forM fun a => do let _ ← dropAccount a)
      fun r s => r = .ok () ∧ s.Copies stale w := by
  induction accounts with
  | nil => exact fun s hs => ⟨rfl, hs⟩
  | cons a as ih =>
    have hdropped : Ensures Fading.answer
        (Fading.Copies (accountKey a :: (as.map accountKey ++ stale)) w) (dropAccount a)
        fun r s => r = .ok true ∧ s.Copies (as.map accountKey ++ stale) w :=
      ensures_dropped _
    refine Ensures.bind (Q := fun r s => r = .ok () ∧ s.Copies (as.map accountKey ++ stale) w)
      (Ensures.bind hdropped (fun b => ?_) (by simp)) (fun _ => ?_) (by simp)
    · exact ensures_pure fun s hs => ⟨rfl, hs.2⟩
    · exact Ensures.mono ih (fun s hs => hs.2) fun _ _ => id

theorem ensures_start (w : World) :
    Ensures Fading.answer (Mirror · w) start fun r s => ∃ c, r = .ok c ∧ Mirror s w := by
  have hping : Ensures Fading.answer (Mirror · w) (perform (.cache .ping)) fun r s =>
      r = .ok (.ok ()) ∧ Mirror s w :=
    ensures_perform fun s hs => ⟨congrArg _ hs.copies.ping.1, hs.copies.ping.2, hs.fit⟩
  refine hping.bind (fun x => ?_) (by simp)
  rintro s ⟨hx, hs⟩
  obtain rfl := Except.ok.inj hx
  exact ⟨(), rfl, hs.copies.quiet rfl, hs.fit⟩

end GrantCache

/-! Operations. -/

theorem World.At.isFit {w : World} {t : Tables} {n : Nat} (h : w.At True t n) (hk : t.IsKept n)
    (he : ∀ e ∈ t.entitlements.rows, e.IsWritable) : w.IsFit where
  faults := h.faults trivial
  tables := by rw [h.tables, h.minted]; exact hk
  entitlements := by rw [h.tables]; exact he
  clock := h.clock

/-- Something failed: the tables are as they were. -/
theorem Fading.Follows.mirror {s₀ s : Fading} {v w : World} (h : Follows s₀ s w)
    (h₀ : s₀.Copies [] v) (hv : v.IsFit) (hw : w.Left True v.ledger.tables) : Mirror s w := by
  obtain ⟨t, n, hat, hk, ht⟩ := hw
  obtain rfl := ht trivial
  refine ⟨h.copies h₀ (fun a _ => ?_) fun _ => ?_, hat.isFit hk hv.entitlements⟩
  · rw [hat.tables]
  · rw [hat.tables]

namespace Program

theorem mirrors_log {level level' : Log.Level} {logger logger' message message' : String}
    {fields fields' : Value.Fields} {E : Fading → World → Prop} :
    Mirrors Fading.answer World.answer Mirror (log level logger message fields)
      (log level' logger' message' fields') (fun _ _ => Mirror) E :=
  fun _ _ h => .value (h.quiet rfl rfl)

end Program

namespace Operation

theorem mirrors_change (op : Operation) :
    Mirrors Fading.answer World.answer Mirror op.change op.change
      (fun u u' s w => u = u' ∧ s.Copies (u.accounts.map GrantCache.accountKey) w ∧ w.IsFit)
      Mirror := by
  rintro s w ⟨hs, hw⟩
  have hshared : Only Effect.isShared op.change :=
    op.only_change.mono fun _ => Effect.isShared_of_isPlain
  have hmirrors := Fading.mirrors_follows hshared s s w (.refl hs.same)
  have hchange := attains_change hw.tables True op w
    ⟨rfl, rfl, hw.clock, fun _ => hw.faults⟩
  revert hmirrors hchange
  rcases op.change.runBy Fading.answer s with ⟨x, s'⟩
  rcases op.change.runBy World.answer w with ⟨y, w'⟩
  rintro (⟨rfl, hfollows⟩ | hfollows)
  · rintro ⟨haccounts, t, n, hat, hkept, hentitlements, hreach⟩
    refine .value ⟨rfl, hfollows.copies hs (fun a ha => ?_) fun _ => ?_, ?_⟩
    · rw [hat.tables]
      refine hreach a fun hm => ha (List.mem_map_of_mem ?_)
      rw [haccounts]
      exact hm
    · rw [hat.tables, hentitlements]
    · exact hat.isFit hkept (by rw [hentitlements]; exact hw.entitlements)
  · exact fun hleft => .failure (hfollows.mirror hs hw hleft)

theorem mirrors_settle (cache : GrantCache) (u : Upshot) :
    Mirrors Fading.answer World.answer
      (fun s w => s.Copies (u.accounts.map GrantCache.accountKey) w ∧ w.IsFit)
      (u.settle (some cache)) (u.settle none) (fun _ _ => Mirror) Mirror := by
  rw [settle_some]
  refine Mirrors.left (C := fun _ => Mirror) (fun w => ?_) fun _ => ?_
  · rintro s ⟨hs, hw⟩
    have hmembers : s.Copies ((Text.members u.accounts).map GrantCache.accountKey ++ []) w := by
      refine ⟨hs.same, hs.coherent.mono fun key hkey => ?_⟩
      obtain ⟨a, ha, rfl⟩ := List.mem_map.1 hkey
      rw [List.append_nil]
      exact List.mem_map_of_mem (Text.mem_members.2 ha)
    obtain ⟨hr, hs⟩ := GrantCache.ensures_dropAll (Text.members u.accounts) s hmembers
    exact ⟨(), hr, hs, hw⟩
  · obtain ⟨accounts, line⟩ := u
    cases line with
    | none => exact mirrors_pure fun _ _ => id
    | some line => exact mirrors_log

/-- Every operation comes to the same with a cache and without one, and leaves the cache coherent. -/
theorem mirrors_run (cache : GrantCache) (op : Operation) :
    Mirrors Fading.answer World.answer Mirror (op.run (some cache)) (op.run none)
      (fun _ _ => Mirror) Mirror := by
  rw [run_eq, run_eq]
  refine op.mirrors_change.bind fun u u' => ?_
  rintro s w ⟨rfl, hs⟩
  exact mirrors_settle cache u s w hs

end Operation

end AccessControl
