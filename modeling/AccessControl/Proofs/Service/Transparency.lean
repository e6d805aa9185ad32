import AccessControl.Proofs.Decision.Composition
import AccessControl.Proofs.Service.Lockstep

/-!
A service with a cache over time: it answers as the same service without one does, and between its
operations the cache holds what the store would return.
-/

namespace AccessControl

open Program Store
open Fading (Mirror)

namespace Service

/-! What is asked of a service. -/

inductive Step where
  | administer (op : Operation)
  | declare (d : Entitlements.Definition)
  | register (d : Entitlements.Definition)
  | listen (name : String) (l : Listener)
  | override (o : Override)
  | entity (schema : Except Error Entity)
  | start
  | evaluate (q : Evaluation)
  | stream (account : Account) (action : String) (listener : Option Listener) (records : List Record)

abbrev Step.Value : Step → Type
  | .declare _ | .register _ => Entitlement
  | .entity _ => Entity
  | .evaluate q => q.Answer
  | .stream .. => List (Option (Except Error Value.Fields))
  | _ => Unit

def administer (op : Operation) : Stateful Service Unit := do
  op.run (← get).cache

def evaluate (q : Evaluation) : Stateful Service q.Answer := do
  let s ← get
  q.ask s.filter

def stream (account : Account) (action : String) (listener : Option Listener)
    (records : List Record) : Stateful Service (List (Option (Except Error Value.Fields))) := do
  let s ← get
  Pipe.results s.filter { account, action, listener } records

def Step.run : (x : Step) → Stateful Service x.Value
  | .administer op => Service.administer op
  | .declare d => onEntitlements (Entitlements.declare d)
  | .register d => onEntitlements (Entitlements.register d)
  | .listen name l => onEntitlements (Entitlements.listen (.named name l))
  | .override o => addOverride o
  | .entity schema => addEntity schema
  | .start => Service.start
  | .evaluate q => Service.evaluate q
  | .stream account action listener records => Service.stream account action listener records

/-! Every step comes to the same with a cache and without one. -/

variable {cache : GrantCache}

theorem agrees_administer (op : Operation) : Agrees cache (administer op) (administer op) := by
  refine Stateful.mirrors_get.bind ?_
  rintro _ s ⟨rfl, hs⟩
  rw [hs.cache]
  exact agrees_lift ((op.mirrors_run cache).mono (fun _ _ => id) (fun _ _ _ _ h => ⟨rfl, h⟩)
    fun _ _ => id)

theorem mirrors_supplied {α : Type} {p q : Program α}
    (h : ∀ s w, Mirror s w → ∃ x,
      Ensures Fading.answer (Fading.Copies [] w) p (fun r s => r = x ∧ s.Copies [] w) ∧
      Ensures World.answer (World.Same · w) q fun r v => r = x ∧ v.Same w) :
    Mirrors Fading.answer World.answer Mirror p q (fun a b s w => a = b ∧ Mirror s w) Mirror := by
  intro s w hsw
  obtain ⟨x, hp, hq⟩ := h s w hsw
  have hmirrors : Mirrors Fading.answer World.answer (fun s v => s.Copies [] w ∧ v.Same w) p q
      (fun a b s w => a = b ∧ Mirror s w) Mirror :=
    mirrors_ensures hp hq (fun _ _ h => h.1) (fun _ _ h => h.2) fun s v hs hv =>
      ⟨hs.of_same hv, hv.isFit hsw.fit⟩
  exact hmirrors s w ⟨hsw.copies, .refl w⟩

theorem agrees_evaluate (q : Evaluation) : Agrees cache (evaluate q) (evaluate q) := by
  refine Stateful.mirrors_get.bind ?_
  rintro _ s ⟨rfl, hs⟩
  refine agrees_lift (mirrors_supplied fun v w hvw => ?_)
  have hcached := supplies_copies hvw.fit cache
  have hplain := supplies_same hvw.fit
  have hfilter : s.filter.authority.grants = ⟨none⟩ := by rw [filter, authority, hs.cache]
  have hleft := Evaluation.comes_ask (q := q) (f := (s.withCache cache).filter)
    (compositional_settles hcached.inert) fun _ _ _ _ _ =>
      settles_of_yields (q.yields_grants hcached rfl)
  have hright := Evaluation.comes_ask (q := q) (compositional_settles hplain.inert)
    fun _ _ _ _ _ => settles_of_yields (q.yields_grants hplain hfilter)
  exact ⟨_, Upholds.ensures hleft, Upholds.ensures hright⟩

theorem agrees_stream (account : Account) (action : String) (listener : Option Listener)
    (records : List Record) :
    Agrees cache (stream account action listener records)
      (stream account action listener records) := by
  refine Stateful.mirrors_get.bind ?_
  rintro _ s ⟨rfl, hs⟩
  refine agrees_lift (mirrors_supplied fun v w hvw => ?_)
  have hcached := supplies_copies hvw.fit cache
  have hplain := supplies_same hvw.fit
  have hgrants : Settles World.answer (World.Same · w) (s.filter.authority.grants.ofAccount account.id)
      (.ok ⟨account.id, w.ledger.tables.grantsOf account.id⟩) := by
    rw [filter, authority, hs.cache]
    exact Grants.settles_ofAccount hplain account.id
  have hleft := Pipe.settles_results (f := (s.withCache cache).filter) hcached.inert
    ⟨v, hvw.copies⟩ account action listener
    (Pipe.comes_standing (compositional_settles hcached.inert)
      (Grants.settles_ofAccount hcached account.id)) records
  have hright := Pipe.settles_results hplain.inert ⟨w, .refl w⟩ account action listener
    (Pipe.comes_standing (compositional_settles hplain.inert) hgrants) records
  exact ⟨_, Upholds.ensures hleft, Upholds.ensures hright⟩

theorem agrees_run (x : Step) : Agrees cache x.run x.run := by
  cases x with
  | administer op => exact agrees_administer op
  | declare d => exact agrees_onEntitlements (Entitlements.mirrors_declare d)
  | register d => exact agrees_onEntitlements (Entitlements.mirrors_register d)
  | listen name l => exact agrees_onEntitlements (Entitlements.mirrors_listen name l)
  | override o => exact agrees_addOverride o
  | entity schema => exact agrees_addEntity schema
  | start => exact agrees_start
  | evaluate q => exact agrees_evaluate q
  | stream account action listener records => exact agrees_stream account action listener records

/-! Runs. -/

variable {σ α : Type}

def take (ι : Interpreter σ) (p : Stateful Service α) (c : Service) (s : σ) :
    Except Error α × Service × σ :=
  match (p c).runBy ι s with
  | (.ok (r, c'), s') => (r, c', s')
  | (.error e, s') => (.error e, c, s')

structure Event where
  step : Step
  time : Instant
  isDated : time.IsDated

def runAll (ι : Interpreter σ) (later : Instant → σ → σ) :
    List Event → Service → σ → List (Σ x : Step, Except Error x.Value) × Service × σ
  | [], c, s => ([], c, s)
  | e :: es, c, s =>
    let taken := take ι e.step.run c (later e.time s)
    let rest := runAll ι later es taken.2.1 taken.2.2
    (⟨e.step, taken.1⟩ :: rest.1, rest.2)

def serve (ι : Interpreter σ) (later : Instant → σ → σ) (c : Service) (es : List Event) (s : σ) :
    List (Σ x : Step, Except Error x.Value) × Service × σ :=
  let taken := take ι setUp c s
  runAll ι later es taken.2.1 taken.2.2

/-- Both are the same but for the cache. -/
def Beside (cache : GrantCache) (x : Service × Fading) (y : Service × World) : Prop :=
  Caches cache x.1 y.1 ∧ Mirror x.2 y.2

theorem take_beside {p q : Stateful Service α} {c' c : Service}
    (h : Program.Mirrors Fading.answer World.answer Mirror (p c') (q c)
      (fun x y s w => Stateful.Agree Eq x.1 y.1 ∧ Caches cache x.2 y.2 ∧ Mirror s w)
      fun _ _ => False) {s : Fading} {w : World} (hsw : Mirror s w) :
    (take Fading.answer p c' s).1 = (take World.answer q c w).1 ∧
      Beside cache (take Fading.answer p c' s).2 (take World.answer q c w).2 := by
  have hrun := h s w hsw
  revert hrun
  rw [take, take]
  rcases (p c').runBy Fading.answer s with ⟨x, s'⟩
  rcases (q c).runBy World.answer w with ⟨y, w'⟩
  rintro (⟨hr, hc, hs⟩ | h)
  · exact ⟨hr.eq, hc, hs⟩
  · exact h.elim

end Service

def World.later (t : Instant) (w : World) : World :=
  { w with clock := t }

def Fading.later (t : Instant) (s : Fading) : Fading :=
  { s with world := s.world.later t }

theorem Fading.Mirror.later {s : Fading} {w : World} (h : Mirror s w) {t : Instant}
    (ht : t.IsDated) : Mirror (s.later t) (w.later t) where
  copies :=
    { same := ⟨h.copies.same.ledger, h.copies.same.minted, rfl, h.copies.same.disk⟩
      coherent := ⟨h.copies.coherent.faults, h.copies.coherent.rows, h.copies.coherent.table⟩ }
  fit := ⟨h.fit.faults, h.fit.tables, h.fit.entitlements, ht⟩

/-- What is cached reads back as what the store returns. -/
structure World.IsReflected (w : World) : Prop where
  rulesets : ∀ account text, w.server.entries.text? (GrantCache.accountKey account) = some text →
    ∃ rows, ((Grants.storedRulesets account).run w).1 = .ok rows ∧
      ∀ now, Rulesets.read? now text = some rows
  entitlements : ∀ text, w.server.entries.text? GrantCache.entitlementsKey = some text →
    ∃ es, (Entitlements.all.run w).1 = .ok es ∧ ∀ now, Entitlement.readAll? now text = some es

theorem Fading.Mirror.isReflected {s : Fading} {w : World} (h : Mirror s w) :
    s.world.IsReflected := by
  have hfit := h.copies.same.isFit h.fit
  have hsupplies := supplies_same hfit
  refine ⟨fun account text htext => ?_, fun text htext => ?_⟩
  · have hrows := Upholds.run (Grants.yields_storedRulesets hsupplies account) (.refl s.world)
    obtain ⟨rows, hrows, rfl⟩ := hrows.1.of_not id
    rw [runBy_answer] at hrows
    refine ⟨_, hrows, fun now => ?_⟩
    rw [h.copies.coherent.rows account text List.not_mem_nil htext]
    exact Rulesets.read?_write (hfit.tables.isDated account) now
  · have hes := Upholds.run ((Grants.yields_call hsupplies (c := .entitlements) rfl).storing
      hsupplies.inert Entitlements.logger "all_entitlements") (.refl s.world)
    obtain ⟨es, hes, rfl⟩ := hes.1.of_not id
    rw [runBy_answer] at hes
    refine ⟨_, hes, fun now => ?_⟩
    rw [h.copies.coherent.table text List.not_mem_nil htext]
    exact Entitlement.readAll?_write hfit.entitlements now

namespace Service

variable {cache : GrantCache}

theorem runAll_beside (es : List Event) {x : Service × Fading} {y : Service × World}
    (h : Beside cache x y) :
    (runAll Fading.answer Fading.later es x.1 x.2).1 =
        (runAll World.answer World.later es y.1 y.2).1 ∧
      Beside cache (runAll Fading.answer Fading.later es x.1 x.2).2
        (runAll World.answer World.later es y.1 y.2).2 := by
  induction es generalizing x y with
  | nil => exact ⟨rfl, h⟩
  | cons e es ih =>
    obtain ⟨hr, hnext⟩ := take_beside (agrees_run e.step _ _ h.1) (h.2.later e.isDated)
    obtain ⟨hrs, hlast⟩ := ih hnext
    refine ⟨?_, hlast⟩
    simp only [runAll]
    rw [hr, hrs]

def bare (name : String) (policy : Policy) (listing : Option String) (cache : Option GrantCache) :
    Service :=
  { name, cache, policy, entitlements := { listing } }

section SetUp

variable (cache : GrantCache) (name : String) (policy : Policy) (listing : Option String)

theorem caches_bare : Caches cache ((bare name policy listing none).withCache cache)
    (bare name policy listing none) :=
  ⟨rfl, rfl, ⟨by simp [bare], by simp [bare]⟩, by simp [bare]⟩

theorem setUp_cached : setUp (bare name policy listing (some cache)) =
    settle ((bare name policy listing none).withCache cache) :=
  rfl

theorem setUp_plain : setUp (bare name policy listing none) =
    settle (bare name policy listing none) :=
  rfl

theorem mirrors_setUp : Program.Mirrors Fading.answer World.answer Mirror
    (setUp (bare name policy listing (some cache))) (setUp (bare name policy listing none))
    (fun x y s w => Stateful.Agree Eq x.1 y.1 ∧ Caches cache x.2 y.2 ∧ Mirror s w)
    fun _ _ => False := by
  rw [setUp_cached, setUp_plain]
  exact agrees_settle _ _ (caches_bare cache name policy listing)

end SetUp

theorem mirror_start {w : World} (hw : w.IsFit) (hserver : w.server = .empty)
    (expiring : Nat → List String) : Mirror ⟨w, expiring⟩ w := by
  refine ⟨⟨.refl w, ⟨by rw [hserver]; rfl, fun a text _ ht => ?_, fun text _ ht => ?_⟩⟩, hw⟩
  · rw [hserver] at ht
    cases ht
  · rw [hserver] at ht
    cases ht

/-- A service with a cache that starts empty, and whose texts may expire before any access, answers
everything as the same service without one does. The stores are the same at the end, and what is
cached then is what the store returns. -/
theorem transparency (cache : GrantCache) (name : String) (policy : Policy) (listing : Option String)
    {w : World} (hw : w.IsFit) (hserver : w.server = .empty) (expiring : Nat → List String)
    (events : List Event) :
    let cached := serve Fading.answer Fading.later (bare name policy listing (some cache)) events
      ⟨w, expiring⟩
    let plain := serve World.answer World.later (bare name policy listing none) events w
    cached.1 = plain.1 ∧ cached.2.2.world.ledger = plain.2.2.ledger ∧
      cached.2.2.world.IsReflected := by
  have hset := take_beside (p := setUp) (q := setUp) (mirrors_setUp cache name policy listing)
    (mirror_start hw hserver expiring)
  obtain ⟨hanswers, -, hmirror⟩ := runAll_beside events hset.2
  exact ⟨hanswers, hmirror.copies.same.ledger, hmirror.isReflected⟩

/-! A member of a role asks for a feature before and after the role gets a ruleset that unlocks it,
while what is cached of the member expires now and then. -/

def founding : World :=
  World.initial .error none ⟨"", none, none, none⟩

theorem isFit_founding : founding.IsFit where
  faults := rfl
  tables := by
    constructor <;> exact fun _ h => nomatch h
  entitlements := fun _ h => nomatch h
  clock := by decide

theorem isDated_minute : (Instant.ofSeconds 60).IsDated := by
  decide

def exporting : List Event :=
  let event (step : Step) : Event := ⟨step, .ofSeconds 60, isDated_minute⟩
  let asks := Step.evaluate (.unlocking { id := "ann" } (.text "export") .null)
  let definition : Entitlements.Definition :=
    { name := .text "export", description := "", group := "", features := ["export"]
      defaultFeatureScopes := ["*"] }
  [event .start, event (.administer (.createRole "analyst" "")),
    event (.administer (.grantMembership (identifier 3) "ann")), event asks,
    event (.register definition),
    event (.administer (.grantRoleRuleset (identifier 3) "export" "t1" "" "" (.list []))),
    event asks]

theorem transparency_of_exporting :
    founding.IsFit ∧ founding.server = .empty ∧
      let policy : Policy := ⟨{}, hasFlag⟩
      let expiring := fun n => if n % 5 = 0 then [GrantCache.accountKey "ann"] else []
      (serve Fading.answer Fading.later (bare "permissions" policy none (some {})) exporting
        ⟨founding, expiring⟩).1 =
      (serve World.answer World.later (bare "permissions" policy none none) exporting
        founding).1 :=
  ⟨isFit_founding, rfl, (transparency {} "permissions" ⟨{}, hasFlag⟩ none isFit_founding rfl _ _).1⟩

end Service

end AccessControl
