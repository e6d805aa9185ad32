import AccessControl.Proofs.Entitlements.Registration
import AccessControl.Proofs.Pipe.Sequence
import AccessControl.Service

/-!
A whole service with a cache beside the same service without one: whatever is asked of them comes to the
same, and leaves them side by side.
-/

namespace AccessControl

open Program Store
open Fading (Mirror)

namespace Service

def withCache (cache : GrantCache) (s : Service) : Service :=
  { s with cache := some cache, entitlements := s.entitlements.withCache }

/-- There is no cache, nor anything that a cache would be told of. -/
structure IsPlain (s : Service) : Prop where
  cache : s.cache = none
  entitlements : s.entitlements.IsPlain
  readiness : ∀ l ∈ s.readiness.listeners,
    l.2 = .entitlements ∨ ∃ name listener, l.2 = .named name listener

def Caches (cache : GrantCache) (s' s : Service) : Prop :=
  s' = s.withCache cache ∧ s.IsPlain

abbrev Agrees (cache : GrantCache) {α : Type} (p q : Stateful Service α) : Prop :=
  Stateful.Mirrors Fading.answer World.answer Mirror (Caches cache) Eq p q

variable {cache : GrantCache} {α : Type}

theorem agrees_lift {p q : Program α}
    (h : Program.Mirrors Fading.answer World.answer Mirror p q (fun a b s w => a = b ∧ Mirror s w)
      Mirror) : Agrees cache (liftM p) (liftM q) :=
  Stateful.mirrors_lift h

theorem agrees_onEntitlements {p : Stateful Entitlements α}
    (h : Stateful.Mirrors Fading.answer World.answer Mirror Entitlements.Caches Eq p p) :
    Agrees cache (onEntitlements p) (onEntitlements p) := by
  refine h.zoom ?_ ?_
  · rintro _ s ⟨rfl, hs⟩
    exact ⟨rfl, hs.entitlements⟩
  · rintro _ s _ c ⟨rfl, hs⟩ ⟨rfl, hc⟩
    exact ⟨rfl, hs.cache, hc, hs.readiness⟩

theorem agrees_modify {f : Service → Service} (hf : ∀ s, f (s.withCache cache) = (f s).withCache cache)
    (hplain : ∀ s, s.IsPlain → (f s).IsPlain) : Agrees cache (modify f) (modify f) := by
  refine Stateful.mirrors_modify ?_
  rintro _ s ⟨rfl, hs⟩
  exact ⟨hf s, hplain s hs⟩

theorem agrees_addOverride (o : Override) : Agrees cache (addOverride o) (addOverride o) :=
  agrees_modify (fun _ => rfl) fun _ hs => ⟨hs.cache, hs.entitlements, hs.readiness⟩

theorem agrees_addEntity (schema : Except Error Entity) :
    Agrees cache (addEntity schema) (addEntity schema) := by
  have hregister : Stateful.Mirrors Fading.answer World.answer Mirror Eq Eq
      (Entities.register schema) (Entities.register schema) := by
    refine (Stateful.mirrors_ofExcept (Stateful.agree_refl schema)).bind ?_
    rintro e _ rfl
    refine (Stateful.mirrors_modify ?_).bind fun _ _ _ => ?_
    · rintro es _ rfl
      rfl
    · exact (Stateful.mirrors_lift (mirrors_perform rfl)).bind fun _ _ _ => Stateful.mirrors_pure rfl
  refine hregister.zoom ?_ ?_
  · rintro _ s ⟨rfl, -⟩
    rfl
  · rintro _ s _ es ⟨rfl, hs⟩ rfl
    exact ⟨rfl, hs.cache, hs.entitlements, hs.readiness⟩

theorem agrees_forM {γ : Type} {f : γ → Stateful Service PUnit} (xs : List γ)
    (h : ∀ x, Agrees cache (f x) (f x)) : Agrees cache (xs.forM f) (xs.forM f) :=
  Stateful.mirrors_forM xs fun x _ => h x

theorem agrees_protect : Agrees cache protect protect := by
  refine agrees_forM _ fun (entityType, fields) => ?_
  refine (agrees_addEntity _).bind fun _ _ _ => ?_
  exact agrees_forM _ fun action => agrees_addOverride _

/-! Setting up and starting. -/

def settle : Stateful Service Unit := do
  modify fun s => { s with readiness := s.readiness.listen entitlementType .entitlements }
  protect
  ownEntitlements.forM fun d => do
    let _ ← onEntitlements (Entitlements.declare d)

theorem mem_listeners_listen {r : Readiness Subscriber} {entityType : String} {l : Subscriber}
    {m : String × Subscriber} (h : m ∈ (r.listen entityType l).listeners) :
    m ∈ r.listeners ∨ m = (entityType, l) := by
  rw [Readiness.listen] at h
  split at h
  · exact .inl h
  · exact (List.mem_append.1 h).imp_right List.mem_singleton.1

theorem isPlain_listen {r : Readiness Subscriber} {entityType : String}
    (hr : ∀ l ∈ r.listeners, l.2 = .entitlements ∨ ∃ name listener, l.2 = .named name listener) :
    ∀ l ∈ (r.listen entityType .entitlements).listeners,
      l.2 = .entitlements ∨ ∃ name listener, l.2 = .named name listener := by
  intro l hl
  rcases mem_listeners_listen hl with hl | rfl
  · exact hr l hl
  · exact .inl rfl

theorem agrees_listen : Agrees cache
    (modify fun s => { s with readiness := s.readiness.listen entitlementType .entitlements })
    (modify fun s => { s with readiness := s.readiness.listen entitlementType .entitlements }) := by
  refine agrees_modify (fun _ => rfl) fun s hs => ?_
  exact ⟨hs.cache, hs.entitlements, isPlain_listen hs.readiness⟩

theorem agrees_declare (d : Entitlements.Definition) :
    Agrees cache (onEntitlements (Entitlements.declare d))
      (onEntitlements (Entitlements.declare d)) :=
  agrees_onEntitlements (Entitlements.mirrors_declare d)

theorem agrees_settle : Agrees cache settle settle := by
  unfold settle
  refine agrees_listen.bind fun _ _ _ => agrees_protect.bind fun _ _ _ => ?_
  refine agrees_forM _ fun d => ?_
  exact (agrees_declare d).bind fun _ _ _ => Stateful.mirrors_pure rfl

def logStarted : Stateful Service Unit := do
  let s ← get
  log .info logger "Permissions service started"
    [("entity_types", .texts s.entities.names), ("grant_cache", .bool s.cache.isSome)]

def startTables (isReady : Bool) : Stateful Service Unit := do
  if isReady then tell .entitlements else startStore
  logStarted

theorem agrees_log {level : Log.Level} {message : String} {fields fields' : Value.Fields} :
    Agrees cache (liftM (log level logger message fields))
      (liftM (log level logger message fields')) :=
  agrees_lift (mirrors_log.mono (fun _ _ => id) (fun _ _ _ _ h => ⟨rfl, h⟩) fun _ _ => id)

theorem agrees_tell {l : Subscriber}
    (hl : l = .entitlements ∨ ∃ name listener, l = .named name listener) :
    Agrees cache (tell l) (tell l) := by
  rcases hl with rfl | ⟨name, listener, rfl⟩
  · refine (agrees_onEntitlements Entitlements.mirrors_ready).bind fun _ _ _ => ?_
    exact Stateful.mirrors_pure rfl
  · exact agrees_lift (mirrors_passive (Entitlements.only_hear listener _))

theorem agrees_announce (entityType : String) :
    Agrees cache
      (Readiness.announce Service.readiness (fun s readiness => { s with readiness }) tell entityType)
      (Readiness.announce Service.readiness (fun s readiness => { s with readiness }) tell
        entityType) := by
  refine Stateful.mirrors_get.bind ?_
  rintro _ s ⟨rfl, hs⟩
  change Agrees cache (ite (s.readiness.isReady entityType = true) _ _)
    (ite (s.readiness.isReady entityType = true) _ _)
  by_cases hready : s.readiness.isReady entityType
  · rw [if_pos hready, if_pos hready]
    exact Stateful.mirrors_pure rfl
  · rw [if_neg hready, if_neg hready]
    have hmarked : Caches cache
        { s.withCache cache with readiness := s.readiness.mark entityType }
        { s with readiness := s.readiness.mark entityType } :=
      ⟨rfl, hs.cache, hs.entitlements, fun l hl => hs.readiness l (List.mem_of_mem_filter hl)⟩
    refine (Stateful.mirrors_set hmarked).bind fun _ _ _ => ?_
    refine Stateful.mirrors_forM _ fun l hl => agrees_tell ?_
    obtain ⟨entry, hentry, rfl⟩ := List.mem_map.1 hl
    exact hs.readiness entry (List.mem_of_mem_filter hentry)

theorem agrees_startStore : Agrees cache startStore startStore := by
  unfold startStore
  refine (agrees_lift (mirrors_passive (only_call rfl))).bind fun _ _ _ => ?_
  refine (agrees_forM ownTypes agrees_announce).bind fun _ _ _ => ?_
  exact agrees_lift (mirrors_passive (only_log rfl))

theorem agrees_startTables (isReady : Bool) :
    Agrees cache (startTables isReady) (startTables isReady) := by
  have hlog : Agrees cache logStarted logStarted := Stateful.mirrors_get.bind fun _ _ _ => agrees_log
  cases isReady with
  | true => exact (agrees_tell (.inl rfl)).bind fun _ _ _ => hlog
  | false => exact agrees_startStore.bind fun _ _ _ => hlog

theorem start_eq : start = (get >>= fun s => if s.cache.isSome
    then (GrantCache.start >>= fun _ => startTables (s.readiness.isReady entitlementType))
    else startTables (s.readiness.isReady entitlementType)) :=
  rfl

theorem agrees_start : Agrees cache start start := by
  rw [start_eq]
  refine Stateful.mirrors_get.bind ?_
  rintro _ s ⟨rfl, hs⟩
  have hcached : (s.withCache cache).cache.isSome := rfl
  have hplain : ¬ s.cache.isSome := by simp [hs.cache]
  rw [if_pos hcached, if_neg hplain]
  exact Stateful.Mirrors.left GrantCache.ensures_start fun _ => agrees_startTables _

end Service

end AccessControl
