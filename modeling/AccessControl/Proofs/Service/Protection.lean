import AccessControl.Proofs.Permission.Matching
import AccessControl.Proofs.Pipe.Overriding
import AccessControl.Proofs.Program.Preserving
import AccessControl.Proofs.Service.Transparency

/-!
The protection of a service's own tables. It stands in front of whatever an application registers,
and nothing that is done with a service takes it away.
-/

namespace AccessControl

open Program Store

theorem Entities.has_put (e : Entity) (es : List Entity) (t : String) :
    (⟨put e es⟩ : Entities).has t = (e.name = t || (⟨es⟩ : Entities).has t) := by
  induction es with
  | nil =>
    by_cases ht : e.name = t
    · simp [put, has, get?, ht]
    · simp [put, has, get?, ht]
  | cons f rest ih =>
    rw [put]
    by_cases hf : f.name = e.name
    · rw [if_pos hf]
      by_cases ht : e.name = t
      · simp [has, get?, ht]
      · simp [has, get?, ht, hf]
    · rw [if_neg hf]
      by_cases ht : f.name = t
      · simp [has, get?, ht]
      · simp only [has, get?] at ih ⊢
        simpa [ht] using ih

namespace Service

open Stateful

variable {K : Policy → Entities → Prop} {α β : Type}

abbrev Keeps (K : Policy → Entities → Prop) (p : Stateful Service α) : Prop :=
  Leads (fun s => K s.policy s.entities) p fun _ s => K s.policy s.entities

theorem Keeps.bind {p : Stateful Service α} {f : α → Stateful Service β} (hp : Keeps K p)
    (hf : ∀ a, Keeps K (f a)) : Keeps K (p >>= f) :=
  Leads.bind hp hf fun _ _ h => h

theorem keeps_lift (p : Program α) : Keeps K (liftM p) :=
  leads_lift fun _ _ h => h

theorem keeps_get : Keeps K (get : Stateful Service Service) :=
  leads_get fun _ h => h

theorem keeps_onEntitlements (p : Stateful Entitlements α) : Keeps K (onEntitlements p) :=
  fun _ hs => (returns_true _).bind fun _ _ => hs

theorem keeps_forM {γ : Type} {f : γ → Stateful Service PUnit} (h : ∀ x, Keeps K (f x))
    (xs : List γ) : Keeps K (xs.forM f) := by
  induction xs with
  | nil => exact leads_pure fun _ hs => hs
  | cons x xs ih => exact (h x).bind fun _ => ih

theorem keeps_tell (l : Subscriber) : Keeps K (tell l) := by
  cases l with
  | entitlements => exact (keeps_onEntitlements _).bind fun _ => leads_pure fun _ hs => hs
  | other entitlements =>
    refine (keeps_lift _).bind fun (outcome, _) => ?_
    exact Keeps.bind (leads_ofExcept fun _ hs => hs) fun _ => leads_pure fun _ hs => hs
  | named name l => exact keeps_lift _

theorem keeps_announce (entityType : String) :
    Keeps K (Readiness.announce Service.readiness (fun s readiness => { s with readiness }) tell
      entityType) := by
  intro s hs
  change Returns _ ((ite (s.readiness.isReady entityType = true) _ _ : Stateful Service Unit) s)
  by_cases hready : s.readiness.isReady entityType
  · rw [if_pos hready]
    exact hs
  · rw [if_neg hready]
    exact keeps_forM keeps_tell _ { s with readiness := s.readiness.mark entityType } hs

theorem keeps_startTables (isReady : Bool) : Keeps K (startTables isReady) := by
  have hlog : Keeps K logStarted := keeps_get.bind fun _ => keeps_lift _
  cases isReady with
  | true => exact (keeps_tell _).bind fun _ => hlog
  | false =>
    refine Keeps.bind (Keeps.bind (keeps_lift _) fun _ => ?_) fun _ => hlog
    exact (keeps_forM keeps_announce ownTypes).bind fun _ => keeps_lift _

theorem keeps_start : Keeps K start := by
  rw [start_eq]
  refine keeps_get.bind fun s => ?_
  split
  · exact (keeps_lift _).bind fun _ => keeps_startTables _
  · exact keeps_startTables _

/-! What is registered stays, and stands behind the protections. -/

def protections (types : List String) : List Override :=
  types.flatMap fun t => protectedActions.map (protection t)

theorem leads_addEntity (schema : Except Error Entity) :
    Leads (fun s => K s.policy s.entities) (addEntity schema) fun x s =>
      ∃ es, K s.policy es ∧ (∀ t, es.has t = true → s.entities.has t = true) ∧
        ∀ e, x = .ok e → schema = .ok e ∧ s.entities.has e.name = true := by
  intro s hs
  cases schema with
  | error e => exact ⟨s.entities, hs, fun _ h => h, fun _ h => nomatch h⟩
  | ok e =>
    intro _
    refine ⟨s.entities, hs, fun t ht => ?_, ?_⟩
    · rw [Entities.has_put]
      simp [ht]
    · rintro _ ⟨⟩
      exact ⟨rfl, by rw [Entities.has_put]; simp⟩

theorem forM_addOverride (t : String) (actions : List String) (s : Service) :
    (actions.forM fun action => addOverride (protection t action)) s =
      pure (.ok (), { s with policy := { s.policy with overrides :=
        { s.policy.overrides with
          blocks := s.policy.overrides.blocks ++ actions.map (protection t) } } }) := by
  induction actions generalizing s with
  | nil => simp [List.forM]; rfl
  | cons action actions ih =>
    have hrest := ih { s with policy := { s.policy with
      overrides := s.policy.overrides.register (protection t action) } }
    change (actions.forM fun action => addOverride (protection t action)) _ = _
    rw [hrest]
    simp [Overrides.register, protection, Override.Kind.isBlock]

theorem leads_protect (schemas : List (String × List String)) (types : List String) :
    Leads (fun s => s.policy.overrides = ⟨protections types, []⟩ ∧
        ∀ t ∈ types, s.entities.has t = true)
      (schemas.forM fun (entityType, fields) => do
        let _ ← addEntity (Entity.ofNames entityType fields)
        protectedActions.forM fun action => addOverride (protection entityType action))
      fun x s => x = .ok () →
        s.policy.overrides = ⟨protections (types ++ schemas.map Prod.fst), []⟩ ∧
          ∀ t ∈ types ++ schemas.map Prod.fst, s.entities.has t = true := by
  -- the types that are done grow from the front of the list, and the blocks with them
  induction schemas generalizing types with
  | nil =>
    intro s hs _
    rwa [List.map_nil, List.append_nil]
  | cons schema schemas ih =>
    obtain ⟨entityType, fields⟩ := schema
    have hentity := leads_addEntity (K := fun p es => p.overrides = ⟨protections types, []⟩ ∧
      ∀ t ∈ types, es.has t = true) (Entity.ofNames entityType fields)
    have hbody : Leads (fun s => s.policy.overrides = ⟨protections types, []⟩ ∧
          ∀ t ∈ types, s.entities.has t = true)
        (do
          let _ ← addEntity (Entity.ofNames entityType fields)
          protectedActions.forM fun action => addOverride (protection entityType action))
        fun x s => x = .ok () → s.policy.overrides = ⟨protections (types ++ [entityType]), []⟩ ∧
          ∀ t ∈ types ++ [entityType], s.entities.has t = true := by
      refine Leads.bind hentity (fun e s hs => ?_) fun _ _ _ h => nomatch h
      obtain ⟨es, ⟨hoverrides, hhas⟩, hmono, hadded⟩ := hs
      rw [forM_addOverride]
      intro _
      obtain ⟨hschema, hname⟩ := hadded e rfl
      have he : e.name = entityType := by
        rw [Entity.ofNames] at hschema
        split at hschema
        · cases hschema
        · rw [← Except.ok.inj hschema]
      refine ⟨?_, fun t ht => ?_⟩
      · simp [protections, hoverrides]
      · rcases List.mem_append.1 ht with ht | ht
        · exact hmono t (hhas t ht)
        · obtain rfl := List.mem_singleton.1 ht
          exact he ▸ hname
    refine Leads.bind hbody (fun u s hs => ?_) fun _ _ _ h => nomatch h
    have hrest := ih (types ++ [entityType]) s (hs rfl)
    simpa using hrest

theorem leads_setUp : Leads (fun s => s.policy.overrides = {}) setUp fun x s =>
    x = .ok () → s.policy.overrides = ⟨protections ownTypes, []⟩ ∧
      ∀ t ∈ ownTypes, s.entities.has t = true := by
  have hfresh : Keeps (fun p _ => p.overrides = {})
      (modify fun s => { s with readiness := s.readiness.listen entitlementType .entitlements }) :=
    leads_modify fun _ hs => hs
  have hprotect : Leads (fun s => s.policy.overrides = {}) protect fun x s =>
      x = .ok () → s.policy.overrides = ⟨protections ownTypes, []⟩ ∧
        ∀ t ∈ ownTypes, s.entities.has t = true := by
    intro s hs
    exact leads_protect ownSchemas [] s ⟨hs, by simp⟩
  have hsettle : Leads (fun s => s.policy.overrides = {}) settle fun x s =>
      x = .ok () → s.policy.overrides = ⟨protections ownTypes, []⟩ ∧
        ∀ t ∈ ownTypes, s.entities.has t = true := by
    unfold settle
    refine Leads.bind hfresh (fun _ => Leads.bind hprotect (fun _ s hs => ?_) ?_) ?_
    · have hdeclare (d : Entitlements.Definition) :
          Keeps (fun p es => p.overrides = ⟨protections ownTypes, []⟩ ∧
              ∀ t ∈ ownTypes, es.has t = true)
            (do let _ ← onEntitlements (Entitlements.declare d)) :=
        (keeps_onEntitlements _).bind fun _ => leads_pure fun _ hs => hs
      have hdeclared := keeps_forM hdeclare ownEntitlements s (hs rfl)
      exact hdeclared.mono fun _ hr _ => hr
    · exact fun _ _ _ h => nomatch h
    · exact fun _ _ _ h => nomatch h
  have heq : setUp = (get >>= fun s => if s.cache.isSome
      then (onEntitlements (Entitlements.listen .cache) >>= fun _ => settle) else settle) := by
    rfl
  rw [heq]
  refine Leads.bind (keeps_get (K := fun p _ => p.overrides = {})) (fun s => ?_)
    fun _ _ _ h => nomatch h
  split
  · exact Leads.bind (keeps_onEntitlements (K := fun p _ => p.overrides = {}) _)
      (fun _ => hsettle) fun _ _ _ h => nomatch h
  · exact hsettle

/-- The own entity types are known, and their protections come before all other blocks. -/
structure IsProtected (p : Policy) (es : Entities) : Prop where
  blocks : ∃ others, p.overrides.blocks = protections ownTypes ++ others
  has : ∀ t ∈ ownTypes, es.has t = true

theorem IsProtected.register {p : Policy} {es : Entities} (h : IsProtected p es) (o : Override) :
    IsProtected { p with overrides := p.overrides.register o } es := by
  obtain ⟨others, hblocks⟩ := h.blocks
  refine ⟨?_, h.has⟩
  rw [Overrides.register]
  split
  · exact ⟨others ++ [o], by simp [hblocks]⟩
  · exact ⟨others, hblocks⟩

theorem IsProtected.excepting {p : Policy} {es : Entities} (h : IsProtected p es) {isBlock : Bool}
    {position : Nat} (hbehind : isBlock = true → (protections ownTypes).length ≤ position)
    (x : Predicate) :
    IsProtected { p with overrides := p.overrides.excepting isBlock position x } es := by
  obtain ⟨others, hblocks⟩ := h.blocks
  refine ⟨?_, h.has⟩
  cases isBlock with
  | false => exact ⟨others, hblocks⟩
  | true =>
    obtain ⟨n, rfl⟩ := Nat.exists_eq_add_of_le (hbehind rfl)
    refine ⟨others.modify n (·.excepting x), ?_⟩
    change p.overrides.blocks.modify _ _ = _
    rw [hblocks]
    exact List.modifyTailIdx_add _ n (protections ownTypes) others

/-- What one step keeps: an override is registered behind the others, and entity types are added. -/
theorem keeps_step {x : Step}
    (hentities : ∀ p es es', K p es → (∀ t, es.has t = true → es'.has t = true) → K p es')
    (hoverride : ∀ o, x = .override o → ∀ p es, K p es →
      K { p with overrides := p.overrides.register o } es) : Keeps K x.run := by
  cases x with
  | administer op => exact keeps_get.bind fun s => keeps_lift _
  | declare d => exact keeps_onEntitlements _
  | register d => exact keeps_onEntitlements _
  | listen name l => exact keeps_onEntitlements _
  | override o => exact leads_modify fun s hs => hoverride o rfl _ _ hs
  | entity schema =>
    refine (leads_addEntity schema).mono fun _ s h => ?_
    obtain ⟨es, hs, hhas, -⟩ := h
    exact hentities _ es _ hs hhas
  | start => exact keeps_start
  | evaluate q => exact keeps_get.bind fun s => keeps_lift _
  | stream account action listener records => exact keeps_get.bind fun s => keeps_lift _

theorem keeps_run (x : Step) : Keeps IsProtected x.run :=
  keeps_step (fun _ _ _ h hhas => ⟨h.blocks, fun t ht => hhas t (h.has t ht)⟩)
    fun o _ _ _ h => h.register o

theorem Keeps.take {p : Stateful Service α} (hp : Keeps K p) {s : Service}
    (hs : K s.policy s.entities) (w : World) :
    K (take World.answer p s w).2.1.policy (take World.answer p s w).2.1.entities := by
  rw [Service.take]
  split
  · next r c s' heq => exact (hp s hs).runBy (congrArg Prod.fst heq)
  · exact hs

theorem leads_take {p : Stateful Service α} {P : Service → Prop}
    {Q : Except Error α → Service → Prop} (hp : Leads P p Q) {s s' : Service} (hs : P s) {a : α}
    {v w : World} (h : take World.answer p s v = (.ok a, s', w)) : Q (.ok a) s' := by
  have hrun : ((p s).runBy World.answer v).1 = .ok (.ok a, s') := by
    rw [Service.take] at h
    split at h
    · next r c s'' heq =>
      cases h
      exact congrArg Prod.fst heq
    · cases h
  exact (hp s hs).runBy hrun

def withOverrides (s : Service) (overrides : Overrides) : Service :=
  { s with policy := { s.policy with overrides } }

/-- A service in use, with the overrides that the application got back when it registered them: each
by the list in which it stands, and its position there. What surrounds the service may be anything
whenever something is asked of it. -/
inductive InUse : Service → List (Bool × Nat) → Prop where
  | setUp {new s : Service} {v w : World} (hnew : new.policy.overrides = {})
    (h : take World.answer setUp new v = (.ok (), s, w)) : InUse s []
  | step {s : Service} {returned : List (Bool × Nat)} (h : InUse s returned) (x : Step)
    (w : World) : InUse (take World.answer x.run s w).2.1 returned
  | override {s : Service} {returned : List (Bool × Nat)} (h : InUse s returned) (o : Override) :
    InUse (s.withOverrides (s.policy.overrides.register o))
      ((o.kind.isBlock, if o.kind.isBlock then s.policy.overrides.blocks.length
        else s.policy.overrides.bypasses.length) :: returned)
  | except {s : Service} {returned : List (Bool × Nat)} (h : InUse s returned) {isBlock : Bool}
    {position : Nat} (hr : (isBlock, position) ∈ returned) (p : Predicate) :
    InUse (s.withOverrides (s.policy.overrides.excepting isBlock position p)) returned

theorem InUse.isProtected {s : Service} {returned : List (Bool × Nat)} (h : InUse s returned) :
    IsProtected s.policy s.entities ∧
      ∀ n, (true, n) ∈ returned → (protections ownTypes).length ≤ n := by
  induction h with
  | @setUp new s v w hnew h =>
    obtain ⟨hoverrides, hhas⟩ := leads_take leads_setUp hnew h rfl
    refine ⟨⟨⟨[], ?_⟩, hhas⟩, fun n hn => absurd hn List.not_mem_nil⟩
    rw [hoverrides, List.append_nil]
  | @step s returned h x w ih => exact ⟨(keeps_run x).take ih.1 w, ih.2⟩
  | @override s returned h o ih =>
    -- what is registered now stands at the end of its list, behind the protections
    refine ⟨ih.1.register o, fun n hn => ?_⟩
    rcases List.mem_cons.1 hn with heq | hn
    · obtain ⟨hkind, hplace⟩ := Prod.mk.inj heq
      obtain ⟨others, hblocks⟩ := ih.1.blocks
      rw [hplace, if_pos hkind.symm, hblocks, List.length_append]
      exact Nat.le_add_right _ _
    · exact ih.2 n hn
  | except h hr x ih =>
    refine ⟨ih.1.excepting (fun hblock => ?_) x, ih.2⟩
    exact ih.2 _ (hblock ▸ hr)

/-! What the protections decide. -/

/-- The denial of an action on a protected type: what it leaves in the log, and in the counters of
an entry point. -/
def denial (entryPoint entityType action : String) : Program Decision := do
  log .debug "permissions.overrides" "Override matched"
    [("override", .text (protection entityType action).summary), ("action", .text action),
      ("entity_type", .text entityType)]
  Policy.counted entryPoint (.block (protection entityType action))

theorem applies_protection (t action : String) (r : Request) :
    (protection t action).applies r = pure true :=
  rfl

theorem find?_protections {t action : String} (ht : t ∈ ownTypes) (ha : action ∈ protectedActions) :
    (protections ownTypes).find? (·.concerns action t) = some (protection t action) := by
  have hown : ∀ t ∈ ownTypes, t ≠ wildcard := by decide
  have hactions : ∀ action ∈ protectedActions, action ≠ wildcard := by decide
  cases hfind : (protections ownTypes).find? (·.concerns action t) with
  | none =>
    have hmem : protection t action ∈ protections ownTypes :=
      List.mem_flatMap.2 ⟨t, ht, List.mem_map.2 ⟨action, ha, rfl⟩⟩
    have hconcerns := List.find?_eq_none.1 hfind _ hmem
    simp [Override.concerns, protection, Permission.fits_self] at hconcerns
  | some o =>
    obtain ⟨t', ht', ho⟩ := List.mem_flatMap.1 (List.mem_of_find?_eq_some hfind)
    obtain ⟨action', ha', rfl⟩ := List.mem_map.1 ho
    have hconcerns : Permission.fits action' action = true ∧ Permission.fits t' t = true := by
      simpa [Override.concerns, protection] using List.find?_some hfind
    -- a protection is keyed on no wildcard, so it fits its own type and action only
    simp only [Permission.fits, Bool.or_eq_true, decide_eq_true_eq, hactions action' ha',
      hown t' ht', false_or] at hconcerns
    rw [hconcerns.1, hconcerns.2]

theorem first?_append_of_applies {r : Request} {front : List Override}
    (h : ∀ o ∈ front, o.applies r = pure true) {o : Override}
    (hfind : front.find? (·.concerns r.action r.entityType) = some o) (back : List Override) :
    Override.first? r (front ++ back) = pure (some o) := by
  induction front with
  | nil => cases hfind
  | cons x front ih =>
    rw [List.cons_append, Override.first?]
    by_cases hx : x.concerns r.action r.entityType = true
    · simp only [List.find?_cons, hx] at hfind
      rw [if_pos hx, h x List.mem_cons_self, Option.some.inj hfind]
      rfl
    · simp only [List.find?_cons, hx] at hfind
      rw [if_neg hx]
      exact ih (fun o ho => h o (List.mem_cons_of_mem _ ho)) hfind

namespace IsProtected

variable {p : Policy} {es : Entities} {r : Request}

theorem first? (h : IsProtected p es) (ht : r.entityType ∈ ownTypes)
    (ha : r.action ∈ protectedActions) :
    Override.first? r p.overrides.blocks = pure (some (protection r.entityType r.action)) := by
  obtain ⟨others, hblocks⟩ := h.blocks
  have happlies : ∀ o ∈ protections ownTypes, o.applies r = pure true := by
    intro o ho
    obtain ⟨t, -, ho⟩ := List.mem_flatMap.1 ho
    obtain ⟨action, -, rfl⟩ := List.mem_map.1 ho
    exact applies_protection t action r
  rw [hblocks]
  exact first?_append_of_applies happlies (find?_protections ht ha) others

theorem pick? (h : IsProtected p es) (ht : r.entityType ∈ ownTypes)
    (ha : r.action ∈ protectedActions) :
    Override.pick? r p.overrides.blocks = .ok (some (protection r.entityType r.action)) := by
  have hwaits := Override.waits_first? r p.overrides.blocks
  rw [h.first? ht ha] at hwaits
  generalize Override.pick? r p.overrides.blocks = x at hwaits ⊢
  cases hwaits
  rfl

theorem blocked? (h : IsProtected p es) (ht : r.entityType ∈ ownTypes)
    (ha : r.action ∈ protectedActions) (entryPoint : String) :
    p.blocked? entryPoint r = some <$> denial entryPoint r.entityType r.action := by
  rw [Policy.blocked?, Policy.find?, h.first? ht ha]
  rfl

theorem require (h : IsProtected p es) {t : String} (ht : t ∈ ownTypes) :
    ∃ e, es.require t = .ok e := by
  have hhas := h.has t ht
  rw [Entities.has, Option.isSome_iff_exists] at hhas
  obtain ⟨e, he⟩ := hhas
  exact ⟨e, by rw [Entities.require, he]⟩

theorem settled? (h : IsProtected p es) (ht : r.entityType ∈ ownTypes)
    (ha : r.action ∈ protectedActions) (i : Inquiry) :
    p.settled? i r = some <$> liftM (denial i.entryPoint r.entityType r.action) := by
  rw [Policy.settled?, h.blocked? ht ha]
  simp

theorem decide (h : IsProtected p es) (ht : r.entityType ∈ ownTypes)
    (ha : r.action ∈ protectedActions) (i : Inquiry) (test : Snapshot → Except Error Bool) :
    p.decide i r test = liftM (denial i.entryPoint r.entityType r.action) := by
  rw [Policy.decide, h.settled? ht ha]
  simp

end IsProtected

abbrev attributed {α : Type} (account : Account) (p : Program α) : Program α :=
  within { account := some (.text account.id) } p

theorem fixed_denial (entryPoint t action : String) :
    Fixed Effect.isQuiet (denial entryPoint t action) (.ok (.block (protection t action))) :=
  .ask rfl fun _ => (Policy.fixed_counted entryPoint _).mono Effect.isQuiet_of_isSilent

theorem run'_lift {α : Type} (p : Program α) : (liftM p : Batched α).run' {} = p := by
  change Prod.fst <$> StateT.run (liftM p : Batched α) {} = p
  simp

section Alone

variable {s : Service} (h : IsProtected s.policy s.entities) {record : Record}
  (ht : record.entityType ∈ ownTypes) {action : String} (ha : action ∈ protectedActions)

include h ht ha

theorem decideEach_denied (i : Inquiry) (account : Option Account) :
    s.authority.decideEach i account [record] action =
      liftM (do return [← denial i.entryPoint record.entityType action] : Program _) := by
  have hdecide : s.authority.policy.decide i (Authority.recordRequest account record action)
      (·.allows record action) = liftM (denial i.entryPoint record.entityType action) :=
    h.decide (r := Authority.recordRequest account record action) ht ha i _
  rw [Authority.decideEach, List.mapM_cons, hdecide]
  simp

theorem mapM_one_denied (i : Inquiry) (account : Account) :
    [record].mapM (s.filter.one i account action) = liftM (do
      return [Filter.whole record
        (← denial i.entryPoint record.entityType action)] : Program _) := by
  have hsettled : s.filter.authority.policy.settled? i
      (Authority.recordRequest account record action) =
        some <$> liftM (denial i.entryPoint record.entityType action) :=
    h.settled? (r := Authority.recordRequest account record action) ht ha i
  rw [List.mapM_cons, Filter.one, hsettled]
  simp

theorem blockedFields_denied (account : Account) (listener : Option Listener) :
    Pipe.blockedFields s.filter { account, action, listener } record = .ok (some []) := by
  obtain ⟨e, he⟩ := h.require ht
  have hknown : s.filter.entities.require record.entityType = .ok e := he
  have hpick : Override.pick? (Authority.recordRequest account record action)
      s.filter.authority.policy.overrides.blocks =
        .ok (some (protection record.entityType action)) :=
    h.pick? (r := Authority.recordRequest account record action) ht ha
  rw [Pipe.blockedFields, hknown, Pipe.request, hpick]
  rfl

end Alone

theorem batch_denied {s : Service} (h : IsProtected s.policy s.entities) {record : Record}
    (ht : record.entityType ∈ ownTypes) {action : Action} (ha : action.name ∈ protectedActions)
    (account : Account) :
    s.filter.batch account [record] action = attributed account (do
      let _ ← denial "filter_batch" record.entityType action.name
      return [[]]) := by
  obtain ⟨e, he⟩ := h.require ht
  have hknown : s.filter.entities.require record.entityType = .ok e := he
  have hmapM := mapM_one_denied h ht ha (s.filter.authority.inquiry "filter_batch" account) account
  rw [Filter.batch, List.forM, hknown]
  change Authority.asking account _ = _
  rw [hmapM, Authority.asking, run'_lift]
  rfl

theorem advance_denied {s : Service} (h : IsProtected s.policy s.entities) (p : Pipe)
    {record : Record} (ht : record.entityType ∈ ownTypes) (ha : p.action ∈ protectedActions) :
    (p.arrive s.filter record).advance s.filter p.calls.length = (do
      let _ ← attributed p.account (denial Pipe.entryPoint record.entityType p.action)
      return { p with calls := p.calls ++ [⟨record, .ended (.ok [])⟩] }) := by
  obtain ⟨e, he⟩ := h.require ht
  have hblocked : (p.arrive s.filter record).blocked? s.filter record =
      (fun d => some (Filter.whole record d)) <$>
        denial Pipe.entryPoint record.entityType p.action := by
    have hpolicy := h.blocked? (r := p.request record) ht ha Pipe.entryPoint
    change (Program.ofExcept (s.entities.require record.entityType) >>= fun _ =>
      s.policy.blocked? Pipe.entryPoint (p.request record) >>= fun d =>
        pure (d.map (Filter.whole record))) = _
    rw [he, hpolicy]
    rfl
  have hcall : (p.arrive s.filter record).stage? p.calls.length =
      some (.checking ((p.arrive s.filter record).blocked? s.filter record)) :=
    congrArg (Option.map Pipe.Call.stage) List.getElem?_concat_length
  rw [Pipe.advance, hcall]
  simp only [hblocked]
  rw [← Pipe.setStage_arrive s.filter p record]
  rfl

/-- A mutation of the own types of a service in use is denied at every entry point, whoever asks
and whatever is registered: nothing happens but that the denial is logged and counted. -/
theorem InUse.denies_mutation {s : Service} {returned : List (Bool × Nat)} (h : InUse s returned)
    {t : String} (ht : t ∈ ownTypes) :
    (∀ entryPoint action,
      Fixed Effect.isQuiet (denial entryPoint t action) (.ok (.block (protection t action)))) ∧
    (∀ (account : Account) (attributes : Value) (tags : List Value), attributes.parts = .ok tags →
      s.authority.mayCreate account t attributes = do
        let _ ← attributed account (denial "can_create" t RecordAction.create.name)
        return false) ∧
    ∀ action : Action, action.name ∈ protectedActions → ∀ record : Record, record.entityType = t →
      (∀ account : Account,
        s.authority.decisions account [record] action = attributed account (do
          return [← denial "account_can_do" t action.name]) ∧
        s.authority.verdicts account [record] action = (do
          let _ ← attributed account (denial "account_can_do" t action.name)
          return [false]) ∧
        s.filter.batch account [record] action = (do
          let _ ← attributed account (denial "filter_batch" t action.name)
          return [[]]) ∧
        ∀ listener, Fixed Effect.isQuiet
          (Pipe.results s.filter { account, action := action.name, listener } [record])
          (.ok [some (.ok [])])) ∧
      (∀ roles, s.authority.verdictsOfRoles roles [record] action = do
        let _ ← denial "roles_can_do" t action.name
        return [false]) ∧
      ∀ p : Pipe, p.action = action.name →
        (p.arrive s.filter record).advance s.filter p.calls.length = do
          let _ ← attributed p.account (denial Pipe.entryPoint t action.name)
          return { p with calls := p.calls ++ [⟨record, .ended (.ok [])⟩] } := by
  have hs := h.isProtected.1
  refine ⟨fun entryPoint action => fixed_denial entryPoint t action, ?_, ?_⟩
  · intro account attributes tags htags
    have hcreate : RecordAction.create.name ∈ protectedActions := by decide
    rw [Authority.mayCreate, htags]
    change (Authority.asking account (s.policy.decide _ _ _) >>= fun d => pure d.allowed) = _
    rw [hs.decide (r := ⟨account, RecordAction.create.name, t, none, .list tags, []⟩) ht hcreate,
      Authority.asking, run'_lift]
    rfl
  · intro action ha record hr
    subst hr
    refine ⟨fun account => ⟨?_, ?_, ?_, fun listener => ?_⟩, fun roles => ?_,
      fun p hp => hp ▸ advance_denied hs p ht (hp ▸ ha)⟩
    · rw [Authority.decisions, decideEach_denied hs ht ha, Authority.asking, run'_lift]
      rfl
    · rw [Authority.verdicts, Authority.decisions, decideEach_denied hs ht ha, Authority.asking,
        run'_lift]
      rfl
    · rw [batch_denied hs ht ha]
      rfl
    · exact fixed_of_settles fun hI hne => Pipe.settles_results_blocked hI hne rfl rfl
        (blockedFields_denied hs ht ha account listener)
    · rw [Authority.verdictsOfRoles, Authority.verdictsFrom, decideEach_denied hs ht ha, run'_lift]
      rfl

/-! Everything is allowed to everybody, a block fails, and roles get another schema: an
administrator still deletes no role. -/

def lenient : Service :=
  let everything (kind : Override.Kind) (p : Predicate) : Override :=
    ⟨kind, wildcard, wildcard, p, []⟩
  let s := (take World.answer setUp (bare "permissions" ⟨{}, hasFlag⟩ none none) founding).2.1
  let s :=
    (take World.answer (Step.override (everything .bypass Override.always)).run s founding).2.1
  let s := (take World.answer (Step.entity (Entity.ofNames roleType ["label"])).run s founding).2.1
  let s := s.withOverrides (s.policy.overrides.register
    (everything .accountBlock ⟨fun _ => .error .cancelled, false⟩))
  s.withOverrides (s.policy.overrides.excepting true 35 Override.always)

theorem inUse_lenient : InUse lenient [(true, 35)] := by
  have hset : (take World.answer setUp (bare "permissions" ⟨{}, hasFlag⟩ none none) founding).1 =
      .ok () := by
    decide +kernel
  have hfresh : (bare "permissions" ⟨{}, hasFlag⟩ none none).policy.overrides = {} := rfl
  have hnew := InUse.setUp hfresh (Prod.ext hset rfl)
  refine .except ?_ List.mem_cons_self Override.always
  exact ((hnew.step (.override _) founding).step (.entity _) founding).override _

theorem denies_mutation_of_lenient :
    ((lenient.authority.verdicts { id := "root", isAdmin := true }
      [⟨roleType, [], .list []⟩] (.record .delete)).run founding).1 = .ok [false] := by
  obtain ⟨-, -, hall⟩ := inUse_lenient.denies_mutation (t := roleType) (by decide)
  obtain ⟨haccount, -⟩ := hall (.record .delete) (by decide) ⟨roleType, [], .list []⟩ rfl
  obtain ⟨-, hverdicts, -⟩ := haccount { id := "root", isAdmin := true }
  rw [hverdicts]
  rfl

end Service

end AccessControl
