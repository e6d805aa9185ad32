import AccessControl.Grant.Resolution
import AccessControl.Proofs.Outcome
import AccessControl.Proofs.Store.Healthy
import AccessControl.Proofs.Store.Reachability

/-!
Resolution without a cache: the grants of an account are the rulesets that are reachable from it,
joined with the entitlements that can be read.
-/

namespace AccessControl

open Permission (Rule)

/-! Reading entitlements. -/

/-- A capability holds what an entitlement says, with each of its permissions read as a rule. -/
structure Capability.Reads (c : Capability) (e : Entitlement) : Prop where
  name : c.name = e.name
  group : c.group = e.group
  entityTypes : c.entityTypes = e.appliesTo
  rules : List.Forall₂ (fun raw r => Rule.ofValue raw = .ok r) e.permissions c.rules
  features : c.features = e.features
  defaultFeatureScopes : c.defaultFeatureScopes = e.defaultFeatureScopes

namespace Entitlement

def isReadable (e : Entitlement) : Bool :=
  e.permissions.all fun raw => (Rule.ofValue raw).isOk

def capability? (e : Entitlement) : Option Capability :=
  (Capability.ofEntitlement e).toOption

theorem capability?_eq_some_iff {e : Entitlement} {c : Capability} :
    e.capability? = some c ↔ c.Reads e := by
  have h : e.capability? = some c ↔ Capability.ofEntitlement e = .ok c := by
    rw [capability?]
    cases Capability.ofEntitlement e <;> simp [Except.toOption]
  rw [h, Capability.ofEntitlement, Outcome.bind_eq_ok_iff]
  simp only [Permission.rules, Outcome.mapM_eq_ok_iff, pure, Except.pure, Except.ok.injEq]
  constructor
  · rintro ⟨rules, hr, rfl⟩
    exact ⟨rfl, rfl, rfl, hr, rfl, rfl⟩
  · rintro ⟨hn, hg, ht, hr, hf, hs⟩
    refine ⟨c.rules, hr, ?_⟩
    cases c
    subst hn hg ht hf hs
    rfl

theorem isSome_capability? (e : Entitlement) : e.capability?.isSome = e.isReadable := by
  rw [isReadable, ← Outcome.isOk_mapM, capability?, Capability.ofEntitlement, Permission.rules]
  cases e.permissions.mapM Rule.ofValue <;> rfl

end Entitlement

/-! The index. -/

namespace CapabilityIndex

theorem lookup_extend (index : CapabilityIndex) (e : Entitlement) (name : String) :
    (index.extend e).lookup name =
      if e.name = name then e.capability?.or (index.lookup name) else index.lookup name := by
  rw [extend, Entitlement.capability?]
  cases Capability.ofEntitlement e with
  | error _ => simp [Except.toOption]
  | ok c =>
    rw [List.lookup_cons]
    by_cases h : e.name = name
    · simp [h, Except.toOption]
    · rw [if_neg h, beq_false_of_ne (Ne.symm h)]

theorem lookup_foldl {es : List Entitlement} (hes : (es.map Entitlement.name).Nodup)
    {index : CapabilityIndex} {name : String}
    (h : name ∈ es.map Entitlement.name → index.lookup name = none) :
    (es.foldl extend index).lookup name =
      ((es.find? (·.name = name)).bind Entitlement.capability?).or (index.lookup name) := by
  induction es generalizing index with
  | nil => rfl
  | cons e es ih =>
    rw [List.map_cons, List.nodup_cons] at hes
    rw [List.foldl_cons, List.find?_cons]
    by_cases he : e.name = name
    · subst he
      -- names are all different, so no later entitlement hides this one
      have hrest : es.find? (·.name = e.name) = none := by
        rw [List.find?_eq_none]
        intro f hf hn
        exact hes.1 (List.mem_map.2 ⟨f, hf, of_decide_eq_true hn⟩)
      rw [ih hes.2 fun hm => absurd hm hes.1, hrest, lookup_extend, if_pos rfl]
      simp
    · have hl : (index.extend e).lookup name = index.lookup name := by
        rw [lookup_extend, if_neg he]
      rw [ih hes.2 fun hm => ?_, hl]
      · simp [he]
      · rw [hl]
        exact h (by simp [hm])

end CapabilityIndex

namespace Store.Tables

def capability? (t : Tables) (name : String) : Option Capability :=
  (t.entitlements.get? name).bind Entitlement.capability?

theorem lookup_ofEntitlements (t : Tables) (name : String) :
    (CapabilityIndex.ofEntitlements t.entitlements.rows).lookup name = t.capability? name := by
  rw [CapabilityIndex.ofEntitlements,
    CapabilityIndex.lookup_foldl t.entitlements.nodup fun _ => rfl]
  exact Option.or_none

/-- A ruleset grants something: there is an entitlement of its name that can be read. -/
def isGranted (t : Tables) (r : Ruleset) : Bool :=
  t.entitlements.rows.any fun e => e.name = r.entitlement && e.isReadable

theorem isSome_capability? (t : Tables) (r : Ruleset) :
    (t.capability? r.entitlement).isSome = t.isGranted r := by
  rw [Bool.eq_iff_iff, capability?, Option.isSome_bind, Option.any_eq_true, isGranted,
    List.any_eq_true]
  simp only [Table.get?_eq_some_iff, Entitlement.isSome_capability?, Bool.and_eq_true,
    decide_eq_true_eq]
  constructor
  · rintro ⟨e, ⟨he, hk⟩, hr⟩
    exact ⟨e, he, hk, hr⟩
  · rintro ⟨e, he, hk, hr⟩
    exact ⟨e, ⟨he, hk⟩, hr⟩

def grant? (t : Tables) (r : Ruleset) : Option Grant :=
  (t.capability? r.entitlement).map (⟨r, ·⟩)

theorem grant?_ofEntitlements (t : Tables) :
    (CapabilityIndex.ofEntitlements t.entitlements.rows).grant? = t.grant? := by
  funext r
  rw [CapabilityIndex.grant?, lookup_ofEntitlements, grant?]

def grantsOf (t : Tables) (account : String) : List Grant :=
  (t.reachable account).toList.filterMap t.grant?

theorem map_ruleset_grantsOf (t : Tables) (account : String) :
    (t.grantsOf account).map Grant.ruleset = (t.reachable account).toList.filter t.isGranted := by
  rw [grantsOf]
  induction (t.reachable account).toList with
  | nil => rfl
  | cons r rs ih =>
    rw [List.filter_cons, ← isSome_capability?]
    cases h : t.capability? r.entitlement with
    | none => simpa [grant?, h] using ih
    | some c => simpa [grant?, h] using ih

theorem reads_of_mem_grantsOf {t : Tables} {account : String} {g : Grant}
    (hg : g ∈ t.grantsOf account) :
    ∃ e ∈ t.entitlements.rows, e.name = g.ruleset.entitlement ∧ g.capability.Reads e := by
  obtain ⟨r, -, hr⟩ := List.mem_filterMap.1 hg
  obtain ⟨c, hc, rfl⟩ := Option.map_eq_some_iff.1 hr
  obtain ⟨e, he, hec⟩ := Option.bind_eq_some_iff.1 hc
  obtain ⟨hm, hk⟩ := Table.get?_eq_some_iff.1 he
  exact ⟨e, hm, hk, Entitlement.capability?_eq_some_iff.1 hec⟩

/-! Tables without what grants nothing. -/

/-- The role of a ruleset is missing, if it has one, or its entitlement is. -/
def isDangling (t : Tables) (r : Ruleset) : Bool :=
  match r with
  | .role s => !t.roles.contains s.role || !t.entitlements.contains s.entitlement
  | .account s => !t.entitlements.contains s.entitlement

/-- The tables without entitlements that cannot be read, and without the rulesets that dangle
then. -/
def pruned (t : Tables) : Tables :=
  let u := { t with entitlements := t.entitlements.filter Entitlement.isReadable }
  { u with
    roleRulesets := t.roleRulesets.filter fun r => !u.isDangling (.role r)
    accountRulesets := t.accountRulesets.filter fun r => !u.isDangling (.account r) }

theorem capability?_pruned (t : Tables) (name : String) :
    t.pruned.capability? name = t.capability? name := by
  change ((t.entitlements.filter Entitlement.isReadable).get? name).bind _ = _
  rw [Table.get?_filter, capability?]
  cases t.entitlements.get? name with
  | none => rfl
  | some e =>
    rw [Option.filter_some, ← Entitlement.isSome_capability?]
    cases h : e.capability? <;> simp [h]

theorem filterMap_grant?_filter (t : Tables) (p : Ruleset → Bool) (rs : List Ruleset)
    (h : ∀ r ∈ rs, p r = false → t.capability? r.entitlement = none) :
    (rs.filter p).filterMap t.grant? = rs.filterMap t.grant? := by
  induction rs with
  | nil => rfl
  | cons r rs ih =>
    have ih := ih fun s hs => h s (List.mem_cons_of_mem _ hs)
    cases hp : p r with
    | true => rw [List.filter_cons_of_pos hp, List.filterMap_cons, List.filterMap_cons, ih]
    | false =>
      rw [List.filter_cons_of_neg (by simp [hp]), ih, List.filterMap_cons, grant?,
        h r List.mem_cons_self hp]
      rfl

theorem role_reachable_pruned (t : Tables) (account : String) :
    (t.pruned.reachable account).role =
      (t.reachable account).role.filter fun r => !t.pruned.isDangling (.role r) := by
  change (t.roleRulesets.rows.filter _).filter _ = (t.roleRulesets.rows.filter _).filter _
  exact List.filter_comm ..

theorem account_reachable_pruned (t : Tables) (account : String) :
    (t.pruned.reachable account).account =
      (t.reachable account).account.filter fun r => !t.pruned.isDangling (.account r) := by
  exact List.filter_comm ..

theorem capability?_of_isDangling {t : Tables} {account : String} {r : Ruleset}
    (hr : r ∈ (t.reachable account).toList) (hd : t.pruned.isDangling r = true) :
    t.capability? r.entitlement = none := by
  have hmissing : t.pruned.entitlements.contains r.entitlement = false := by
    cases r with
    | role s =>
      obtain ⟨-, hs⟩ := (t.mem_reachable_iff account (.role s)).1 hr
      have hrole : t.pruned.roles.contains s.role = true := (Bool.and_eq_true_iff.1 hs).1
      rw [isDangling, hrole] at hd
      simpa [Ruleset.entitlement] using hd
    | account s => simpa [isDangling, Ruleset.entitlement] using hd
  rw [← capability?_pruned, capability?]
  rw [Table.contains, Option.isSome_eq_false_iff, Option.isNone_iff_eq_none] at hmissing
  rw [hmissing]
  rfl

theorem grantsOf_pruned (t : Tables) (account : String) :
    t.pruned.grantsOf account = t.grantsOf account := by
  have hgrant : t.pruned.grant? = t.grant? := by
    funext r
    rw [grant?, capability?_pruned, grant?]
  have hlist : (t.pruned.reachable account).toList =
      (t.reachable account).toList.filter fun r => !t.pruned.isDangling r := by
    rw [Rulesets.toList, role_reachable_pruned, account_reachable_pruned, Rulesets.toList,
      List.filter_append, List.filter_map, List.filter_map]
    rfl
  rw [grantsOf, hgrant, hlist, grantsOf]
  exact t.filterMap_grant?_filter _ _ fun r hr hd =>
    capability?_of_isDangling hr (by simpa using hd)

end Store.Tables

/-! Resolution. -/

open Program

/-- What a resolution is supplied with: a store that holds the tables, and perhaps a cache whose
texts, as far as they can be understood, are rows of an account or a table of entitlements that are
fit to be used. -/
structure Supplies {σ : Type} (ι : Interpreter σ) (I : σ → Prop) (mayFail : Prop)
    (t : Store.Tables) (cache : Option GrantCache) (fitRows : String → Rulesets → Prop)
    (fitTable : List Entitlement → Prop) : Prop where
  inert : Inert ι I
  store : ∀ c, t.after c = t → ∀ s, I s →
    I (ι s (.store c)).2 ∧ Yielded mayFail (· = t.reply c) (ι s (.store c)).1
  rows : ∀ a, fitRows a (t.reachable a)
  table : fitTable t.entitlements.rows
  get : cache.isSome → ∀ key s, I s → I (ι s (.cache (.get key))).2
  set_rows : ∀ c ∈ cache, ∀ a s, I s →
    I (ι s (.cache (.set (GrantCache.accountKey a) c.rulesetTtl
      (Wire.write (t.reachable a).value)))).2
  set_table : ∀ c ∈ cache, ∀ s, I s →
    I (ι s (.cache (.set GrantCache.entitlementsKey c.entitlementTtl
      (Wire.write (Entitlement.listing t.entitlements.rows))))).2
  read_rows : cache.isSome → ∀ a s, I s → ∀ text,
    (ι s (.cache (.get (GrantCache.accountKey a)))).1 = .ok (some text) →
      ∀ now r, Rulesets.read? now text = some r → fitRows a r
  read_table : cache.isSome → ∀ s, I s → ∀ text,
    (ι s (.cache (.get GrantCache.entitlementsKey))).1 = .ok (some text) →
      ∀ now es, Entitlement.readAll? now text = some es → fitTable es

section Supplied

variable {σ : Type} {ι : Interpreter σ} {I : σ → Prop} {mayFail : Prop} {t : Store.Tables}
  (hI : Inert ι I) (hstore : ∀ c, t.after c = t → ∀ s, I s →
    I (ι s (.store c)).2 ∧ Yielded mayFail (· = t.reply c) (ι s (.store c)).1)

include hI hstore

theorem supplies_uncached :
    Supplies ι I mayFail t none (fun a rows => rows = t.reachable a)
      (· = t.entitlements.rows) where
  inert := hI
  store := hstore
  rows _ := rfl
  table := rfl
  get := by simp
  set_rows := by simp
  set_table := by simp
  read_rows := by simp
  read_table := by simp

theorem supplies_any (hcache : ∀ c s, I s → I (ι s (.cache c)).2) (cache : Option GrantCache) :
    Supplies ι I mayFail t cache (fun _ _ => True) fun _ => True where
  inert := hI
  store := hstore
  rows _ := trivial
  table := trivial
  get _ _ _ hs := hcache _ _ hs
  set_rows _ _ _ _ hs := hcache _ _ hs
  set_table _ _ _ hs := hcache _ _ hs
  read_rows _ _ _ _ _ _ _ _ _ := trivial
  read_table _ _ _ _ _ _ _ _ := trivial

end Supplied

namespace GrantCache

variable {σ α : Type} {ι : Interpreter σ} {I : σ → Prop} {mayFail : Prop} (hI : Inert ι I)

include hI

theorem settles_tally (tally : Cache.Tally) : Settles ι I (perform (.tally tally)) (.ok ()) :=
  settles_quiet hI rfl fun _ => rfl

theorem yields_understood {message key : String} {fields : Value.Fields}
    {read? : Instant → String → Option α} {fit : α → Prop}
    (hkeep : ∀ s, I s → I (ι s (.cache (.get key))).2)
    (hfit : ∀ s, I s → ∀ text, (ι s (.cache (.get key))).1 = .ok (some text) →
      ∀ now a, read? now text = some a → fit a) :
    Yields ι I mayFail (understood message fields read? key) fun a => ∀ b ∈ a, fit b := by
  have hnone : ∀ b ∈ (none : Option α), fit b := by simp
  have hmissed : Yields ι I mayFail (understood.missed (α := α) message fields)
      fun a => ∀ b ∈ a, fit b :=
    (settles_log hI).ok_bind ((settles_tally hI _).ok_bind hnone)
  have hget : Yields ι I mayFail (perform (.cache (.get key))) fun x =>
      ∀ text, x = .ok (some text) → ∀ now a, read? now text = some a → fit a :=
    upholds_perform fun s hs => ⟨hkeep s hs, hfit s hs⟩
  refine hget.bind fun x hx => ?_
  rcases x with e | _ | text
  · exact hmissed
  · exact (settles_tally hI _).ok_bind hnone
  · have hnow : Yields ι I mayFail (perform .now) fun _ => True :=
      upholds_quiet hI rfl fun _ => trivial
    refine hnow.bind fun now _ => ?_
    cases ha : read? now text with
    | none => exact hmissed
    | some a =>
      refine (settles_tally hI _).ok_bind ?_
      rintro b ⟨⟩
      exact hx text rfl now a ha

theorem yields_succeeded {c : Cache.Command} {tally : Cache.Tally} {message : String}
    {fields : Value.Fields} (hkeep : ∀ s, I s → I (ι s (.cache c)).2) :
    Yields ι I mayFail (succeeded c tally message fields) fun _ => True := by
  have hperform : Yields ι I mayFail (perform (.cache c)) fun _ => True :=
    upholds_perform fun s hs => ⟨hkeep s hs, trivial⟩
  refine hperform.bind fun x _ => ?_
  cases x with
  | error e => exact (settles_log hI).ok_bind trivial
  | ok r => exact (settles_tally hI tally).ok_bind trivial

end GrantCache

namespace Grants

open Store

variable {σ : Type} {ι : Interpreter σ} {I : σ → Prop} {mayFail : Prop} {t : Tables}
  {cache : Option GrantCache} {fitRows : String → Rulesets → Prop}
  {fitTable : List Entitlement → Prop} (h : Supplies ι I mayFail t cache fitRows fitTable)

include h

theorem yields_call {c : Call} (hc : t.after c = t) :
    Yields ι I mayFail (call c) (· = t.reply c) := by
  have hperform : Yields ι I mayFail (perform (.store c)) (Yielded mayFail (· = t.reply c)) :=
    upholds_perform fun s hs => h.store c hc s hs
  exact hperform.bind fun _ hx => yields_ofExcept hx

theorem yields_storedRulesets (account : String) :
    Yields ι I mayFail (storedRulesets account) (· = t.reachable account) := by
  have hrole := yields_call h (c := .rulesetsThroughRoles account) rfl
  have haccount := yields_call h (c := .rulesetsOfAccount account) rfl
  rw [Tables.reply_rulesetsThroughRoles] at hrole
  rw [Tables.reply_rulesetsOfAccount] at haccount
  refine ((hrole.both h.inert haccount).storing h.inert _ _).bind ?_
  rintro ⟨_, _⟩ ⟨rfl, rfl⟩
  rfl

theorem settles_counted (source : String) :
    Settles ι I (perform (.count (Counters.resolution source))) (.ok ()) :=
  settles_quiet h.inert rfl fun _ => rfl

theorem yields_rulesets (account : String) :
    Yields ι I mayFail (Grants.rulesets ⟨cache⟩ account) (fitRows account) := by
  have hstored := yields_storedRulesets h account
  cases cache with
  | none =>
    refine hstored.bind fun rows hrows => (settles_counted h "store").ok_bind ?_
    exact hrows ▸ h.rows account
  | some c =>
    have hread : Yields ι I mayFail (GrantCache.rulesets? account)
        fun a => ∀ b ∈ a, fitRows account b :=
      GrantCache.yields_understood h.inert (h.get rfl _) (h.read_rows rfl account)
    refine hread.bind fun a ha => ?_
    cases a with
    | some rows => exact (settles_counted h "cache").ok_bind (ha rows rfl)
    | none =>
      refine hstored.bind ?_
      rintro rows rfl
      refine (GrantCache.yields_succeeded h.inert (h.set_rows c rfl account)).bind fun _ _ => ?_
      exact (settles_counted h "store").ok_bind (h.rows account)

theorem yields_entitlements :
    Yields ι I mayFail (Grants.entitlements ⟨cache⟩) fitTable := by
  have hstored : Yields ι I mayFail (storing logger "all_entitlements" (call .entitlements))
      (· = t.entitlements.rows) :=
    (yields_call h (c := .entitlements) rfl).storing h.inert _ _
  cases cache with
  | none =>
    refine hstored.mono ?_
    rintro es rfl
    exact h.table
  | some c =>
    have hread : Yields ι I mayFail GrantCache.entitlements? fun a => ∀ b ∈ a, fitTable b :=
      GrantCache.yields_understood h.inert (h.get rfl _) (h.read_table rfl)
    refine hread.bind fun a ha => ?_
    cases a with
    | some es => exact ha es rfl
    | none =>
      refine hstored.bind ?_
      rintro es rfl
      exact (GrantCache.yields_succeeded h.inert (h.set_table c rfl)).bind fun _ _ => h.table

theorem settles_warnMalformed (e : Entitlement) : Settles ι I (warnMalformed e) (.ok ()) := by
  rw [warnMalformed]
  cases Capability.ofEntitlement e with
  | ok c => exact settles_pure
  | error e => exact settles_log h.inert

theorem settles_warnDangling (index : CapabilityIndex) (r : Ruleset) :
    Settles ι I (warnDangling index r) (.ok ()) := by
  rw [warnDangling]
  split
  · exact settles_pure
  · exact settles_log h.inert

theorem yields_index :
    Yields ι I mayFail (Grants.index ⟨cache⟩) fun index =>
      ∃ es, index = CapabilityIndex.ofEntitlements es ∧ fitTable es := by
  refine (yields_entitlements h).bind fun es hes => ?_
  exact (settles_forM fun e _ => settles_warnMalformed h e).ok_bind ⟨es, rfl, hes⟩

theorem settles_assemble (subject : String) (rs : List Ruleset) (index : CapabilityIndex) :
    Settles ι I (assemble subject rs index) (.ok ⟨subject, rs.filterMap index.grant?⟩) :=
  (settles_forM fun r _ => settles_warnDangling h index r).ok_bind settles_pure

theorem yields_ofAccount (account : String) :
    Yields ι I mayFail (Grants.ofAccount ⟨cache⟩ account) fun s =>
      ∃ rows es, fitRows account rows ∧ fitTable es ∧
        s = ⟨account, rows.toList.filterMap (CapabilityIndex.ofEntitlements es).grant?⟩ := by
  have hsnapshot : Yields ι I mayFail (Grants.snapshot ⟨cache⟩ account) fun s =>
      ∃ rows es, fitRows account rows ∧ fitTable es ∧
        s = ⟨account, rows.toList.filterMap (CapabilityIndex.ofEntitlements es).grant?⟩ := by
    refine (yields_rulesets h account).bind fun rows hrows => ?_
    cases hempty : rows.toList.isEmpty with
    | true =>
      rw [if_pos rfl]
      exact ⟨rows, _, hrows, h.table, by rw [List.isEmpty_iff.1 hempty]; rfl⟩
    | false =>
      rw [if_neg (by simp)]
      refine (yields_index h).bind ?_
      rintro _ ⟨es, rfl, htable⟩
      refine Upholds.mono (settles_assemble h account rows.toList _) ?_
      rintro r rfl
      exact ⟨rows, es, hrows, htable, rfl⟩
  refine Upholds.bind hsnapshot.attempt ?_ (by simp)
  rintro x ⟨y, hy, hx⟩
  obtain rfl := Except.ok.inj hy
  exact (settles_quiet h.inert (e := .timed) rfl (a := ()) fun _ => rfl).ok_bind
    (yields_ofExcept hx)

theorem yields_ofRoles (roles : List String) :
    Yields ι I mayFail (Grants.ofRoles ⟨cache⟩ roles) fun s =>
      ∃ es, fitTable es ∧ s = ⟨subjectOfRoles roles,
        ((t.rulesetsHeldBy roles).map .role).filterMap
          (CapabilityIndex.ofEntitlements es).grant?⟩ := by
  have hrows := yields_call h (c := .rulesetsOfRoles roles) rfl
  refine ((hrows.both h.inert (yields_index h)).storing h.inert _ _).bind ?_
  rintro ⟨_, _⟩ ⟨rfl, es, rfl, htable⟩
  refine (settles_counted h "store").ok_bind ?_
  refine Upholds.mono (settles_assemble h (subjectOfRoles roles) _ _) ?_
  rintro r rfl
  exact ⟨es, htable, rfl⟩

end Grants

theorem yielded_store {t : Store.Tables} {c : Store.Call} (hc : t.after c = t) {w : World}
    (hw : w.Stores t) :
    World.Stores t (w.answer (.store c)).2 ∧
      Yielded False (· = t.reply c) (w.answer (.store c)).1 := by
  obtain ⟨hstores, hr⟩ := stores_store hc hw
  exact ⟨hstores, hr ▸ rfl⟩

theorem supplies_stores (t : Store.Tables) :
    Supplies World.answer (World.Stores t) False t none (fun a rows => rows = t.reachable a)
      (· = t.entitlements.rows) :=
  supplies_uncached (inert_stores t) fun _ hc _ hw => yielded_store hc hw

namespace Grants

/-- Resolution on a healthy store never fails. The grants are those rulesets that are reachable
from the account, each once and in the order of the tables, whose entitlement can be read, each
with what its entitlement stands for. Rows that grant nothing make no difference. -/
theorem ofAccount_exact (t : Store.Tables) (account : String) (w : World) :
    ∃ s : Snapshot,
      ((Grants.ofAccount ⟨none⟩ account).run { w with ledger := ⟨t, .none⟩ }).1 = .ok s ∧
      s.subject = account ∧
      s.grants.map Grant.ruleset = (t.reachable account).toList.filter t.isGranted ∧
      (s.grants.map Grant.ruleset).Nodup ∧
      (∀ g ∈ s.grants, ∃ e ∈ t.entitlements.rows,
        e.name = g.ruleset.entitlement ∧ g.capability.Reads e) ∧
      ((Grants.ofAccount ⟨none⟩ account).run { w with ledger := ⟨t.pruned, .none⟩ }).1 = .ok s := by
  have hrun (u : Store.Tables) :
      ((Grants.ofAccount ⟨none⟩ account).run { w with ledger := ⟨u, .none⟩ }).1 =
        .ok ⟨account, u.grantsOf account⟩ := by
    have hu : World.Stores u { w with ledger := ⟨u, .none⟩ } := rfl
    obtain ⟨hyielded, -⟩ := (yields_ofAccount (supplies_stores u) account).run hu
    obtain ⟨s, hs, _, _, rfl, rfl, rfl⟩ := hyielded.of_not id
    rw [← runBy_answer, hs, u.grant?_ofEntitlements]
    rfl
  refine ⟨⟨account, t.grantsOf account⟩, hrun t, rfl, t.map_ruleset_grantsOf account, ?_,
    fun g hg => Store.Tables.reads_of_mem_grantsOf hg, ?_⟩
  · rw [t.map_ruleset_grantsOf account]
    exact (t.nodup_reachable account).filter _
  · rw [hrun, t.grantsOf_pruned]

end Grants

end AccessControl
