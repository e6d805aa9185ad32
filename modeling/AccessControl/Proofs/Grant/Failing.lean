import AccessControl.Proofs.Cache.Entries
import AccessControl.Proofs.Cache.Wire
import AccessControl.Proofs.Grant.Resolution
import AccessControl.Proofs.Program.Veiled

/-!
Resolution while the store and the cache server fail. It comes to the grants of the tables, or it
fails as an operation of the store: what the reason was is told to nobody.
-/

namespace AccessControl

open Program Store
open Error (Shown Hidden)

/-- The error that stands for a failure of one of some operations of the store. -/
def Error.IsSealed (operations : List String) (e : Error) : Prop :=
  ∃ operation ∈ operations, e = .storage operation

theorem Error.IsSealed.report {operations : List String} {e : Error} (h : e.IsSealed operations) :
    ∃ operation ∈ operations, e.report? =
      some ⟨.storage, "STORAGE_ERROR", "Internal storage error",
        [("operation", .text operation)]⟩ := by
  obtain ⟨operation, hm, rfl⟩ := h
  exact ⟨operation, hm, rfl⟩

/-- An outcome, unless it is an error of a kind. -/
def Error.Barring {α : Type} (kind : Error → Prop) (x r : Except Error α) : Prop :=
  r = x ∨ ∃ e, kind e ∧ r = .error e

def Grants.accountOperations : List String := ["rulesets_for_account", "all_entitlements"]

def Grants.roleOperations : List String := ["role_rulesets_for_roles", "all_entitlements"]

/-! What fails is sealed. -/

section Veiled

variable {α : Type} {kind : Error → Prop}

namespace GrantCache

theorem veiled_understood {message key : String} {fields : Value.Fields}
    {read? : Instant → String → Option α} :
    Veiled (Shown kind) (understood message fields read? key)
      (understood message fields read? key) := by
  have hmissed : Veiled (Shown kind) (understood.missed (α := α) message fields)
      (understood.missed message fields) :=
    .record ((veiled_perform rfl).shown_bind fun _ => .done (.value none))
  refine (veiled_perform rfl).shown_bind fun x => ?_
  rcases x with e | _ | text
  · exact hmissed
  · exact (veiled_perform rfl).shown_bind fun _ => .done (.value none)
  · refine (veiled_perform rfl).shown_bind fun now => ?_
    cases read? now text with
    | none => exact hmissed
    | some a => exact (veiled_perform rfl).shown_bind fun _ => .done (.value (some a))

theorem veiled_succeeded {c : Cache.Command} {tally : Cache.Tally} {message : String}
    {fields : Value.Fields} :
    Veiled (Shown kind) (succeeded c tally message fields)
      (succeeded c tally message fields) := by
  refine (veiled_perform rfl).shown_bind fun x => ?_
  cases x with
  | error e => exact .record (.done (.value false))
  | ok r => exact (veiled_perform rfl).shown_bind fun _ => .done (.value true)

end GrantCache

namespace Grants

variable (grants : Grants)

theorem veiled_storedRulesets (hkind : kind (.storage "rulesets_for_account")) (account : String) :
    Veiled (Shown kind) (storedRulesets account) (storedRulesets account) :=
  (((veiled_call _).both (veiled_call _)).storing _ hkind).shown_bind fun _ =>
    .done (.value _)

theorem veiled_rulesets (hkind : kind (.storage "rulesets_for_account")) (account : String) :
    Veiled (Shown kind) (grants.rulesets account) (grants.rulesets account) := by
  have hcounted (source : String) (rows : Rulesets) : Veiled (Shown kind)
      (do
        perform (.count (Counters.resolution source))
        return rows)
      (do
        perform (.count (Counters.resolution source))
        return rows) :=
    (veiled_perform rfl).shown_bind fun _ => .done (.value rows)
  have hstored := veiled_storedRulesets hkind account
  rw [rulesets]
  cases grants.cache with
  | none => exact hstored.shown_bind fun rows => hcounted "store" rows
  | some cache =>
    refine GrantCache.veiled_understood.shown_bind fun a => ?_
    cases a with
    | some rows => exact hcounted "cache" rows
    | none =>
      refine hstored.shown_bind fun rows => ?_
      exact GrantCache.veiled_succeeded.shown_bind fun _ => hcounted "store" rows

variable (hkind : kind (.storage "all_entitlements"))

include hkind

theorem veiled_entitlements :
    Veiled (Shown kind) grants.entitlements grants.entitlements := by
  have hstored : Veiled (Shown kind) (storing logger "all_entitlements" (call .entitlements))
      (storing logger "all_entitlements" (call .entitlements)) :=
    (veiled_call _).storing _ hkind
  rw [entitlements]
  cases grants.cache with
  | none => exact hstored
  | some cache =>
    refine GrantCache.veiled_understood.shown_bind fun a => ?_
    cases a with
    | some rows => exact .done (.value rows)
    | none =>
      refine hstored.shown_bind fun rows => ?_
      exact GrantCache.veiled_succeeded.shown_bind fun _ => .done (.value rows)

theorem veiled_index : Veiled (Shown kind) grants.index grants.index := by
  refine (veiled_entitlements grants hkind).shown_bind fun rows => ?_
  refine (veiled_forM (fun e => ?_) rows).shown_bind fun _ => .done (.value _)
  rw [warnMalformed]
  split
  · exact .done (.value ())
  · exact .record (.done (.value ()))

omit hkind in
theorem veiled_assemble (subject : String) (rulesets : List Ruleset) (index : CapabilityIndex) :
    Veiled (Shown kind) (assemble subject rulesets index) (assemble subject rulesets index) := by
  refine (veiled_forM (fun r => ?_) rulesets).shown_bind fun _ => .done (.value _)
  rw [warnDangling]
  split
  · exact .done (.value ())
  · exact .record (.done (.value ()))

theorem veiled_ofAccount (hrows : kind (.storage "rulesets_for_account")) (account : String) :
    Veiled (Shown kind) (grants.ofAccount account) (grants.ofAccount account) := by
  have hsnapshot : Veiled (Shown kind) (grants.snapshot account) (grants.snapshot account) := by
    refine (veiled_rulesets grants hrows account).shown_bind fun rows => ?_
    split
    · exact .done (.value _)
    · exact (veiled_index grants hkind).shown_bind fun index =>
        veiled_assemble account rows.toList index
  refine hsnapshot.attempt_bind (fun a b h => ?_) fun e e' h => ?_
  · exact .ask rfl fun _ => .done h
  · exact .ask rfl fun _ => .fail h

theorem veiled_ofRoles (hrows : kind (.storage "role_rulesets_for_roles"))
    (roles : List String) :
    Veiled (Shown kind) (grants.ofRoles roles) (grants.ofRoles roles) := by
  refine (((veiled_call _).both (veiled_index grants hkind).hidden).storing _ hrows).shown_bind
    fun (rulesets, index) => ?_
  refine (veiled_perform rfl).shown_bind fun _ => ?_
  exact veiled_assemble (subjectOfRoles roles) _ index

omit hkind in
theorem veiled_sealed (account : String) :
    Veiled (Shown (Error.IsSealed accountOperations)) (grants.ofAccount account)
      (grants.ofAccount account) :=
  grants.veiled_ofAccount ⟨_, List.mem_cons_of_mem _ List.mem_cons_self, rfl⟩
    ⟨_, List.mem_cons_self, rfl⟩ account

omit hkind in
theorem veiled_sealedRoles (roles : List String) :
    Veiled (Shown (Error.IsSealed roleOperations)) (grants.ofRoles roles) (grants.ofRoles roles) :=
  grants.veiled_ofRoles ⟨_, List.mem_cons_of_mem _ List.mem_cons_self, rfl⟩
    ⟨_, List.mem_cons_self, rfl⟩ roles

end Grants

end Veiled

/-! What does not fail is right. -/

/-- What is written of the tables to a cache is read back as it was, if it can be understood at all.
-/
structure Store.Tables.IsWritable (t : Tables) : Prop where
  rows : ∀ account now rows,
    Rulesets.read? now (Wire.write (t.reachable account).value) = some rows →
      rows = t.reachable account
  listing : ∀ now es,
    Entitlement.readAll? now (Wire.write (Entitlement.listing t.entitlements.rows)) = some es →
      es = t.entitlements.rows

theorem Store.Tables.isWritable_of_dated {t : Tables}
    (hrows : ∀ account, (t.reachable account).IsDated)
    (hentitlements : ∀ e ∈ t.entitlements.rows, e.IsWritable) : t.IsWritable where
  rows account now rows h := by
    rw [Rulesets.read?_write (hrows account)] at h
    exact (Option.some.inj h).symm
  listing now es h := by
    rw [Entitlement.readAll?_write hentitlements] at h
    exact (Option.some.inj h).symm

/-- The store holds the tables, and any call may fail for a reason from outside. Any command to the
cache server may fail, and any text that it holds may be missing or malformed; one that can be
understood is what the store would say. -/
structure World.Falters (t : Tables) (cache : Option GrantCache) (w : World) : Prop where
  tables : w.ledger.tables = t
  faults : w.ledger.faults.AreOutside
  rows : cache.isSome → ∀ account text,
    w.server.entries.text? (GrantCache.accountKey account) = some text →
      ∀ now rows, Rulesets.read? now text = some rows → rows = t.reachable account
  listing : cache.isSome → ∀ text,
    w.server.entries.text? GrantCache.entitlementsKey = some text →
      ∀ now es, Entitlement.readAll? now text = some es → es = t.entitlements.rows

namespace World.Falters

variable {t : Tables} {cache : Option GrantCache} {w v : World}

theorem hidden (h : w.Falters t cache) (c : Call) :
    Hidden (fun _ => False) (w.answer (.store c)).1 (w.answer (.store c)).1 :=
  (Ledger.call_masks h.faults.masks c).1

theorem of_same (h : w.Falters t cache) (hledger : v.ledger = w.ledger)
    (hentries : v.server.entries = w.server.entries) : v.Falters t cache where
  tables := by rw [hledger]; exact h.tables
  faults := by rw [hledger]; exact h.faults
  rows := by rw [hentries]; exact h.rows
  listing := by rw [hentries]; exact h.listing

theorem set (h : w.Falters t cache) {key text : String} (ttl : Int)
    (hrows : ∀ account, key = GrantCache.accountKey account →
      ∀ now rows, Rulesets.read? now text = some rows → rows = t.reachable account)
    (hlisting : key = GrantCache.entitlementsKey →
      ∀ now es, Entitlement.readAll? now text = some es → es = t.entitlements.rows) :
    (w.answer (.cache (.set key ttl text))).2.Falters t cache := by
  rcases w.server.serve_cases (.set key ttl text) with ⟨-, hentries⟩ | ⟨-, hentries⟩
  · exact h.of_same rfl hentries
  · refine ⟨h.tables, h.faults, fun hcache account other ht => ?_, fun hcache other ht => ?_⟩
    · change (w.server.serve _).2.entries.text? _ = _ at ht
      rw [hentries, Cache.Entries.text?_set] at ht
      split at ht
      · obtain rfl := Option.some.inj ht
        exact hrows account ‹_›
      · exact h.rows hcache account other ht
    · change (w.server.serve _).2.entries.text? _ = _ at ht
      rw [hentries, Cache.Entries.text?_set] at ht
      split at ht
      · obtain rfl := Option.some.inj ht
        exact hlisting ‹_›
      · exact h.listing hcache other ht

end World.Falters

theorem supplies_falters {t : Tables} {cache : Option GrantCache}
    (ht : cache.isSome → t.IsWritable) :
    Supplies World.answer (World.Falters t cache) True t cache
      (fun a rows => rows = t.reachable a) (· = t.entitlements.rows) where
  inert e he w hw := by
    cases e with
    | store | cache | database | publish | mint => cases he
    | _ => exact hw.of_same rfl rfl
  store c hc w hw := by
    obtain ⟨hreply, htables, hfaults⟩ := Ledger.call_outside hw.faults (c := c)
      (by rw [hw.tables, hc])
    rw [hw.tables] at hreply htables
    refine ⟨⟨htables, hfaults, hw.rows, hw.listing⟩, ?_⟩
    change Yielded True _ (w.ledger.call c).1
    rcases hreply with hreply | ⟨e, hreply⟩
    · rw [hreply]
      exact rfl
    · rw [hreply]
      trivial
  rows _ := rfl
  table := rfl
  get _ key w hw := by
    rcases w.server.serve_cases (.get key) with ⟨-, hentries⟩ | ⟨-, hentries⟩
    · exact hw.of_same rfl hentries
    · exact hw.of_same rfl hentries
  -- a key stands for one account, or for the entitlements
  set_rows c hc a w hw := by
    refine hw.set _ (fun account hkey => ?_) fun hkey => ?_
    · obtain rfl := GrantCache.accountKey_injective hkey
      exact (ht (Option.isSome_of_mem hc)).rows a
    · exact absurd hkey (GrantCache.accountKey_ne_entitlementsKey a)
  set_table c hc w hw := by
    refine hw.set _ (fun account hkey => ?_) fun _ => ?_
    · exact absurd hkey.symm (GrantCache.accountKey_ne_entitlementsKey account)
    · exact (ht (Option.isSome_of_mem hc)).listing
  read_rows hcache a w hw text htext := by
    rcases w.server.serve_cases (.get (GrantCache.accountKey a)) with ⟨⟨_, hreply⟩, -⟩ | ⟨hreply, -⟩
    · cases hreply.symm.trans htext
    · exact hw.rows hcache a text (Except.ok.inj (hreply.symm.trans htext))
  read_table hcache w hw text htext := by
    rcases w.server.serve_cases (.get GrantCache.entitlementsKey) with
      ⟨⟨_, hreply⟩, -⟩ | ⟨hreply, -⟩
    · cases hreply.symm.trans htext
    · exact hw.listing hcache text (Except.ok.inj (hreply.symm.trans htext))

theorem Supplies.infallible {σ : Type} {ι : Interpreter σ} {I J : σ → Prop} {mayFail : Prop}
    {t : Tables} {cache : Option GrantCache} {fitRows : String → Rulesets → Prop}
    {fitTable : List Entitlement → Prop} (h : Supplies ι I mayFail t cache fitRows fitTable)
    (hJ : ∀ e s, J s → J (ι s e).2) (hstore : ∀ c s, J s → ∃ a, (ι s (.store c)).1 = .ok a) :
    Supplies ι (fun s => I s ∧ J s) False t cache fitRows fitTable where
  inert e he s hs := ⟨h.inert e he s hs.1, hJ e s hs.2⟩
  store c hc s hs := by
    obtain ⟨hI, hreply⟩ := h.store c hc s hs.1
    obtain ⟨a, ha⟩ := hstore c s hs.2
    rw [ha] at hreply ⊢
    exact ⟨⟨hI, hJ _ s hs.2⟩, hreply⟩
  rows := h.rows
  table := h.table
  get hcache key s hs := ⟨h.get hcache key s hs.1, hJ _ s hs.2⟩
  set_rows c hc a s hs := ⟨h.set_rows c hc a s hs.1, hJ _ s hs.2⟩
  set_table c hc s hs := ⟨h.set_table c hc s hs.1, hJ _ s hs.2⟩
  read_rows hcache a s hs := h.read_rows hcache a s hs.1
  read_table hcache s hs := h.read_table hcache s hs.1

theorem supplies_faultless {t : Tables} {cache : Option GrantCache}
    (ht : cache.isSome → t.IsWritable) :
    Supplies World.answer (fun w => w.Falters t cache ∧ w.ledger.faults = .none) False t cache
      (fun a rows => rows = t.reachable a) (· = t.entitlements.rows) := by
  refine (supplies_falters ht).infallible (fun e w hw => ?_) fun c w hw => ?_
  · cases e with
    | store c =>
      change (w.ledger.call c).2.faults = _
      rw [Ledger.call, hw, Faults.take_none]
    | _ => exact hw
  · refine ⟨w.ledger.tables.reply c, ?_⟩
    change (w.ledger.call c).1 = _
    rw [Ledger.call, hw, Faults.take_none]

end AccessControl
