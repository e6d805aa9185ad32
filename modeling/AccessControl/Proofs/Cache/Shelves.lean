import AccessControl.Proofs.Cache.Fading

/-!
What the cache holds, shelf by shelf: the rows of one account, or the entitlement table.
-/

namespace AccessControl

open Program Store

namespace Store

def Call.isWrite : Call → Bool
  | .putRole _ | .dropRole _ | .putMembership _ | .dropMembership _ | .dropMemberships .. |
    .putEntitlement _ | .putRoleRuleset _ | .dropRoleRuleset _ | .dropRulesetsOfRole _ |
    .putAccountRuleset _ | .dropAccountRuleset _ | .dropRulesetsOfAccount _ => true
  | _ => false

theorem Tables.after_eq_self {c : Call} (hc : c.isWrite = false) (t : Tables) : t.after c = t := by
  cases c <;> first | rfl | cases hc

end Store

inductive Shelf where
  | rows (account : String)
  | table

namespace Shelf

def key : Shelf → String
  | .rows a => GrantCache.accountKey a
  | .table => GrantCache.entitlementsKey

/-- The call asks the store for what belongs there, or for a part of it. -/
def concerns : Shelf → Call → Bool
  | .rows a, .rulesetsThroughRoles b => a = b
  | .rows a, .rulesetsOfAccount b => a = b
  | .table, .entitlements => true
  | _, _ => false

def text (reply : (c : Call) → c.Reply) : Shelf → String
  | .rows a =>
    Wire.write (Rulesets.value ⟨reply (.rulesetsThroughRoles a), reply (.rulesetsOfAccount a)⟩)
  | .table => Wire.write (Entitlement.listing (reply .entitlements))

/-- What is read of a text is what the store returns. -/
def Conveys (t : Tables) (text : String) : Shelf → Prop
  | .rows a => ∀ now, Rulesets.read? now text =
    some ⟨t.reply (.rulesetsThroughRoles a), t.reply (.rulesetsOfAccount a)⟩
  | .table => ∀ now, Entitlement.readAll? now text = some (t.reply .entitlements)

theorem Conveys.rows {t : Tables} {text a : String} (h : (rows a).Conveys t text) (now : Instant) :
    Rulesets.read? now text = some (t.reachable a) := by
  rw [h now, Tables.reply_rulesetsThroughRoles]
  rfl

/-- Nothing is there, or what is read of it is what the store returns. -/
def IsCurrent (w : World) (s : Shelf) : Prop :=
  ∀ text, w.server.entries.text? s.key = some text → s.Conveys w.ledger.tables text

def Same (s : Shelf) (t u : Tables) : Prop :=
  ∀ c, s.concerns c = true → u.reply c = t.reply c

variable {s : Shelf} {t u : Tables}

theorem key_injective : Function.Injective key := by
  intro s s' h
  cases s with
  | rows a =>
    cases s' with
    | rows b => exact congrArg rows (GrantCache.accountKey_injective h)
    | table => exact absurd h (GrantCache.accountKey_ne_entitlementsKey a)
  | table =>
    cases s' with
    | rows b => exact absurd h (GrantCache.accountKey_ne_entitlementsKey b).symm
    | table => rfl

theorem text_congr {f g : (c : Call) → c.Reply} (h : ∀ c, s.concerns c = true → f c = g c) :
    s.text f = s.text g := by
  cases s with
  | rows a =>
    have hrole : f (.rulesetsThroughRoles a) = g (.rulesetsThroughRoles a) :=
      h _ (decide_eq_true rfl)
    have haccount : f (.rulesetsOfAccount a) = g (.rulesetsOfAccount a) := h _ (decide_eq_true rfl)
    rw [text, text, hrole, haccount]
  | table => rw [text, text, h _ rfl]

theorem text_rows (t : Tables) (a : String) :
    (rows a).text t.reply = Wire.write (t.reachable a).value := by
  rw [text, Tables.reply_rulesetsThroughRoles]
  rfl

theorem same_rows {a : String} (h : u.reachable a = t.reachable a) : (rows a).Same t u := by
  intro c hc
  cases c with
  | rulesetsThroughRoles b =>
    obtain rfl := of_decide_eq_true hc
    rw [Tables.reply_rulesetsThroughRoles, Tables.reply_rulesetsThroughRoles, h]
  | rulesetsOfAccount b =>
    obtain rfl := of_decide_eq_true hc
    exact congrArg Rulesets.account h
  | _ => cases hc

theorem same_table (h : u.entitlements = t.entitlements) : table.Same t u := by
  intro c hc
  cases c with
  | entitlements => exact congrArg Table.rows h
  | _ => cases hc

theorem conveys_text {n : Nat} (hkept : t.IsKept n)
    (hwritable : ∀ e ∈ t.entitlements.rows, e.IsWritable) (s : Shelf) :
    s.Conveys t (s.text t.reply) := by
  cases s with
  | rows a =>
    intro now
    rw [text_rows, Rulesets.read?_write (hkept.isDated a), Tables.reply_rulesetsThroughRoles]
    rfl
  | table => exact fun now => Entitlement.readAll?_write hwritable now

theorem Same.text (h : s.Same t u) : s.text u.reply = s.text t.reply :=
  text_congr h

end Shelf

namespace World

variable {w : World}

theorem isCoherent_iff : w.IsCoherent [] ↔ w.server.faults = .none ∧
    ∀ (s : Shelf) (text : String), w.server.entries.text? s.key = some text →
      text = s.text w.ledger.tables.reply := by
  constructor
  · intro h
    refine ⟨h.faults, fun s text ht => ?_⟩
    cases s with
    | rows a => exact (h.rows a text List.not_mem_nil ht).trans (Shelf.text_rows _ a).symm
    | table => exact h.table text List.not_mem_nil ht
  · rintro ⟨hfaults, h⟩
    refine ⟨hfaults, fun a text _ ht => ?_, fun text _ ht => h .table text ht⟩
    exact (h (.rows a) text ht).trans (Shelf.text_rows _ a)

/-- A store and a cache server that do not fail, and the shelves that are needed are current. -/
structure Suits (t : Tables) (needed : Shelf → Prop) (w : World) : Prop where
  stores : w.Stores t
  faults : w.server.faults = .none
  current : ∀ s, needed s → s.IsCurrent w

variable {t : Tables} {needed : Shelf → Prop} {v : World}

theorem Suits.of_entries (h : w.Suits t needed) (hledger : v.ledger = w.ledger)
    (hserver : v.server = w.server) : v.Suits t needed where
  stores := hledger.trans h.stores
  faults := by rw [hserver]; exact h.faults
  current s hs text ht := by
    rw [hserver] at ht
    rw [hledger]
    exact h.current s hs text ht

theorem Suits.command (h : w.Suits t needed) {c : Cache.Command}
    (hc : ∀ s text, needed s → (w.server.entries.after c).text? s.key = some text →
      s.Conveys t text ∨ w.server.entries.text? s.key = some text) :
    (w.answer (.cache c)).1 = .ok (w.server.entries.reply c) ∧
      (w.answer (.cache c)).2.Suits t needed := by
  have htables : w.ledger.tables = t := by rw [h.stores]
  rw [answer_command h.faults]
  refine ⟨rfl, h.stores, rfl, fun s hs text ht => ?_⟩
  change s.Conveys w.ledger.tables text
  obtain htext | ht := hc s text hs ht
  · rwa [htables]
  · exact h.current s hs text ht

end World

theorem supplies_suits {t : Tables} {n : Nat} (hkept : t.IsKept n)
    (hwritable : ∀ e ∈ t.entitlements.rows, e.IsWritable) (needed : Shelf → Prop)
    (cache : GrantCache) :
    Supplies World.answer (World.Suits t needed) False t (some cache)
      (fun a rows => needed (.rows a) → rows = t.reachable a)
      (fun es => needed .table → es = t.entitlements.rows) := by
  have hset (s : Shelf) (ttl : Int) (w : World) (hw : w.Suits t needed) :
      (w.answer (.cache (.set s.key ttl (s.text t.reply)))).2.Suits t needed := by
    refine (hw.command fun s' text _ ht => ?_).2
    rw [Cache.Entries.text?_set] at ht
    -- keys tell shelves apart, so a write concerns its own shelf only
    by_cases hkey : s.key = s'.key
    · obtain rfl := Shelf.key_injective hkey
      rw [if_pos rfl, Option.some.injEq] at ht
      exact .inl (ht ▸ Shelf.conveys_text hkept hwritable s)
    · rw [if_neg hkey] at ht
      exact .inr ht
  exact {
    inert := fun e he w hw =>
      hw.of_entries (w.same_quiet he).1.ledger (w.same_quiet he).2
    store := by
      intro c hc w hw
      obtain ⟨hstores, hreply⟩ := stores_store hc hw.stores
      exact ⟨hw.of_entries (hstores.trans hw.stores.symm) rfl, hreply ▸ rfl⟩
    rows := fun _ _ => rfl
    table := fun _ => rfl
    get := fun _ key w hw => (hw.command (c := .get key) fun _ _ _ ht => .inr ht).2
    set_rows := fun c _ a w hw => by
      rw [← Shelf.text_rows]
      exact hset (.rows a) c.rulesetTtl w hw
    set_table := fun c _ w hw => hset .table c.entitlementTtl w hw
    read_rows := by
      intro _ a w hw text htext now rows hrows hneeded
      obtain ⟨hreply, -⟩ := hw.command (c := .get (GrantCache.accountKey a)) fun _ _ _ ht => .inr ht
      have hconveys := hw.current _ hneeded text (Except.ok.inj (hreply.symm.trans htext))
      rw [hw.stores] at hconveys
      exact Option.some.inj (hrows.symm.trans (hconveys.rows now))
    read_table := by
      intro _ w hw text htext now es hes hneeded
      obtain ⟨hreply, -⟩ :=
        hw.command (c := .get GrantCache.entitlementsKey) fun _ _ _ ht => .inr ht
      have hconveys := hw.current _ hneeded text (Except.ok.inj (hreply.symm.trans htext)) now
      rw [hes, hw.stores] at hconveys
      exact Option.some.inj hconveys }

theorem Grants.run_ofAccount_of_isCurrent {w : World} (hfit : w.IsFit)
    (hfaults : w.server.faults = .none) {a : String} (hrows : (Shelf.rows a).IsCurrent w)
    (htable : Shelf.table.IsCurrent w) (cache : GrantCache) :
    ((Grants.ofAccount ⟨some cache⟩ a).run w).1 = .ok ⟨a, w.ledger.tables.grantsOf a⟩ := by
  have hsuits : w.Suits w.ledger.tables fun s => s = .rows a ∨ s = .table := by
    refine ⟨by rw [World.Stores, ← hfit.faults], hfaults, ?_⟩
    rintro s (rfl | rfl)
    · exact hrows
    · exact htable
  have hsupplies := supplies_suits hfit.tables hfit.entitlements
    (fun s => s = .rows a ∨ s = .table) cache
  obtain ⟨hyielded, -⟩ := (Grants.yields_ofAccount hsupplies a).run hsuits
  obtain ⟨s, hs, rows, es, hr, he, rfl⟩ := hyielded.of_not id
  rw [← runBy_answer, hs, hr (.inl rfl), he (.inr rfl), Tables.grant?_ofEntitlements]
  rfl

end AccessControl
