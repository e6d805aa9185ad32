import AccessControl.Proofs.Cache.Fading
import AccessControl.Proofs.Store.Integrity
import Mathlib.Data.List.Induction

/-!
The cache as a map. On a server that does not fail and forgets nothing, whoever uses the cache reads
back what was put last and not dropped since, and nobody else's keys are touched.
-/

namespace AccessControl

theorem Table.filter_insert_of_false {ρ : Type} [Keyed ρ] {t : Table ρ} {row : ρ} {p : ρ → Bool}
    (hrow : ∀ r, Keyed.key r = Keyed.key row → p r = false) : (t.insert row).filter p = t.filter p := by
  apply ext_rows
  change (upsert row t.rows).filter p = t.rows.filter p
  induction t.rows with
  | nil => simp [upsert, hrow row rfl]
  | cons r rest ih =>
    rw [upsert]
    by_cases hr : Keyed.key r = Keyed.key row
    · simp [hr, hrow r hr, hrow row rfl]
    · rw [if_neg hr, List.filter_cons, List.filter_cons, ih]

namespace GrantCache

open Program Cache

/-! ### Uses of the cache -/

inductive Use where
  | putRows (account : String) (rows : Rulesets)
  | rows (account : String)
  | dropRows (account : String)
  | putTable (es : List Entitlement)
  | table
  | dropTable
  | clear

inductive Answer where
  | done (succeeded : Bool)
  | rows (found : Option Rulesets)
  | table (found : Option (List Entitlement))
  | cleared (count : Nat)

namespace Use

def program (cache : GrantCache) : Use → Program Answer
  | .putRows a r => return .done (← cache.putRulesets a r)
  | .rows a => return .rows (← rulesets? a)
  | .dropRows a => return .done (← dropAccount a)
  | .putTable es => return .done (← cache.putEntitlements es)
  | .table => return .table (← entitlements?)
  | .dropTable => return .done (← dropEntitlements)
  | .clear => return .cleared (← GrantCache.clear)

def IsWritable : Use → Prop
  | .putRows _ r => r.IsDated
  | .putTable es => ∀ e ∈ es, e.IsWritable
  | _ => True

def onRows (a : String) : Use → Option (Option Rulesets)
  | .putRows b r => if b = a then some (some r) else none
  | .dropRows b => if b = a then some none else none
  | .clear => some none
  | _ => none

def onTable : Use → Option (Option (List Entitlement))
  | .putTable es => some (some es)
  | .dropTable | .clear => some none
  | _ => none

def IsWrite : Use → Prop
  | .putRows .. | .dropRows _ | .putTable _ | .dropTable => True
  | _ => False

end Use

def isOwn (key : String) : Bool :=
  rulesetsStart.toList.isPrefixOf key.toList || key = entitlementsKey

/-- The keys that a use may change. -/
def Use.Changes : Use → String → Prop
  | .putRows a _, key | .dropRows a, key => key = accountKey a
  | .putTable _, key | .dropTable, key => key = entitlementsKey
  | .clear, key => isOwn key = true
  | .rows _, _ | .table, _ => False

def Use.changed (cache : GrantCache) (es : Entries) : Use → Entries
  | .putRows a r => es.after (.set (accountKey a) cache.rulesetTtl (Wire.write r.value))
  | .dropRows a => es.without [accountKey a]
  | .putTable t =>
    es.after (.set entitlementsKey cache.entitlementTtl (Wire.write (Entitlement.listing t)))
  | .dropTable => es.without [entitlementsKey]
  | .clear => es.filter fun e => !isOwn e.key
  | .rows _ | .table => es

/-- What uses leave, each of them made at a time of its own. -/
def after (cache : GrantCache) (w : World) (uses : List (Instant × Use)) : World :=
  uses.foldl (fun w (now, u) => ((u.program cache).run { w with clock := now }).2) w

/-! ### The map -/

section Held

variable {σ β : Type} {f : σ → Option (Option β)} {uses : List σ} {u : σ} {b : β}

def held (f : σ → Option (Option β)) (uses : List σ) : Option β :=
  (uses.filterMap f).getLast?.join

theorem held_concat : held f (uses ++ [u]) = (f u).getD (held f uses) := by
  cases hu : f u with
  | none => simp [held, List.filterMap_append, hu]
  | some x => simp [held, List.filterMap_append, hu]

theorem held_eq_some_iff : held f uses = some b ↔ ∃ earlier v later,
    uses = earlier ++ v :: later ∧ f v = some (some b) ∧ ∀ u ∈ later, f u = none := by
  rw [held, Option.join_eq_some_iff, List.getLast?_eq_some_iff]
  constructor
  · rintro ⟨front, hfront⟩
    obtain ⟨earlier, rest, rfl, -, hrest⟩ := List.filterMap_eq_append_iff.mp hfront
    obtain ⟨skipped, v, later, rfl, -, hv, hlater⟩ := List.filterMap_eq_cons_iff.mp hrest
    exact ⟨earlier ++ skipped, v, later, by simp, hv, List.filterMap_eq_nil_iff.mp hlater⟩
  · rintro ⟨earlier, v, later, rfl, hv, hlater⟩
    refine ⟨earlier.filterMap f, ?_⟩
    simp [hv, List.filterMap_eq_nil_iff.mpr hlater]

end Held

def rowsHeld (uses : List (Instant × Use)) (a : String) : Option Rulesets :=
  held (fun u => u.2.onRows a) uses

def tableHeld (uses : List (Instant × Use)) : Option (List Entitlement) :=
  held (fun u => u.2.onTable) uses

theorem onRows_eq_some_iff {a : String} {r : Rulesets} {u : Use} :
    u.onRows a = some (some r) ↔ u = .putRows a r := by
  cases u <;> simp [Use.onRows, ite_eq_iff]

theorem onTable_eq_some_iff {t : List Entitlement} {u : Use} :
    u.onTable = some (some t) ↔ u = .putTable t := by
  cases u <;> simp [Use.onTable]

theorem rowsHeld_eq_some_iff {uses : List (Instant × Use)} {a : String} {r : Rulesets} :
    rowsHeld uses a = some r ↔ ∃ earlier now later,
      uses = earlier ++ (now, .putRows a r) :: later ∧ ∀ u ∈ later, u.2.onRows a = none := by
  simp only [rowsHeld, held_eq_some_iff, onRows_eq_some_iff]
  constructor
  · rintro ⟨earlier, ⟨now, u⟩, later, huses, rfl, hlater⟩
    exact ⟨earlier, now, later, huses, hlater⟩
  · rintro ⟨earlier, now, later, huses, hlater⟩
    exact ⟨earlier, (now, _), later, huses, rfl, hlater⟩

theorem tableHeld_eq_some_iff {uses : List (Instant × Use)} {t : List Entitlement} :
    tableHeld uses = some t ↔ ∃ earlier now later,
      uses = earlier ++ (now, .putTable t) :: later ∧ ∀ u ∈ later, u.2.onTable = none := by
  simp only [tableHeld, held_eq_some_iff, onTable_eq_some_iff]
  constructor
  · rintro ⟨earlier, ⟨now, u⟩, later, huses, rfl, hlater⟩
    exact ⟨earlier, now, later, huses, hlater⟩
  · rintro ⟨earlier, now, later, huses, hlater⟩
    exact ⟨earlier, (now, _), later, huses, rfl, hlater⟩

/-- The server holds what uses have left, beside the texts of others. -/
structure Represents (w : World) (others : Entries) (uses : List (Instant × Use)) : Prop where
  faults : w.server.faults = .none
  rows : ∀ a, w.server.entries.text? (accountKey a) =
    (rowsHeld uses a).map fun r => Wire.write r.value
  table : w.server.entries.text? entitlementsKey =
    (tableHeld uses).map fun es => Wire.write (Entitlement.listing es)
  others : w.server.entries.filter (fun e => !isOwn e.key) = others

/-! ### Keys -/

theorem isOwn_accountKey (a : String) : isOwn (accountKey a) = true := by
  rw [isOwn, isPrefixOf_accountKey, Bool.true_or]

theorem isOwn_entitlementsKey : isOwn entitlementsKey = true := by
  rw [isOwn, decide_eq_true rfl, Bool.or_true]

variable {cache : GrantCache} {w : World} {es others : Entries} {uses : List (Instant × Use)}
  {u : Use}

theorem get?_set_ne {k key : String} (h : key ≠ k) (ttl : Int) (text : String) :
    (es.after (.set k ttl text)).get? key = es.get? key := by
  change (es.insert ⟨k, some ttl, text⟩).get? key = _
  rw [Table.get?_insert]
  exact if_neg (Ne.symm h)

theorem get?_filter_of_true {p : Entry → Bool} {key : String}
    (h : ∀ e, Keyed.key e = key → p e = true) : (es.filter p).get? key = es.get? key := by
  rw [Table.get?_filter]
  cases hget : es.get? key with
  | none => rfl
  | some e =>
    obtain ⟨-, hkey⟩ := Table.get?_eq_some_iff.mp hget
    rw [Option.filter_some, if_pos (h e hkey)]

theorem get?_changed {key : String} (h : ¬ u.Changes key) :
    (u.changed cache es).get? key = es.get? key := by
  cases u with
  | putRows a r => exact get?_set_ne h _ _
  | putTable t => exact get?_set_ne h _ _
  | rows a => rfl
  | table => rfl
  | dropRows a =>
    refine get?_filter_of_true fun e he => ?_
    have hkey : e.key ≠ accountKey a := fun heq => h (he.symm.trans heq)
    simp [hkey]
  | dropTable =>
    refine get?_filter_of_true fun e he => ?_
    have hkey : e.key ≠ entitlementsKey := fun heq => h (he.symm.trans heq)
    simp [hkey]
  | clear =>
    refine get?_filter_of_true fun e he => ?_
    have hkey : isOwn e.key = false := by
      rw [← Bool.not_eq_true]
      exact fun hown => h (he ▸ hown)
    rw [hkey, Bool.not_false]

theorem filter_set {key : String} (h : isOwn key = true) (ttl : Int) (text : String) :
    (es.after (.set key ttl text)).filter (fun e => !isOwn e.key) =
      es.filter fun e => !isOwn e.key := by
  refine Table.filter_insert_of_false fun e he => ?_
  have hkey : e.key = key := he
  rw [hkey, h, Bool.not_true]

theorem filter_without {keys : List String} (h : ∀ key ∈ keys, isOwn key = true) :
    (es.without keys).filter (fun e => !isOwn e.key) = es.filter fun e => !isOwn e.key := by
  apply Table.ext_rows
  change (es.rows.filter _).filter _ = es.rows.filter _
  rw [List.filter_filter]
  refine List.filter_congr fun e _ => ?_
  by_cases hkey : e.key ∈ keys
  · simp [h e.key hkey]
  · simp [hkey]

theorem filter_changed : (u.changed cache es).filter (fun e => !isOwn e.key) =
    es.filter fun e => !isOwn e.key := by
  cases u with
  | putRows a r => exact filter_set (isOwn_accountKey a) _ _
  | putTable t => exact filter_set isOwn_entitlementsKey _ _
  | rows a => rfl
  | table => rfl
  | dropRows a => exact filter_without (by simp [isOwn_accountKey])
  | dropTable => exact filter_without (by simp [isOwn_entitlementsKey])
  | clear =>
    apply Table.ext_rows
    change (es.rows.filter _).filter _ = es.rows.filter _
    simp [List.filter_filter]

theorem contains_cleared {e : Entry} (he : e ∈ es.rows) :
    (es.reply (.scan rulesetsStart) ++ [entitlementsKey]).contains e.key = isOwn e.key := by
  have hscan : e.key ∈ es.reply (.scan rulesetsStart) ↔
      rulesetsStart.toList.isPrefixOf e.key.toList = true := by
    rw [Entries.reply, List.mem_filter]
    exact and_iff_right (List.mem_map_of_mem he)
  rw [Bool.eq_iff_iff, List.contains_iff_mem, List.mem_append, hscan, List.mem_singleton, isOwn,
    Bool.or_eq_true, decide_eq_true_iff]

/-! ### One use -/

theorem run_succeeded (h : w.server.faults = .none) (c : Command) (t : Tally) (message : String)
    (fields : Value.Fields) : ∃ v, (succeeded c t message fields).run w = (.ok true, v) ∧
      v.server = ⟨w.server.entries.after c, .none⟩ := by
  rw [succeeded, run_bind, run_perform, World.answer_command h]
  exact ⟨_, rfl, rfl⟩

theorem run_understood {α : Type} {read? : Instant → String → Option α} {key : String}
    (h : w.server.faults = .none) {found : Option α} {write : α → String}
    (htext : w.server.entries.text? key = found.map write)
    (hread : ∀ a, found = some a → read? w.clock (write a) = some a) (message : String)
    (fields : Value.Fields) : ∃ v, (understood message fields read? key).run w = (.ok found, v) ∧
      v.server = w.server := by
  have hsame : (⟨w.server.entries, .none⟩ : Server) = w.server := by rw [← h]
  rw [understood, run_bind, run_perform, World.answer_command h]
  simp only [Entries.reply, Entries.after, htext, hsame]
  cases found with
  | none => exact ⟨_, rfl, rfl⟩
  | some a =>
    have hnow : (perform .now).run { w with server := w.server } = (.ok w.clock, w) := rfl
    simp only [Option.map_some]
    rw [run_bind, hnow]
    simp only [hread a rfl]
    exact ⟨_, rfl, rfl⟩

theorem run_clear (h : w.server.faults = .none) : ∃ v, GrantCache.clear.run w =
    (.ok (w.server.entries.rows.countP fun e => isOwn e.key), v) ∧
      v.server = ⟨w.server.entries.filter fun e => !isOwn e.key, .none⟩ := by
  have hcount : w.server.entries.reply (.delete (w.server.entries.reply (.scan rulesetsStart) ++
      [entitlementsKey])) = w.server.entries.rows.countP fun e => isOwn e.key :=
    List.countP_congr fun e he => by rw [contains_cleared he]
  have hleft : w.server.entries.after (.delete (w.server.entries.reply (.scan rulesetsStart) ++
      [entitlementsKey])) = w.server.entries.filter fun e => !isOwn e.key :=
    Table.ext_rows (List.filter_congr fun e he => by rw [contains_cleared he])
  rw [← hcount, ← hleft, GrantCache.clear, run_bind, run_perform, World.answer_command h]
  simp only
  rw [run_bind, run_perform, World.answer_command rfl]
  exact ⟨_, rfl, rfl⟩

/-- What a use is answered, given those before it and the texts that are there: a look-up finds what
was put last, unless something has been done about it since. -/
inductive Use.Answered (past : List (Instant × Use)) (es : Entries) : Use → Answer → Prop
  | written {u : Use} (h : u.IsWrite) : Answered past es u (.done true)
  | rows {a : String} {found : Option Rulesets}
    (h : ∀ r, found = some r ↔ ∃ earlier now later,
      past = earlier ++ (now, .putRows a r) :: later ∧ ∀ u ∈ later, u.2.onRows a = none) :
    Answered past es (.rows a) (.rows found)
  | table {found : Option (List Entitlement)}
    (h : ∀ t, found = some t ↔ ∃ earlier now later,
      past = earlier ++ (now, .putTable t) :: later ∧ ∀ u ∈ later, u.2.onTable = none) :
    Answered past es .table (.table found)
  | cleared : Answered past es .clear (.cleared (es.rows.countP fun e => isOwn e.key))

theorem run_pure_bind {α β : Type} {p : Program α} {f : α → β} {a : α} {s : Server}
    (h : ∃ v, p.run w = (.ok a, v) ∧ v.server = s) :
    ∃ v, (p >>= fun a => pure (f a)).run w = (.ok (f a), v) ∧ v.server = s := by
  obtain ⟨v, hv, hserver⟩ := h
  rw [run_bind, hv]
  exact ⟨v, rfl, hserver⟩

theorem isDated_of_rowsHeld (hpast : ∀ u ∈ uses, u.2.IsWritable) {a : String} {r : Rulesets}
    (h : rowsHeld uses a = some r) : r.IsDated := by
  obtain ⟨earlier, now, later, rfl, -⟩ := rowsHeld_eq_some_iff.mp h
  exact hpast (now, .putRows a r) (by simp)

theorem isWritable_of_tableHeld (hpast : ∀ u ∈ uses, u.2.IsWritable) {t : List Entitlement}
    (h : tableHeld uses = some t) : ∀ e ∈ t, e.IsWritable := by
  obtain ⟨earlier, now, later, rfl, -⟩ := tableHeld_eq_some_iff.mp h
  exact hpast (now, .putTable t) (by simp)

namespace Represents

theorem run_program (cache : GrantCache) (h : Represents w others uses)
    (hpast : ∀ u ∈ uses, u.2.IsWritable) (u : Use) :
    ∃ answer v, (u.program cache).run w = (.ok answer, v) ∧
      v.server = ⟨u.changed cache w.server.entries, .none⟩ ∧
      u.Answered uses w.server.entries answer := by
  have hsame : w.server = ⟨w.server.entries, .none⟩ := by rw [← h.faults]
  cases u with
  | putRows a r =>
    obtain ⟨v, hv, hserver⟩ := run_pure_bind (f := Answer.done) (run_succeeded h.faults
      (.set (accountKey a) cache.rulesetTtl (Wire.write r.value)) .set
      "Error caching rulesets" [("account_id", .text a)])
    exact ⟨_, v, hv, hserver, .written trivial⟩
  | rows a =>
    obtain ⟨v, hv, hserver⟩ := run_pure_bind (f := Answer.rows) (run_understood h.faults (h.rows a)
      (fun r hr => Rulesets.read?_write (isDated_of_rowsHeld hpast hr) w.clock)
      "Error reading cached rulesets" [("account_id", .text a)])
    exact ⟨_, v, hv, hserver.trans hsame, .rows fun r => rowsHeld_eq_some_iff⟩
  | dropRows a =>
    obtain ⟨v, hv, hserver⟩ := run_pure_bind (f := Answer.done) (run_succeeded h.faults
      (.delete [accountKey a]) .invalidation
      "Error invalidating account rulesets" [("account_id", .text a)])
    exact ⟨_, v, hv, hserver, .written trivial⟩
  | putTable t =>
    obtain ⟨v, hv, hserver⟩ := run_pure_bind (f := Answer.done) (run_succeeded h.faults
      (.set entitlementsKey cache.entitlementTtl (Wire.write (Entitlement.listing t))) .set
      "Error caching entitlements" [])
    exact ⟨_, v, hv, hserver, .written trivial⟩
  | table =>
    obtain ⟨v, hv, hserver⟩ := run_pure_bind (f := Answer.table) (run_understood h.faults h.table
      (fun t ht => Entitlement.readAll?_write (isWritable_of_tableHeld hpast ht) w.clock)
      "Error reading cached entitlements" [])
    exact ⟨_, v, hv, hserver.trans hsame, .table fun t => tableHeld_eq_some_iff⟩
  | dropTable =>
    obtain ⟨v, hv, hserver⟩ := run_pure_bind (f := Answer.done) (run_succeeded h.faults
      (.delete [entitlementsKey]) .invalidation "Error invalidating entitlements" [])
    exact ⟨_, v, hv, hserver, .written trivial⟩
  | clear =>
    obtain ⟨v, hv, hserver⟩ := run_pure_bind (f := Answer.cleared) (run_clear h.faults)
    exact ⟨_, v, hv, hserver, .cleared⟩

end Represents

/-! ### A run -/

theorem text?_filter_of_isOwn {key : String} (h : isOwn key = true) :
    Entries.text? (es.filter fun e => !isOwn e.key) key = none := by
  rw [Entries.text?, Table.get?_filter]
  cases hget : es.get? key with
  | none => rfl
  | some e =>
    obtain ⟨-, rfl⟩ := Table.get?_eq_some_iff.mp hget
    have hown : isOwn e.key = true := h
    simp [hown]

theorem text?_changed_accountKey (a : String) : (u.changed cache es).text? (accountKey a) =
    (u.onRows a).elim (es.text? (accountKey a)) (Option.map fun r => Wire.write r.value) := by
  by_cases hchanges : u.Changes (accountKey a)
  · cases u with
    | putRows b r =>
      obtain rfl := accountKey_injective hchanges
      simp [Use.changed, Use.onRows, Entries.text?_set]
    | dropRows b =>
      obtain rfl := accountKey_injective hchanges
      simp [Use.changed, Use.onRows, Entries.text?_without]
    | clear => exact text?_filter_of_isOwn hchanges
    | putTable t => exact absurd hchanges (accountKey_ne_entitlementsKey a)
    | dropTable => exact absurd hchanges (accountKey_ne_entitlementsKey a)
    | rows b => cases hchanges
    | table => cases hchanges
  · have hnone : u.onRows a = none := by
      cases u with
      | putRows b r => exact if_neg fun hb => hchanges (congrArg accountKey hb.symm)
      | dropRows b => exact if_neg fun hb => hchanges (congrArg accountKey hb.symm)
      | clear => exact absurd (isOwn_accountKey a) hchanges
      | _ => rfl
    rw [hnone, Entries.text?, get?_changed hchanges]
    rfl

theorem text?_changed_entitlementsKey : (u.changed cache es).text? entitlementsKey =
    u.onTable.elim (es.text? entitlementsKey)
      (Option.map fun t => Wire.write (Entitlement.listing t)) := by
  cases u with
  | putTable t => simp [Use.changed, Use.onTable, Entries.text?_set]
  | dropTable => simp [Use.changed, Use.onTable, Entries.text?_without]
  | clear => exact text?_filter_of_isOwn isOwn_entitlementsKey
  | rows a => rfl
  | table => rfl
  | putRows a r =>
    have hkey : ¬ (Use.putRows a r).Changes entitlementsKey := (accountKey_ne_entitlementsKey a).symm
    rw [Entries.text?, get?_changed hkey]
    rfl
  | dropRows a =>
    have hkey : ¬ (Use.dropRows a).Changes entitlementsKey := (accountKey_ne_entitlementsKey a).symm
    rw [Entries.text?, get?_changed hkey]
    rfl

theorem Represents.concat {v : World} (h : Represents w others uses) (now : Instant)
    (hv : v.server = ⟨u.changed cache w.server.entries, .none⟩) :
    Represents v others (uses ++ [(now, u)]) := by
  refine ⟨by rw [hv], fun a => ?_, ?_, ?_⟩
  · rw [hv, text?_changed_accountKey, rowsHeld, held_concat]
    cases hu : u.onRows a with
    | none => exact h.rows a
    | some x => rfl
  · rw [hv, text?_changed_entitlementsKey, tableHeld, held_concat]
    cases hu : u.onTable with
    | none => exact h.table
    | some x => rfl
  · rw [hv]
    exact filter_changed.trans h.others

theorem text?_of_others (hothers : ∀ e ∈ w.server.entries.rows, isOwn e.key = false) {key : String}
    (hkey : isOwn key = true) : w.server.entries.text? key = none := by
  cases hget : w.server.entries.get? key with
  | none => rw [Entries.text?, hget, Option.map_none]
  | some e =>
    obtain ⟨he, rfl⟩ := Table.get?_eq_some_iff.mp hget
    have hother : isOwn (Keyed.key e) = false := hothers e he
    simp [hother] at hkey

theorem represents_nil (hfaults : w.server.faults = .none)
    (hothers : ∀ e ∈ w.server.entries.rows, isOwn e.key = false) :
    Represents w w.server.entries [] := by
  refine ⟨hfaults, fun a => text?_of_others hothers (isOwn_accountKey a),
    text?_of_others hothers isOwn_entitlementsKey, ?_⟩
  rw [Table.filter_eq_self]
  intro e he
  rw [hothers e he, Bool.not_false]

theorem represents_after (cache : GrantCache) (hfaults : w.server.faults = .none)
    (hothers : ∀ e ∈ w.server.entries.rows, isOwn e.key = false)
    (hpast : ∀ u ∈ uses, u.2.IsWritable) :
    Represents (cache.after w uses) w.server.entries uses := by
  induction uses using List.reverseRecOn with
  | nil => exact represents_nil hfaults hothers
  | append_singleton uses use ih =>
    obtain ⟨now, u⟩ := use
    have hbefore : ∀ u ∈ uses, u.2.IsWritable := fun u hu => hpast u (List.mem_append_left _ hu)
    obtain ⟨hnone, hrows, htable, hleft⟩ := ih hbefore
    -- the clock is of no account to what the server holds
    have hthen : Represents { cache.after w uses with clock := now } w.server.entries uses :=
      ⟨hnone, hrows, htable, hleft⟩
    obtain ⟨answer, v, hv, hserver, -⟩ := hthen.run_program cache hbefore u
    have hafter : cache.after w (uses ++ [(now, u)]) = v := by
      rw [after, List.foldl_append]
      exact congrArg Prod.snd hv
    rw [hafter]
    exact hthen.concat now hserver

/-- On a server that does not fail the cache is a map: each use, whatever came before it, is answered
from what was put last, changes no key but its own, and leaves the texts of others as they were. -/
theorem refines_map (cache : GrantCache) {w : World} (hfaults : w.server.faults = .none)
    (hothers : ∀ e ∈ w.server.entries.rows, isOwn e.key = false) (past : List (Instant × Use))
    (hpast : ∀ u ∈ past, u.2.IsWritable) (now : Instant) (u : Use) :
    ∃ answer v, (u.program cache).run { cache.after w past with clock := now } = (.ok answer, v) ∧
      u.Answered past (cache.after w past).server.entries answer ∧
      (∀ key, ¬ u.Changes key →
        v.server.entries.get? key = (cache.after w past).server.entries.get? key) ∧
      v.server.entries.filter (fun e => !isOwn e.key) = w.server.entries ∧
      (u = .clear → v.server.entries = w.server.entries) := by
  obtain ⟨hnone, hrows, htable, hleft⟩ := represents_after cache hfaults hothers hpast
  have hthen : Represents { cache.after w past with clock := now } w.server.entries past :=
    ⟨hnone, hrows, htable, hleft⟩
  obtain ⟨answer, v, hv, hserver, hanswer⟩ := hthen.run_program cache hpast u
  refine ⟨answer, v, hv, hanswer, ?_, ?_, ?_⟩
  · intro key hkey
    rw [hserver]
    exact get?_changed hkey
  · rw [hserver]
    exact filter_changed.trans hleft
  · rintro rfl
    rw [hserver]
    exact hleft

def shared : World :=
  { World.initial .info none ⟨"", none, none, none⟩ with
    server := ⟨Table.empty.insert ⟨"session", none, "ann"⟩, .none⟩ }

def annsRows : Rulesets :=
  ⟨[], [⟨identifier 0, "ann", "analyst", "t1", [], .ofSeconds 60⟩]⟩

def annsUses : List (Instant × Use) :=
  [(.ofSeconds 61, .putRows "ann" annsRows), (.ofSeconds 62, .dropRows "bob"),
    (.ofSeconds 63, .dropTable)]

theorem refines_map_shared : ∃ v,
    (Use.program {} (.rows "ann")).run { after {} shared annsUses with clock := .ofSeconds 64 } =
        (.ok (.rows (some annsRows)), v) ∧
      v.server.entries.filter (fun e => !isOwn e.key) = shared.server.entries := by
  have hdated : annsRows.IsDated := ⟨by simp [annsRows], by simp [annsRows]; decide⟩
  have hpast : ∀ u ∈ annsUses, u.2.IsWritable := by simpa [annsUses, Use.IsWritable] using hdated
  obtain ⟨answer, v, hv, hanswer, -, hothers, -⟩ := refines_map {} (w := shared) rfl
    (by decide) annsUses hpast (.ofSeconds 64) (.rows "ann")
  cases hanswer with
  | written h => cases h
  | rows h =>
    obtain rfl := (h annsRows).mpr ⟨[], _, [_, _], rfl, by simp [Use.onRows]⟩
    exact ⟨v, hv, hothers⟩

end GrantCache

end AccessControl
