import AccessControl.Proofs.Entitlements.Registration
import AccessControl.Proofs.Program.Running
import AccessControl.Proofs.Text.Order

/-!
Registration before and after the store is ready. Whatever the moment is at which the store becomes
ready, the same definitions lead to the same table.
-/

namespace AccessControl

def Effect.isAway : Effect → Bool
  | .store _ | .mint => false
  | _ => true

namespace Entitlements

open Program Store
open Keyed (key)

/-! The table that rows settle to. -/

/-- The last row of a name, with the identifier and the time of creation of the first. -/
def final? (rows : List Entitlement) (name : String) : Option Entitlement := do
  let first ← rows.find? (·.name = name)
  let last ← rows.reverse.find? (·.name = name)
  return { last with id := first.id, createdAt := first.createdAt }

/-- One row for every name, in order of first appearance. -/
def settled (rows : List Entitlement) : List Entitlement :=
  (Text.distinct (rows.map Entitlement.name)).filterMap (final? rows)

/-- A row takes the place of the one of its name, whose identifier and time of creation it keeps. -/
def entered (rows : List Entitlement) (e : Entitlement) : List Entitlement :=
  Table.upsert (renewed e (rows.find? (·.name = e.name))) rows

theorem name_renewed (e : Entitlement) (old : Option Entitlement) :
    (renewed e old).name = e.name := by
  cases old <;> rfl

theorem name_of_final? {rows : List Entitlement} {name : String} {e : Entitlement}
    (h : final? rows name = some e) : e.name = name := by
  unfold final? at h
  cases hfirst : rows.find? (·.name = name) with
  | none => simp [hfirst] at h
  | some first =>
    cases hlast : rows.reverse.find? (·.name = name) with
    | none => simp [hfirst, hlast] at h
    | some last =>
      have hname := List.find?_some hlast
      simp only [hfirst, hlast] at h
      obtain rfl := Option.some.inj h
      exact of_decide_eq_true hname

theorem exists_find? {rows : List Entitlement} {e : Entitlement} (he : e ∈ rows) :
    ∃ r ∈ rows, rows.find? (·.name = e.name) = some r ∧ r.name = e.name := by
  have hsome : (rows.find? (·.name = e.name)).isSome := by
    rw [List.find?_isSome]
    exact ⟨e, he, decide_eq_true rfl⟩
  obtain ⟨r, hr⟩ := Option.isSome_iff_exists.mp hsome
  have hname := List.find?_some hr
  exact ⟨r, List.mem_of_find?_eq_some hr, hr, of_decide_eq_true hname⟩

theorem final?_of_mem {rows : List Entitlement} {e : Entitlement} (he : e ∈ rows) :
    ∃ first ∈ rows, ∃ last ∈ rows, first.name = e.name ∧ last.name = e.name ∧
      rows.find? (·.name = e.name) = some first ∧
        final? rows e.name = some { last with id := first.id, createdAt := first.createdAt } := by
  obtain ⟨first, hmem, hfirst, hname⟩ := exists_find? he
  obtain ⟨last, hmem', hlast, hname'⟩ := exists_find? (List.mem_reverse.mpr he)
  refine ⟨first, hmem, last, List.mem_reverse.mp hmem', hname, hname', hfirst, ?_⟩
  unfold final?
  rw [hfirst, hlast]
  rfl

theorem find?_eq_none {rows : List Entitlement} {name : String}
    (h : name ∉ rows.map Entitlement.name) : rows.find? (·.name = name) = none := by
  rw [List.find?_eq_none]
  intro e he hname
  exact h (List.mem_map.mpr ⟨e, he, of_decide_eq_true hname⟩)

theorem final?_eq_none {rows : List Entitlement} {name : String}
    (h : name ∉ rows.map Entitlement.name) : final? rows name = none := by
  unfold final?
  rw [find?_eq_none h]
  rfl

theorem final?_concat (rows : List Entitlement) (e : Entitlement) (name : String) :
    final? (rows ++ [e]) name =
      if name = e.name then some (renewed e (rows.find? (·.name = e.name)))
      else final? rows name := by
  unfold final?
  rw [List.reverse_concat, List.find?_append]
  by_cases hname : name = e.name
  · subst hname
    rw [if_pos rfl]
    cases hfirst : rows.find? (·.name = e.name) with
    | none => simp [renewed]
    | some first => simp [renewed]
  · have hne : ¬ e.name = name := fun h => hname h.symm
    rw [if_neg hname]
    simp [hne]

/-! Rows that are told by their names. -/

section Named

variable {f : String → Option Entitlement} (hf : ∀ name e, f name = some e → e.name = name)

include hf

theorem find?_filterMap (names : List String) (name : String) :
    (names.filterMap f).find? (·.name = name) = if name ∈ names then f name else none := by
  induction names with
  | nil => rfl
  | cons first names ih =>
    rw [List.filterMap_cons]
    by_cases hname : name = first
    · subst hname
      cases hfirst : f name with
      | none => simp [ih, hfirst]
      | some e => simp [hf name e hfirst]
    · cases hfirst : f first with
      | none => simp [ih, hname]
      | some e =>
        have hne : ¬ e.name = name := by
          rw [hf first e hfirst]
          exact fun h => hname h.symm
        simp [ih, hname, hne]

theorem upsert_filterMap_new {names : List String} {e : Entitlement} (he : e.name ∉ names) :
    Table.upsert e (names.filterMap f) = names.filterMap f ++ [e] := by
  induction names with
  | nil => rfl
  | cons first names ih =>
    obtain ⟨hne, hrest⟩ := not_or.mp fun h => he (List.mem_cons.mpr h)
    have hnext := ih hrest
    rw [List.filterMap_cons]
    cases hfirst : f first with
    | none => exact hnext
    | some r =>
      have hkey : ¬ key r = key e := by
        change ¬ r.name = e.name
        rw [hf first r hfirst]
        exact fun h => hne h.symm
      dsimp only
      rw [Table.upsert, if_neg hkey, hnext]
      rfl

theorem upsert_filterMap {names : List String} (hnames : names.Nodup) {e : Entitlement}
    (hmem : e.name ∈ names) (hold : (f e.name).isSome) :
    Table.upsert e (names.filterMap f) =
      names.filterMap fun name => if name = e.name then some e else f name := by
  induction names with
  | nil => exact absurd hmem List.not_mem_nil
  | cons first names ih =>
    obtain ⟨hnew, hnodup⟩ := List.nodup_cons.mp hnames
    rw [List.filterMap_cons, List.filterMap_cons]
    by_cases hfirst : first = e.name
    · obtain ⟨old, hold⟩ := Option.isSome_iff_exists.mp hold
      have hkey : key old = key e := hf e.name old hold
      -- no later member has the name, so the rest stays as it is
      have hrest : names.filterMap (fun name => if name = e.name then some e else f name) =
          names.filterMap f := by
        apply List.filterMap_congr
        intro name hname
        rw [if_neg]
        rintro rfl
        exact hnew (hfirst ▸ hname)
      rw [if_pos hfirst, hrest, hfirst, hold]
      exact if_pos hkey
    · have hnext := ih hnodup ((List.mem_cons.mp hmem).resolve_left fun h => hfirst h.symm)
      rw [if_neg hfirst]
      cases hr : f first with
      | none => exact hnext
      | some r =>
        have hkey : ¬ key r = key e := by
          change ¬ r.name = e.name
          rw [hf first r hr]
          exact hfirst
        dsimp only
        rw [Table.upsert, if_neg hkey, hnext]

end Named

theorem find?_settled (rows : List Entitlement) (name : String) :
    (settled rows).find? (·.name = name) = final? rows name := by
  rw [settled, find?_filterMap fun _ _ => name_of_final?]
  by_cases hname : name ∈ rows.map Entitlement.name
  · rw [if_pos (Text.mem_distinct.mpr hname)]
  · rw [if_neg fun h => hname (Text.mem_distinct.mp h), final?_eq_none hname]

theorem renewed_final? (rows : List Entitlement) (e : Entitlement) :
    renewed e (final? rows e.name) = renewed e (rows.find? (·.name = e.name)) := by
  by_cases hmem : e.name ∈ rows.map Entitlement.name
  · obtain ⟨r, hr, hname⟩ := List.mem_map.mp hmem
    obtain ⟨first, -, last, -, -, -, hfirst, hfinal⟩ := final?_of_mem hr
    rw [← hname, hfirst, hfinal]
    rfl
  · have hnone : rows.find? (·.name = e.name) = none := find?_eq_none hmem
    rw [final?_eq_none hmem, hnone]

/-- One more row is entered into the table that the others settle to. -/
theorem settled_concat (rows : List Entitlement) (e : Entitlement) :
    settled (rows ++ [e]) = entered (settled rows) e := by
  have hf (name : String) (r : Entitlement) (h : final? rows name = some r) : r.name = name :=
    name_of_final? h
  unfold entered
  rw [find?_settled]
  unfold settled
  rw [List.map_append, List.map_singleton, Text.distinct_concat]
  by_cases hmem : e.name ∈ rows.map Entitlement.name
  · obtain ⟨r, hr, hrname⟩ := List.mem_map.mp hmem
    obtain ⟨_, -, _, -, -, -, -, hfinal⟩ := final?_of_mem hr
    have hold : (final? rows (renewed e (final? rows e.name)).name).isSome := by
      rw [name_renewed, ← hrname, hfinal]
      rfl
    rw [if_pos hmem, upsert_filterMap hf (Text.nodup_distinct _)
      (by rw [name_renewed]; exact Text.mem_distinct.mpr hmem) hold]
    apply List.filterMap_congr
    intro name _
    rw [final?_concat, name_renewed, renewed_final?]
  · have hnew : (renewed e (final? rows e.name)).name ∉
        Text.distinct (rows.map Entitlement.name) := by
      rw [name_renewed]
      exact fun h => hmem (Text.mem_distinct.mp h)
    rw [if_neg hmem, upsert_filterMap_new hf hnew, List.filterMap_append]
    congr 1
    · apply List.filterMap_congr
      intro name hin
      rw [final?_concat, if_neg]
      rintro rfl
      exact hmem (Text.mem_distinct.mp hin)
    · simp [final?_concat, renewed_final?]

theorem settled_append (rows more : List Entitlement) :
    settled (rows ++ more) = more.foldl entered (settled rows) := by
  induction more generalizing rows with
  | nil => simp
  | cons e more ih =>
    rw [List.foldl_cons, ← settled_concat, ← ih, List.append_assoc, List.singleton_append]

theorem settled_eq_self {rows : List Entitlement} (h : (rows.map Entitlement.name).Nodup) :
    settled rows = rows := by
  have hfinal : ∀ e ∈ rows, (final? rows ∘ Entitlement.name) e = some e := by
    intro e he
    obtain ⟨first, hfirst, last, hlast, hname, hname', -, hfinal⟩ := final?_of_mem he
    obtain rfl := List.inj_on_of_nodup_map h hfirst he hname
    obtain rfl := List.inj_on_of_nodup_map h hlast he hname'
    exact hfinal
  unfold settled
  rw [Text.distinct_eq_self h, List.filterMap_map, List.filterMap_congr hfinal, List.filterMap_some]

theorem settled_twice (rows : List Entitlement) (e : Entitlement) (id : String) (t : Instant) :
    settled (rows ++ [e] ++ [{ e with id := id, createdAt := t, updatedAt := t }]) =
      (settled (rows ++ [e])).map fun r =>
        if r.name = e.name then { r with updatedAt := t } else r := by
  have hmem : e.name ∈ (rows ++ [e]).map Entitlement.name := by simp
  unfold settled
  rw [List.map_append, List.map_singleton, Text.distinct_concat, if_pos hmem, List.map_filterMap]
  apply List.filterMap_congr
  intro name _
  rw [final?_concat]
  by_cases hname : name = e.name
  · subst hname
    rw [if_pos rfl, final?_concat, if_pos rfl, List.find?_append]
    cases rows.find? (·.name = e.name) <;> simp [renewed]
  · rw [if_neg hname]
    cases hfinal : final? (rows ++ [e]) name with
    | none => rfl
    | some r =>
      have hr : ¬ r.name = e.name := by
        rw [name_of_final? hfinal]
        exact hname
      simp [hr]

/-! The rows of definitions. -/

structure Submission where
  definition : Definition
  time : Instant

/-- The rows of the valid definitions. Identifiers are made from the one of number `n` on. -/
def built (n : Nat) : List Submission → List Entitlement
  | [] => []
  | d :: rest =>
    match d.definition.check with
    | .ok (name, _) => d.definition.row (identifier n) name d.time :: built (n + 1) rest
    | .error _ => built n rest

theorem built_append (n : Nat) (ds more : List Submission) :
    built n (ds ++ more) = built n ds ++ built (n + (built n ds).length) more := by
  induction ds generalizing n with
  | nil => rfl
  | cons d ds ih =>
    rw [List.cons_append, built, built]
    cases d.definition.check with
    | error e => exact ih n
    | ok x =>
      obtain ⟨name, rules⟩ := x
      dsimp only
      rw [ih, List.cons_append, List.length_cons, Nat.add_assoc n 1, Nat.add_comm 1]

theorem built_cons (n : Nat) (d : Submission) (ds : List Submission) :
    built n (d :: ds) = built n [d] ++ built (n + (built n [d]).length) ds :=
  built_append n [d] ds

/-! What a call leads to in a healthy store. -/

/-- A healthy store, its rows of entitlements, and how many identifiers were made. -/
structure Stocked (rows : List Entitlement) (n : Nat) (w : World) : Prop where
  faults : w.ledger.faults = .none
  rows : w.ledger.tables.entitlements.rows = rows
  minted : w.minted = n

abbrev Reaches {α : Type} (P : World → Prop) (p : Program α) (A : α → World → Prop) : Prop :=
  Attains World.answer P p A fun _ => False

section Reaches

variable {α β σ : Type} {rows : List Entitlement} {n : Nat}

theorem Reaches.attempt {P : World → Prop} {p : Program α} {A : α → World → Prop}
    (h : Reaches P p A) : Reaches P p.attempt fun x w => ∃ a, x = .ok a ∧ A a w := by
  intro w hw
  have hp := h w hw
  rw [runBy_attempt]
  revert hp
  rcases p.runBy World.answer w with ⟨e | a, v⟩
  · exact False.elim
  · exact fun ha => ⟨a, rfl, ha⟩

theorem reaches_perform {e : Effect} (he : e.isAway = true) :
    Reaches (Stocked rows n) (perform e) fun _ => Stocked rows n := by
  intro w hw
  cases e with
  | store | mint => cases he
  | _ => exact ⟨hw.faults, hw.rows, hw.minted⟩

theorem reaches_log {level : Log.Level} {logger message : String} {fields : Value.Fields} :
    Reaches (Stocked rows n) (log level logger message fields) fun _ => Stocked rows n :=
  reaches_perform rfl

theorem Stocked.runBy_call {w : World} (hw : Stocked rows n w) (c : Call) :
    (call c).runBy World.answer w =
      (.ok (w.ledger.tables.reply c), { w with ledger := ⟨w.ledger.tables.after c, .none⟩ }) := by
  have hledger : w.ledger = ⟨w.ledger.tables, .none⟩ := by rw [← hw.faults]
  have hcall := Ledger.call_none w.ledger.tables c
  rw [← hledger] at hcall
  have hanswer : w.answer (.store c) = (.ok (w.ledger.tables.reply c),
      { w with ledger := ⟨w.ledger.tables.after c, .none⟩ }) := by
    simp only [World.answer, hcall]
  change (ofExcept (w.answer (.store c)).1).runBy World.answer (w.answer (.store c)).2 = _
  rw [hanswer]
  rfl

theorem reaches_entitlement (name : String) :
    Reaches (Stocked rows n) (call (.entitlement name)) fun old w =>
      old = rows.find? (·.name = name) ∧ Stocked rows n w := by
  intro w hw
  rw [hw.runBy_call]
  refine ⟨?_, rfl, hw.rows, hw.minted⟩
  rw [← hw.rows]
  rfl

theorem reaches_all : Reaches (Stocked rows n) all fun _ => Stocked rows n := by
  refine Attains.storing ?_ _ _ fun _ _ => id
  intro w hw
  rw [hw.runBy_call]
  exact ⟨rfl, hw.rows, hw.minted⟩

theorem reaches_putEntitlement (e : Entitlement) :
    Reaches (Stocked rows n) (call (.putEntitlement e)) fun _ =>
      Stocked (Table.upsert e rows) n := by
  intro w hw
  rw [hw.runBy_call]
  refine ⟨rfl, ?_, hw.minted⟩
  rw [← hw.rows]
  rfl

theorem Stocked.away {w : World} (hw : Stocked rows n w) {e : Effect} (he : e.isAway = true) :
    Stocked rows n (w.answer e).2 :=
  reaches_perform he w hw

theorem reaches_save (e : Entitlement) :
    Reaches (Stocked rows n) (save e) fun _ => Stocked (entered rows e) n := by
  unfold save
  refine Attains.locking (Attains.storing ?_ _ _ fun _ _ => id) e.name (fun _ hw => hw.away rfl)
    (fun _ _ hw => hw.away rfl) fun _ => id
  apply (reaches_entitlement e.name).bind
  intro old
  have hrest : Reaches (Stocked rows n) (do
      log .info logger (if old.isSome then "Updating entitlement" else "Creating entitlement")
        [("entitlement", .text e.name)]
      let _ ← call (.putEntitlement (renewed e old))
      return renewed e old) fun _ => Stocked (Table.upsert (renewed e old) rows) n :=
    reaches_log.bind fun _ => (reaches_putEntitlement _).bind fun _ => attains_pure fun _ => id
  rintro w ⟨rfl, hw⟩
  exact hrest w hw

def ChangeListener.IsCalm : ChangeListener → Prop
  | .cache => True
  | .named _ l => l.failure = none

theorem reaches_hear {l : ChangeListener} (hl : l.IsCalm) (name : String) :
    Reaches (Stocked rows n) (l.hear name) fun _ => Stocked rows n := by
  cases l with
  | cache =>
    refine Attains.bind ?_ fun _ => attains_pure fun _ => id
    apply (reaches_perform rfl).bind
    intro x
    cases x with
    | error reason => exact reaches_log.bind fun _ => attains_pure fun _ => id
    | ok count => exact (reaches_perform rfl).bind fun _ => attains_pure fun _ => id
  | named listener l =>
    have hcalm : l.failure = none := hl
    apply (reaches_perform rfl).bind
    intro _
    rw [hcalm]
    exact attains_pure fun _ => id

theorem reaches_publish (c : Entitlements) :
    Reaches (Stocked rows n) c.publish fun _ => Stocked rows n := by
  unfold publish
  split
  · exact attains_pure fun _ => id
  · apply (Reaches.attempt reaches_all).bind
    rintro x w ⟨es, rfl, hw⟩
    have hwrite (path : String) :
        Reaches (Stocked rows n) (Listing.write path es) fun _ => Stocked rows n := by
      apply (reaches_perform rfl).bind
      intro published
      apply (reaches_perform rfl).bind
      intro _
      split <;> exact reaches_log
    exact hwrite _ w hw

theorem reaches_announce {ls : List ChangeListener} (hls : ∀ l ∈ ls, l.IsCalm) (name : String) :
    Reaches (Stocked rows n) (ls.forM (·.hear name)) fun _ => Stocked rows n := by
  induction ls with
  | nil => exact attains_pure fun _ => id
  | cons l ls ih =>
    obtain ⟨hl, hrest⟩ := List.forall_mem_cons.mp hls
    exact (reaches_hear hl name).bind fun _ => ih hrest

variable {c : Entitlements} (hc : ∀ l ∈ c.listeners, l.IsCalm)

include hc

theorem reaches_store (r : Registration) :
    Reaches (Stocked rows n) (c.store r) fun _ => Stocked (entered rows r.entitlement) n := by
  apply (reaches_save r.entitlement).bind
  intro e
  apply (reaches_announce hc e.name).bind
  intro _
  change Reaches _ (ite _ _ _) _
  split
  · exact (reaches_publish c).bind fun _ => attains_pure fun _ => id
  · exact attains_pure fun _ => id

end Reaches

theorem ensures_definition (rows : List Entitlement) (n : Nat) (d : Submission) :
    Ensures World.answer (fun w => Stocked rows n w ∧ w.clock = d.time) d.definition.entitlement
      fun x w => Stocked rows (n + (built n [d]).length) w ∧
        match d.definition.check with
        | .ok (name, _) => x = .ok (d.definition.row (identifier n) name d.time)
        | .error e => x = .error e := by
  unfold Definition.entitlement built
  cases d.definition.check with
  | error e => exact fun w hw => ⟨hw.1, rfl⟩
  | ok x =>
    obtain ⟨name, rules⟩ := x
    have hwarn : Reaches (fun w => Stocked rows n w ∧ w.clock = d.time)
        (d.definition.warnInert name rules) fun _ w => Stocked rows n w ∧ w.clock = d.time := by
      unfold Definition.warnInert
      split
      · exact attains_pure fun _ => id
      · exact fun w hw => ⟨hw.1.away rfl, hw.2⟩
    change Ensures _ _ (d.definition.warnInert name rules >>= _) _
    refine Ensures.bind hwarn (fun _ => ?_) fun _ _ => False.elim
    rintro w ⟨hw, hclock⟩
    refine ⟨⟨hw.faults, hw.rows, ?_⟩, ?_⟩
    · change w.minted + 1 = n + 1
      rw [hw.minted]
    · change Except.ok (d.definition.row (identifier w.minted) name w.clock) = _
      rw [hw.minted, hclock]

/-! The calls. -/

def waiting (es : List Entitlement) : List (Job Registration) :=
  es.map fun e => .mk ⟨e, false⟩ .none

def pending (es : List Entitlement) : Backlog Registration :=
  ⟨.pending, waiting es⟩

section Calls

variable {α β σ : Type} {rows : List Entitlement} {n : Nat}

theorem Reaches.stateful_bind {P : World → Prop} {p : Stateful σ α} {f : α → Stateful σ β} {s : σ}
    {A : Except Error α × σ → World → Prop} {B : Except Error β × σ → World → Prop}
    (hp : Reaches P (p s) A) (hok : ∀ a t, Reaches (A (.ok a, t)) (f a t) B)
    (herror : ∀ e t w, A (.error e, t) w → B (.error e, t) w) :
    Reaches P ((p >>= f) s) B := by
  refine Attains.bind hp fun x => ?_
  obtain ⟨e | a, t⟩ := x
  · exact attains_pure (herror e t)
  · exact hok a t

theorem reaches_lift {P : World → Prop} {q : Program α} {R : Except Error α → World → Prop}
    (h : Ensures World.answer P q R) (s : σ) :
    Reaches P ((liftM q : Stateful σ α) s) fun x w => x.2 = s ∧ R x.1 w := by
  intro w hw
  rw [runBy_answer, Stateful.run_lift, ← runBy_answer]
  exact ⟨rfl, h w hw⟩

theorem reaches_counted (mode : String) (e : Entitlement) (c : Entitlements) :
    Reaches (Stocked rows n) ((do
      count mode
      return e : Stateful Entitlements Entitlement) c) fun x w => x.2 = c ∧ Stocked rows n w := by
  have hcount : Reaches (Stocked rows n) (count mode) fun _ => Stocked rows n := reaches_perform rfl
  refine (reaches_lift hcount c).stateful_bind ?_ ?_
  · rintro a t w ⟨rfl, hw⟩
    exact ⟨rfl, hw⟩
  · rintro e t w ⟨-, hfalse⟩
    exact hfalse.elim

def queued (c : Entitlements) (es : List Entitlement) : Entitlements :=
  { c with backlog := { c.backlog with queue := c.backlog.queue ++ waiting es } }

variable {c : Entitlements} {d : Submission}

theorem reaches_definition {f : Entitlement → Stateful Entitlements Entitlement}
    {B : Entitlements → World → Prop}
    (hnone : built n [d] = [] → ∀ w, Stocked rows n w → B c w)
    (hsome : ∀ e, built n [d] = [e] → Reaches (Stocked rows (n + 1)) (f e c) fun x => B x.2) :
    Reaches (fun w => Stocked rows n w ∧ w.clock = d.time)
      (((liftM d.definition.entitlement : Stateful Entitlements Entitlement) >>= f) c)
      fun x => B x.2 := by
  have hdefinition := reaches_lift (ensures_definition rows n d) c
  cases hcheck : d.definition.check with
  | error e =>
    have hbuilt : built n [d] = [] := by simp [built, hcheck]
    rw [hcheck, hbuilt] at hdefinition
    refine hdefinition.stateful_bind ?_ ?_
    · rintro a t w ⟨rfl, hw, hx⟩
      cases hx
    · rintro e t w ⟨rfl, hw, hx⟩
      exact hnone hbuilt w hw
  | ok x =>
    obtain ⟨name, rules⟩ := x
    have hbuilt : built n [d] = [d.definition.row (identifier n) name d.time] := by
      simp [built, hcheck]
    rw [hcheck, hbuilt] at hdefinition
    refine hdefinition.stateful_bind ?_ ?_
    · rintro a t w ⟨rfl, hw, hx⟩
      obtain rfl := Except.ok.inj hx
      exact hsome _ hbuilt w hw
    · rintro e t w ⟨rfl, hw, hx⟩
      cases hx

theorem queued_nil (c : Entitlements) : queued c [] = c := by
  simp [queued, waiting]

def Waiting (c : Entitlements) (es rows : List Entitlement) (n : Nat) (c' : Entitlements)
    (w : World) : Prop :=
  c' = queued c es ∧ Stocked rows (n + es.length) w

def Entered (c : Entitlements) (es rows : List Entitlement) (n : Nat) (c' : Entitlements)
    (w : World) : Prop :=
  c' = c ∧ Stocked (es.foldl entered rows) (n + es.length) w

def Opened (c : Entitlements) (es rows : List Entitlement) (n : Nat) (c' : Entitlements)
    (w : World) : Prop :=
  c' = { c with backlog := ⟨.flushed, []⟩ } ∧ Stocked (es.foldl entered rows) n w

theorem enqueue_pending (hc : c.backlog.phase = .pending) (e : Entitlement) :
    onBacklog (Backlog.enqueue (.mk ⟨e, false⟩ .none)) c = Program.done (.ok (), queued c [e]) := by
  obtain ⟨⟨phase, queue⟩, listeners, listing⟩ := c
  obtain rfl : phase = .pending := hc
  rfl

theorem submit_pending (hc : c.backlog.phase = .pending) (run : Registration → Program Entitlement)
    (e : Entitlement) :
    onBacklog (Backlog.submit run (.mk ⟨e, false⟩ .none)) c =
      Program.done (.ok none, queued c [e]) := by
  obtain ⟨⟨phase, queue⟩, listeners, listing⟩ := c
  obtain rfl : phase = .pending := hc
  rfl

theorem submit_flushed (hc : c.backlog.phase = .flushed) (run : Registration → Program Entitlement)
    (r : Registration) :
    onBacklog (Backlog.submit run (.mk r .none)) c = do
      let x ← (run r).attempt
      return (x.map some, c) := by
  obtain ⟨⟨phase, queue⟩, listeners, listing⟩ := c
  obtain rfl : phase = .flushed := hc
  have hjob : Job.run run (.mk r .none) = run r := by rw [run_none, attempt_ofExcept]
  rw [← hjob]
  change (((Job.run run (.mk r .none)).attempt >>= fun x => pure (x, _)) >>= _) >>= _ = _
  rw [bind_assoc, bind_assoc]
  apply bind_congr
  intro x
  cases x <;> rfl

theorem reaches_declare (hc : c.backlog.phase = .pending) :
    Reaches (fun w => Stocked rows n w ∧ w.clock = d.time) (declare d.definition c)
      fun x => Waiting c (built n [d]) rows n x.2 := by
  refine reaches_definition (B := Waiting c (built n [d]) rows n) ?_ ?_
  · intro hbuilt w hw
    rw [hbuilt]
    exact ⟨(queued_nil c).symm, hw⟩
  · intro e hbuilt
    rw [hbuilt]
    change Reaches _ (Program.bind (onBacklog (Backlog.enqueue (.mk ⟨e, false⟩ .none)) c) _) _
    rw [enqueue_pending hc]
    exact reaches_counted "queued" e (queued c [e])

theorem reaches_register_pending (hc : c.backlog.phase = .pending) :
    Reaches (fun w => Stocked rows n w ∧ w.clock = d.time) (register d.definition c)
      fun x => Waiting c (built n [d]) rows n x.2 := by
  have hflushed : c.backlog.flushed = false := by simp [Backlog.flushed, hc]
  refine reaches_definition (B := Waiting c (built n [d]) rows n) ?_ ?_
  · intro hbuilt w hw
    rw [hbuilt]
    exact ⟨(queued_nil c).symm, hw⟩
  · intro e hbuilt
    rw [hbuilt]
    change Reaches _ (Program.bind
      (onBacklog (Backlog.submit c.store (.mk ⟨e, c.backlog.flushed⟩ .none)) c) _) _
    rw [hflushed, submit_pending hc]
    exact reaches_counted "queued" e (queued c [e])

variable (hcalm : ∀ l ∈ c.listeners, l.IsCalm)

include hcalm

theorem reaches_register (hc : c.backlog.phase = .flushed) :
    Reaches (fun w => Stocked rows n w ∧ w.clock = d.time) (register d.definition c)
      fun x => Entered c (built n [d]) rows n x.2 := by
  have hflushed : c.backlog.flushed = true := by simp [Backlog.flushed, hc]
  refine reaches_definition (B := Entered c (built n [d]) rows n) ?_ ?_
  · intro hbuilt w hw
    rw [hbuilt]
    exact ⟨rfl, hw⟩
  · intro e hbuilt
    rw [hbuilt]
    have hsubmit : Reaches (Stocked rows (n + 1))
        (onBacklog (Backlog.submit c.store (.mk ⟨e, c.backlog.flushed⟩ .none)) c)
        fun x w => (∃ f, x = (.ok (some f), c)) ∧ Stocked (entered rows e) (n + 1) w := by
      rw [submit_flushed hc]
      apply (reaches_store hcalm _).attempt.bind
      rintro x w ⟨f, rfl, hw⟩
      exact ⟨⟨f, rfl⟩, hw⟩
    change Reaches _ (Program.bind
      (onBacklog (Backlog.submit c.store (.mk ⟨e, c.backlog.flushed⟩ .none)) c) _) _
    refine Attains.bind hsubmit fun x => ?_
    rintro w ⟨⟨f, rfl⟩, hw⟩
    exact reaches_counted _ f c w hw

theorem reaches_queue (es : List Entitlement) (k : Nat) (s : Submitters Registration) :
    Reaches (Stocked rows n) (Queue.run c.store ((waiting es).map (·, none)) k s) fun r w =>
      r = ⟨.ok (), k + es.length, [], s⟩ ∧ Stocked (es.foldl entered rows) n w := by
  induction es generalizing rows k with
  | nil =>
    rw [waiting, List.map_nil, List.map_nil, Queue.run]
    exact attains_pure fun _ hw => ⟨rfl, hw⟩
  | cons e es ih =>
    have hrest : Reaches (Stocked (entered rows e) n)
        (Queue.run c.store ((waiting es).map (·, none)) (k + 1) s) fun r w =>
          r = ⟨.ok (), k + (es.length + 1), [], s⟩ ∧
            Stocked (es.foldl entered (entered rows e)) n w := by
      rw [Nat.add_comm es.length 1, ← Nat.add_assoc]
      exact ih (k + 1)
    change Reaches _ (Queue.run c.store ((.mk ⟨e, false⟩ .none, none) :: (waiting es).map _) k s) _
    rw [Queue.run]
    simp only [Moves.answers, pure_bind, Moves.queued, List.append_nil, Submitters.tell]
    apply (reaches_store hcalm ⟨e, false⟩).attempt.bind
    rintro x w ⟨f, rfl, hw⟩
    exact hrest w hw

theorem reaches_flushWith (es : List Entitlement) :
    Reaches (Stocked rows n) ((pending es).flushWith c.store c.publish) fun x w =>
      x = (.ok es.length, {}, ⟨.flushed, []⟩) ∧ Stocked (es.foldl entered rows) n w := by
  have hpending : ¬ (pending es).flushed = true := by simp [pending, Backlog.flushed]
  unfold Backlog.flushWith
  rw [if_neg hpending]
  apply (reaches_queue hcalm es 0 {}).bind
  rintro r w ⟨rfl, hw⟩
  rw [Nat.zero_add]
  revert w
  change Reaches (Stocked (es.foldl entered rows) n) (log _ _ _ _ >>= _) _
  apply reaches_log.bind
  intro _
  apply (reaches_publish c).attempt.bind
  rintro x w ⟨_, rfl, hw⟩
  exact ⟨rfl, hw⟩

/-- The flush enters the rows that wait, in their order. -/
theorem reaches_ready {es : List Entitlement} (hc : c.backlog = pending es) (t : Instant) :
    Reaches (fun w => Stocked rows n w ∧ w.clock = t) (ready c)
      fun x => Opened c es rows n x.2 := by
  have hflush : Reaches (Stocked rows n) (Backlog.flush c.store c.publish c.backlog)
      fun x w => x.2 = ⟨.flushed, []⟩ ∧ Stocked (es.foldl entered rows) n w := by
    rw [hc]
    apply (reaches_flushWith hcalm es).bind
    rintro x w ⟨rfl, hw⟩
    exact ⟨rfl, hw⟩
  change Reaches _ (Program.bind (Backlog.flush c.store c.publish c.backlog) _) _
  refine Attains.bind (hflush.mono (fun _ hw => hw.1) fun _ _ => id) ?_
  rintro ⟨x, i⟩ w ⟨rfl, hw⟩
  exact ⟨rfl, hw⟩

end Calls

/-! Scenarios. -/

/-- Before the store is ready a definition is declared or registered. -/
inductive Way where
  | declare
  | register

def Way.give : Way → Definition → Stateful Entitlements Entitlement
  | .declare => Entitlements.declare
  | .register => Entitlements.register

/-- Definitions in turn, and the moment at which the store becomes ready. -/
structure Scenario where
  before : List (Way × Submission)
  opening : Instant
  after : List Submission

def Scenario.submissions (s : Scenario) : List Submission :=
  s.before.map Prod.snd ++ s.after

def during {α : Type} (t : Instant) (p : Stateful Entitlements α) (x : Entitlements × World) :
    Entitlements × World :=
  match Program.run (p x.1) { x.2 with clock := t } with
  | (.ok (_, c), w) => (c, w)
  | (.error _, w) => (x.1, w)

def given (x : Entitlements × World) : Way × Submission → Entitlements × World
  | (way, d) => during d.time (way.give d.definition) x

def registered (x : Entitlements × World) (d : Submission) : Entitlements × World :=
  during d.time (register d.definition) x

def Scenario.play (s : Scenario) (x : Entitlements × World) : Entitlements × World :=
  s.after.foldl registered (during s.opening ready (s.before.foldl given x))

def Scenario.table (s : Scenario) (c : Entitlements) (w : World) : List Entitlement :=
  (s.play (c, w)).2.ledger.tables.entitlements.rows

def Definition.names (d : Definition) (e : Entitlement) : Bool :=
  match d.check with
  | .ok (name, _) => e.name = name
  | .error _ => false

section Scenario

variable {rows : List Entitlement} {n : Nat} {c : Entitlements} {w : World}

theorem during_of_reaches {α : Type} {t : Instant} {p : Stateful Entitlements α}
    {B : Entitlements → World → Prop}
    (h : Reaches (fun w => Stocked rows n w ∧ w.clock = t) (p c) fun x => B x.2)
    (hw : Stocked rows n w) : B (during t p (c, w)).1 (during t p (c, w)).2 := by
  have hrun := h { w with clock := t } ⟨⟨hw.faults, hw.rows, hw.minted⟩, rfl⟩
  rw [runBy_answer] at hrun
  unfold during
  revert hrun
  rcases Program.run (p c) { w with clock := t } with ⟨e | ⟨x, c'⟩, v⟩
  · exact False.elim
  · exact id

theorem queued_queued (c : Entitlements) (es more : List Entitlement) :
    queued (queued c es) more = queued c (es ++ more) := by
  simp [queued, waiting]

theorem reaches_give (way : Way) (d : Submission) (hc : c.backlog.phase = .pending) :
    Reaches (fun w => Stocked rows n w ∧ w.clock = d.time) (way.give d.definition c)
      fun x => Waiting c (built n [d]) rows n x.2 := by
  cases way with
  | declare => exact reaches_declare hc
  | register => exact reaches_register_pending hc

theorem waiting_before (ds : List (Way × Submission)) (hc : c.backlog.phase = .pending)
    (hw : Stocked rows n w) :
    Waiting c (built n (ds.map Prod.snd)) rows n (ds.foldl given (c, w)).1
      (ds.foldl given (c, w)).2 := by
  induction ds generalizing c n w with
  | nil => exact ⟨(queued_nil c).symm, hw⟩
  | cons first ds ih =>
    obtain ⟨way, d⟩ := first
    obtain ⟨hqueued, hnext⟩ := during_of_reaches (reaches_give way d hc) hw
    -- the store is no readier than it was before the first definition
    have hphase : (given (c, w) (way, d)).1.backlog.phase = .pending := by
      change (during d.time (way.give d.definition) (c, w)).1.backlog.phase = _
      rw [hqueued]
      exact hc
    obtain ⟨hrest, hlast⟩ := ih hphase hnext
    rw [List.map_cons, built_cons, List.foldl_cons]
    constructor
    · refine hrest.trans ?_
      change queued (during d.time (way.give d.definition) (c, w)).1 _ = _
      rw [hqueued, queued_queued]
    · rw [List.length_append, ← Nat.add_assoc]
      exact hlast

theorem entered_after (ds : List Submission) (hc : c.backlog.phase = .flushed)
    (hcalm : ∀ l ∈ c.listeners, l.IsCalm) (hw : Stocked rows n w) :
    Entered c (built n ds) rows n (ds.foldl registered (c, w)).1
      (ds.foldl registered (c, w)).2 := by
  induction ds generalizing n w rows with
  | nil => exact ⟨rfl, hw⟩
  | cons d ds ih =>
    obtain ⟨hsame, hnext⟩ := during_of_reaches (reaches_register hcalm hc) hw
    obtain ⟨hrest, hlast⟩ := ih hnext
    have hstep : registered (c, w) d = (c, (registered (c, w) d).2) := Prod.ext hsame rfl
    rw [built_cons, List.foldl_cons, hstep]
    constructor
    · exact hrest
    · rw [List.foldl_append, List.length_append, ← Nat.add_assoc]
      exact hlast

theorem table_eq (s : Scenario) (hbacklog : c.backlog = {}) (hcalm : ∀ l ∈ c.listeners, l.IsCalm)
    (hw : w.ledger.faults = .none) :
    s.table c w = settled (w.ledger.tables.entitlements.rows ++ built w.minted s.submissions) := by
  have hnames : (w.ledger.tables.entitlements.rows.map Entitlement.name).Nodup :=
    w.ledger.tables.entitlements.nodup
  have hphase : c.backlog.phase = .pending := by rw [hbacklog]
  obtain ⟨hwaiting, hbefore⟩ := waiting_before s.before hphase ⟨hw, rfl, rfl⟩
  generalize hes : built w.minted (s.before.map Prod.snd) = es at hwaiting hbefore
  have hpending : (queued c es).backlog = pending es := by simp [queued, hbacklog, pending]
  obtain ⟨hopened, hready⟩ :=
    during_of_reaches (reaches_ready (c := queued c es) hcalm hpending s.opening) hbefore
  obtain ⟨-, hafter⟩ := entered_after s.after (c := { c with backlog := ⟨.flushed, []⟩ }) rfl hcalm
    hready
  have hplay : s.play (c, w) = s.after.foldl registered ({ c with backlog := ⟨.flushed, []⟩ },
      (during s.opening ready (queued c es, (s.before.foldl given (c, w)).2)).2) := by
    have hbegun : s.before.foldl given (c, w) =
        (queued c es, (s.before.foldl given (c, w)).2) := Prod.ext hwaiting rfl
    have hflushed : during s.opening ready (queued c es, (s.before.foldl given (c, w)).2) = (_, _) :=
      Prod.ext hopened rfl
    exact congrArg (s.after.foldl registered)
      ((congrArg (during s.opening ready) hbegun).trans hflushed)
  unfold Scenario.table Scenario.submissions
  rw [hplay, hafter.rows, built_append, hes, ← List.foldl_append, settled_append,
    settled_eq_self hnames]

theorem settled_built_twice (rows : List Entitlement) (n : Nat) (ds : List Submission)
    (d : Definition) (t t' : Instant) :
    settled (rows ++ built n (ds ++ [⟨d, t⟩, ⟨d, t'⟩])) =
      (settled (rows ++ built n (ds ++ [⟨d, t⟩]))).map fun e =>
        if d.names e then { e with updatedAt := t' } else e := by
  rw [built_append, built_append]
  cases hcheck : d.check with
  | error e => simp [built, Definition.names, hcheck]
  | ok x =>
    obtain ⟨name, rules⟩ := x
    let m := n + (built n ds).length
    have htwice := settled_twice (rows ++ built n ds) (d.row (identifier m) name t)
      (identifier (m + 1)) t'
    have hnames (e : Entitlement) : d.names e = decide (e.name = name) := by
      simp [Definition.names, hcheck]
    simp only [built, hcheck, hnames, decide_eq_true_eq]
    simp only [List.append_assoc] at htwice
    exact htwice

/-- Whatever the moment is at which the store becomes ready, the valid definitions lead to one
table. A definition that is given twice in a row leads to the same as once, but for the time. -/
theorem settles_alike (s : Scenario) (hbacklog : c.backlog = {})
    (hcalm : ∀ l ∈ c.listeners, l.IsCalm) (hw : w.ledger.faults = .none) :
    s.table c w = settled (w.ledger.tables.entitlements.rows ++ built w.minted s.submissions) ∧
      (∀ other : Scenario, other.submissions = s.submissions → other.table c w = s.table c w) ∧
      ∀ (twice : Scenario) (ds : List Submission) (d : Definition) (t t' : Instant),
        s.submissions = ds ++ [⟨d, t⟩] → twice.submissions = ds ++ [⟨d, t⟩, ⟨d, t'⟩] →
          twice.table c w = (s.table c w).map fun e =>
            if d.names e then { e with updatedAt := t' } else e := by
  have htable (s : Scenario) := table_eq s hbacklog hcalm hw
  refine ⟨htable s, ?_, ?_⟩
  · intro other hother
    rw [htable other, hother, htable s]
  · intro twice ds d t t' honce htwice
    rw [htable twice, htwice, htable s, honce]
    exact settled_built_twice _ _ ds d t t'

/-! A definition that is declared at first and registered anew, before and after the store is ready,
beside one that is no definition. -/

def exports (description : String) : Definition :=
  { name := .text "exports", description, group := "data", permissions := [.text "note:read"] }

def rollout : Scenario where
  before := [(.declare, ⟨exports "first", .ofSeconds 1⟩),
    (.register, ⟨exports "second", .ofSeconds 2⟩)]
  opening := .ofSeconds 3
  after := [⟨{ exports "none" with name := .text "All Exports" }, .ofSeconds 4⟩,
    ⟨exports "third", .ofSeconds 5⟩]

def overture : Entitlements :=
  { listeners := [.cache, .named "audit" {}], listing := some "types.py" }

theorem settles_alike_rollout :
    overture.backlog = {} ∧ (∀ l ∈ overture.listeners, l.IsCalm) ∧
      (World.initial .error none { path := "" }).ledger.faults = .none ∧
      rollout.table overture (.initial .error none { path := "" }) =
        [renewed ((exports "third").row (identifier 2) "exports" (.ofSeconds 5))
          (some ((exports "first").row (identifier 0) "exports" (.ofSeconds 1)))] := by
  have hcalm : ∀ l ∈ overture.listeners, l.IsCalm := by
    simp [overture, ChangeListener.IsCalm]
  refine ⟨rfl, hcalm, rfl, ?_⟩
  have halike := settles_alike (w := .initial .error none { path := "" }) rollout rfl hcalm rfl
  rw [halike.1]
  rfl

end Scenario

end Entitlements

end AccessControl
