import AccessControl.Proofs.Program.Interpretation
import AccessControl.Proofs.Program.Running
import AccessControl.Store.Readiness
import Mathlib.Data.List.Nodup

/-!
Those who listen for tables. Whatever they do when they are told, they are told at most once, table
by table and in the order in which they came; unless one of them fails, each of them is told who
came before its table was ready.
-/

namespace AccessControl.Store.Readiness

open Program

variable {ι : Type}

inductive Happening where
  | listened (entityType : String)
  | told (place : Nat)
  | failed (place : Nat)

/-- Something that happened, and the types that were ready then. One who listens is known by the
place that its registration has among the events. -/
structure Event where
  happening : Happening
  ready : List String

structure Chronicle (ι : Type) where
  readiness : Readiness (Nat × ι) := {}
  events : List Event := []

/-- What one does who is told, given the types that are ready: whom it registers, and whether it
fails then. -/
abbrev Conduct (ι : Type) := ι → List String → Program (List (String × ι) × Option Error)

namespace Chronicle

def record (c : Chronicle ι) (h : Happening) : Chronicle ι :=
  { c with events := c.events ++ [⟨h, c.readiness.ready⟩] }

def listen (c : Chronicle ι) (entityType : String) (l : ι) : Chronicle ι :=
  { c.record (.listened entityType) with
    readiness := c.readiness.listen entityType (c.events.length, l) }

def listenAll (c : Chronicle ι) (ls : List (String × ι)) : Chronicle ι :=
  ls.foldl (fun c l => c.listen l.1 l.2) c

def tell (conduct : Conduct ι) : Nat × ι → Stateful (Chronicle ι) Unit
  | (place, l) => fun c => do
    let c := c.record (.told place)
    match ← (conduct l c.readiness.ready).attempt with
    | .ok (ls, none) => return (.ok (), c.listenAll ls)
    | .ok (ls, some e) => return (.error e, (c.listenAll ls).record (.failed place))
    | .error e => return (.error e, c.record (.failed place))

inductive Call (ι : Type) where
  | listen (entityType : String) (l : ι)
  | start

def Call.make (conduct : Conduct ι) : Call ι → Stateful (Chronicle ι) Unit
  | .listen entityType l => modify fun c => c.listen entityType l
  | .start =>
    announceAll Chronicle.readiness (fun c readiness => { c with readiness }) (tell conduct)

def course (conduct : Conduct ι) (calls : List (Call ι)) : Stateful (Chronicle ι) Unit :=
  calls.forM fun call => do
    let _ ← (call.make conduct).attempt

end Chronicle

/-! ### What happened -/

def Event.told? (e : Event) : Option Nat :=
  match e.happening with
  | .told place => some place
  | _ => none

def told (events : List Event) : List Nat :=
  events.filterMap Event.told?

def HasFailed (events : List Event) : Prop :=
  ∃ place ready, ⟨.failed place, ready⟩ ∈ events

def Listens (events : List Event) (place : Nat) (entityType : String) (ready : List String) :
    Prop :=
  events[place]? = some ⟨.listened entityType, ready⟩

/-- Table by table, and in the order of registration. -/
def Precedes (events : List Event) (m n : Nat) : Prop :=
  ∃ t u r r', Listens events m t r ∧ Listens events n u r' ∧
    (ownTypes.idxOf t < ownTypes.idxOf u ∨ t = u ∧ m < n)

section

variable {events : List Event} {m n : Nat} {t u : String} {r r' : List String}

theorem Listens.concat (h : Listens events n t r) (e : Event) : Listens (events ++ [e]) n t r := by
  obtain ⟨hlt, -⟩ := List.getElem?_eq_some_iff.mp h
  rw [Listens, List.getElem?_append_left hlt]
  exact h

theorem Listens.inj (h : Listens events n t r) (h' : Listens events n u r') : t = u ∧ r = r' := by
  rw [Listens, h, Option.some.injEq, Event.mk.injEq, Happening.listened.injEq] at h'
  exact h'

theorem Listens.lt (h : Listens events n t r) : n < events.length :=
  (List.getElem?_eq_some_iff.mp h).1

theorem Listens.mem (h : Listens events n t r) : ⟨.listened t, r⟩ ∈ events :=
  List.mem_of_getElem? h

theorem Listens.of_concat {e : Event} (h : Listens (events ++ [e]) n t r) :
    Listens events n t r ∨ n = events.length ∧ e = ⟨.listened t, r⟩ := by
  rcases Nat.lt_or_ge n events.length with hlt | hge
  · rw [Listens, List.getElem?_append_left hlt] at h
    exact .inl h
  · have hlt := h.lt
    rw [List.length_append, List.length_singleton] at hlt
    obtain rfl : n = events.length := by omega
    rw [Listens, List.getElem?_concat_length] at h
    exact .inr ⟨rfl, Option.some.inj h⟩

theorem Precedes.concat (h : Precedes events m n) (e : Event) : Precedes (events ++ [e]) m n := by
  obtain ⟨t, u, r, r', hm, hn, hlt⟩ := h
  exact ⟨t, u, r, r', hm.concat e, hn.concat e, hlt⟩

theorem Precedes.ne (h : Precedes events m n) : m ≠ n := by
  obtain ⟨t, u, r, r', hm, hn, hlt⟩ := h
  rintro rfl
  obtain ⟨rfl, -⟩ := hm.inj hn
  omega

theorem told_concat (events : List Event) (e : Event) :
    told (events ++ [e]) = told events ++ e.told?.toList := by
  rw [told, List.filterMap_append]
  cases h : e.told? with
  | none => simp [told, h]
  | some n => simp [told, h]

end

/-! ### The types that are ready -/

theorem nodup_ownTypes : ownTypes.Nodup := by
  decide

theorem idxOf_lt_of_mem_take {t : String} {k : Nat} (h : t ∈ ownTypes.take k) :
    ownTypes.idxOf t < k := by
  have hsplit : (ownTypes.take k ++ ownTypes.drop k).idxOf t = (ownTypes.take k).idxOf t :=
    List.idxOf_append_of_mem h
  rw [List.take_append_drop] at hsplit
  have hlt := List.idxOf_lt_length_of_mem h
  have hlength := List.length_take_le k ownTypes
  omega

theorem idxOf_getElem? {t : String} {k : Nat} (h : ownTypes[k]? = some t) :
    ownTypes.idxOf t = k := by
  obtain ⟨hk, rfl⟩ := List.getElem?_eq_some_iff.mp h
  exact nodup_ownTypes.idxOf_getElem k hk

theorem take_succ_of_getElem? {t : String} {k : Nat} (h : ownTypes[k]? = some t) :
    ownTypes.take k ++ [t] = ownTypes.take (k + 1) := by
  obtain ⟨hk, rfl⟩ := List.getElem?_eq_some_iff.mp h
  rw [List.take_add_one, List.getElem?_eq_getElem hk, Option.toList_some]

theorem isReady_iff {r : Readiness ι} {t : String} : r.isReady t = true ↔ t ∈ r.ready := by
  simp [isReady]

/-! ### What is true at every moment -/

namespace Chronicle

variable {c : Chronicle ι} {k : Nat} {queue : List Nat}

def waiting (c : Chronicle ι) : List Nat :=
  c.readiness.listeners.map fun l => l.2.1

/-- So many types are ready, and those in the queue are about to be told. -/
structure IsSound (k : Nat) (queue : List Nat) (c : Chronicle ι) : Prop where
  bound : k ≤ ownTypes.length
  ready : c.readiness.ready = ownTypes.take k
  steady : c.events.Pairwise fun e f => e.ready ⊆ f.ready
  lasting : ∀ e ∈ c.events, e.ready ⊆ c.readiness.ready
  waits : ∀ l ∈ c.readiness.listeners, l.1 ∉ c.readiness.ready ∧
    ∃ r, Listens c.events l.2.1 l.1 r
  increasing : c.waiting.Pairwise (· < ·)
  due : ∀ n ∈ told c.events ++ queue, ∃ t r, Listens c.events n t r ∧ t ∉ r ∧
    t ∈ c.readiness.ready
  informed : ∀ n r, ⟨.told n, r⟩ ∈ c.events → ∃ t r', Listens c.events n t r' ∧ t ∈ r
  ordered : (told c.events ++ queue).Pairwise (Precedes c.events)
  complete : ¬ HasFailed c.events → ∀ n t r, Listens c.events n t r → t ∉ r →
    n ∈ told c.events ++ queue ++ c.waiting

theorem isSound_empty : IsSound 0 [] ({} : Chronicle ι) where
  bound := Nat.zero_le _
  ready := rfl
  steady := .nil
  lasting := by simp
  waits := by simp
  increasing := .nil
  due := by simp [told]
  informed := by simp
  ordered := .nil
  complete := by simp [Listens]

theorem told_listen (c : Chronicle ι) (t : String) (l : ι) :
    told (c.listen t l).events = told c.events := by
  rw [Chronicle.listen, Chronicle.record, told_concat]
  exact List.append_nil _

theorem ready_listen (c : Chronicle ι) (t : String) (l : ι) :
    (c.listen t l).readiness.ready = c.readiness.ready := by
  rw [Chronicle.listen, Readiness.listen]
  split <;> rfl

theorem listens_listen (c : Chronicle ι) (t : String) (l : ι) :
    Listens (c.listen t l).events c.events.length t c.readiness.ready :=
  List.getElem?_concat_length

theorem listeners_listen (c : Chronicle ι) (t : String) (l : ι) :
    (c.listen t l).readiness.listeners = c.readiness.listeners ++
      if t ∈ c.readiness.ready then [] else [(t, c.events.length, l)] := by
  rw [Chronicle.listen, Readiness.listen]
  simp only [isReady_iff]
  split <;> simp

theorem map_heardBy (c : Chronicle ι) (t : String) :
    (c.readiness.heardBy t).map Prod.fst =
      (c.readiness.listeners.filter (·.1 = t)).map fun l => l.2.1 := by
  rw [heardBy, List.map_map]
  rfl

theorem hasFailed_concat {events : List Event} (h : HasFailed events) (e : Event) :
    HasFailed (events ++ [e]) := by
  obtain ⟨n, r, hmem⟩ := h
  exact ⟨n, r, List.mem_append_left [e] hmem⟩

namespace IsSound

theorem steady_record (h : IsSound k queue c) (x : Happening) :
    (c.record x).events.Pairwise fun e f => e.ready ⊆ f.ready := by
  apply List.pairwise_append.mpr
  refine ⟨h.steady, List.pairwise_singleton _ _, ?_⟩
  intro e he f hf
  obtain rfl := List.mem_singleton.mp hf
  exact h.lasting e he

theorem lasting_record (h : IsSound k queue c) (x : Happening) :
    ∀ e ∈ (c.record x).events, e.ready ⊆ c.readiness.ready := by
  intro e he
  rcases List.mem_append.mp he with he | he
  · exact h.lasting e he
  · obtain rfl := List.mem_singleton.mp he
    exact List.Subset.refl _

theorem record (h : IsSound k queue c) {x : Happening} {left : List Nat}
    (hline : (told (c.record x).events ++ left).Sublist (told c.events ++ queue))
    (htold : ∀ n, x = .told n → n ∈ queue) (hlistened : ∀ t, x ≠ .listened t)
    (hall : ¬ HasFailed (c.record x).events →
      told (c.record x).events ++ left = told c.events ++ queue) :
    IsSound k left (c.record x) := by
  constructor
  · exact h.bound
  · exact h.ready
  · exact h.steady_record x
  · exact h.lasting_record x
  · intro l hl
    obtain ⟨hready, r, hr⟩ := h.waits l hl
    exact ⟨hready, r, hr.concat _⟩
  · exact h.increasing
  · intro n hn
    obtain ⟨t, r, hn, ht, hready⟩ := h.due n (hline.subset hn)
    exact ⟨t, r, hn.concat _, ht, hready⟩
  · intro n r hn
    rcases List.mem_append.mp hn with hn | hn
    · obtain ⟨t, r', hlistens, ht⟩ := h.informed n r hn
      exact ⟨t, r', hlistens.concat _, ht⟩
    · obtain ⟨rfl, rfl⟩ := Event.mk.inj (List.mem_singleton.mp hn)
      obtain ⟨t, r', hlistens, -, ht⟩ := h.due n (List.mem_append_right _ (htold n rfl))
      exact ⟨t, r', hlistens.concat _, ht⟩
  · exact (h.ordered.sublist hline).imp fun hprecedes => hprecedes.concat _
  · intro hfailed n t r hn ht
    rw [hall hfailed]
    rcases hn.of_concat with hn | ⟨-, hne⟩
    · exact h.complete (fun hf => hfailed (hasFailed_concat hf _)) n t r hn ht
    · exact absurd (Event.mk.inj hne).1 (hlistened t)

theorem record_told {n : Nat} (h : IsSound k (n :: queue) c) :
    IsSound k queue (c.record (.told n)) := by
  have hline : told (c.record (.told n)).events ++ queue = told c.events ++ n :: queue := by
    rw [Chronicle.record, told_concat, List.append_assoc]
    rfl
  apply h.record
  · rw [hline]
  · rintro m ⟨⟩
    exact List.mem_cons_self
  · simp
  · exact fun _ => hline

theorem record_failed (h : IsSound k queue c) (n : Nat) : IsSound k [] (c.record (.failed n)) := by
  have htold : told (c.record (.failed n)).events = told c.events := by
    rw [Chronicle.record, told_concat]
    exact List.append_nil _
  apply h.record
  · rw [htold, List.append_nil]
    exact List.sublist_append_left _ _
  · simp
  · simp
  · intro hfailed
    exact absurd ⟨n, c.readiness.ready, by simp [Chronicle.record]⟩ hfailed

theorem lt_of_mem_waiting (h : IsSound k queue c) {n : Nat} (hn : n ∈ c.waiting) :
    n < c.events.length := by
  obtain ⟨l, hl, rfl⟩ := List.mem_map.mp hn
  obtain ⟨-, r, hr⟩ := h.waits l hl
  exact hr.lt

theorem listen (h : IsSound k queue c) (t : String) (l : ι) : IsSound k queue (c.listen t l) := by
  constructor
  · exact h.bound
  · rw [ready_listen, h.ready]
  · exact h.steady_record _
  · rw [ready_listen]
    exact h.lasting_record _
  · intro x hx
    rw [ready_listen]
    rw [listeners_listen] at hx
    rcases List.mem_append.mp hx with hx | hx
    · obtain ⟨hwaits, r, hr⟩ := h.waits x hx
      exact ⟨hwaits, r, hr.concat _⟩
    · split at hx
      · cases hx
      · obtain rfl := List.mem_singleton.mp hx
        exact ⟨‹_›, _, listens_listen c t l⟩
  · rw [waiting, listeners_listen, List.map_append, List.pairwise_append]
    refine ⟨h.increasing, ?_, ?_⟩
    · split <;> simp
    · intro m hm n hn
      split at hn
      · cases hn
      · obtain rfl := List.mem_singleton.mp hn
        exact h.lt_of_mem_waiting hm
  · intro n hn
    rw [told_listen] at hn
    obtain ⟨u, r, hn, hu, hue⟩ := h.due n hn
    rw [ready_listen]
    exact ⟨u, r, hn.concat _, hu, hue⟩
  · intro n r hn
    rcases List.mem_append.mp hn with hn | hn
    · obtain ⟨u, r', hlistens, hu⟩ := h.informed n r hn
      exact ⟨u, r', hlistens.concat _, hu⟩
    · simp at hn
  · rw [told_listen]
    exact h.ordered.imp fun hprecedes => hprecedes.concat _
  · intro hfailed n u r hn hu
    rw [told_listen, waiting, listeners_listen, List.map_append, ← List.append_assoc]
    rcases hn.of_concat with hn | ⟨rfl, hevent⟩
    · apply List.mem_append_left
      exact h.complete (fun hf => hfailed (hasFailed_concat hf _)) n u r hn hu
    · obtain ⟨⟨⟩, rfl⟩ := Event.mk.inj hevent
      simp [hu]

theorem listenAll (h : IsSound k queue c) (ls : List (String × ι)) :
    IsSound k queue (c.listenAll ls) := by
  induction ls generalizing c with
  | nil => exact h
  | cons l ls ih => exact ih (h.listen l.1 l.2)

theorem listens_of_heardBy (h : IsSound k queue c) {t : String} {n : Nat}
    (hn : n ∈ (c.readiness.heardBy t).map Prod.fst) :
    t ∉ c.readiness.ready ∧ ∃ r, Listens c.events n t r := by
  rw [map_heardBy] at hn
  obtain ⟨l, hl, rfl⟩ := List.mem_map.mp hn
  obtain ⟨hwaits, hlt⟩ := List.mem_filter.mp hl
  obtain rfl := of_decide_eq_true hlt
  exact h.waits l hwaits

theorem ordered_mark (h : IsSound k [] c) {t : String} (ht : ownTypes[k]? = some t) :
    (told c.events ++ (c.readiness.heardBy t).map Prod.fst).Pairwise (Precedes c.events) := by
  apply List.pairwise_append.mpr
  refine ⟨(List.append_nil (told c.events)) ▸ h.ordered, ?_, ?_⟩
  · have hincreasing : ((c.readiness.heardBy t).map Prod.fst).Pairwise (· < ·) := by
      rw [map_heardBy]
      exact h.increasing.sublist (List.filter_sublist.map _)
    refine hincreasing.imp_of_mem ?_
    intro m n hm hn hlt
    obtain ⟨-, r, hr⟩ := h.listens_of_heardBy hm
    obtain ⟨-, r', hr'⟩ := h.listens_of_heardBy hn
    exact ⟨t, t, r, r', hr, hr', .inr ⟨rfl, hlt⟩⟩
  · intro m hm n hn
    obtain ⟨u, r, hm, -, hready⟩ := h.due m (List.mem_append_left [] hm)
    obtain ⟨-, r', hr'⟩ := h.listens_of_heardBy hn
    rw [h.ready] at hready
    have hlt := idxOf_lt_of_mem_take hready
    exact ⟨u, t, r, r', hm, hr', .inl (idxOf_getElem? ht ▸ hlt)⟩

theorem mark (h : IsSound k [] c) {t : String} (ht : ownTypes[k]? = some t) :
    IsSound (k + 1) ((c.readiness.heardBy t).map Prod.fst)
      { c with readiness := c.readiness.mark t } := by
  have hlater : c.readiness.ready ⊆ (c.readiness.mark t).ready := List.subset_append_left _ _
  have hmember : t ∈ (c.readiness.mark t).ready := List.mem_append_right _ List.mem_cons_self
  constructor
  · exact (List.getElem?_eq_some_iff.mp ht).1
  · change c.readiness.ready ++ [t] = _
    rw [h.ready, take_succ_of_getElem? ht]
  · exact h.steady
  · intro e he
    exact List.Subset.trans (h.lasting e he) hlater
  · intro l hl
    obtain ⟨hl, hne⟩ := List.mem_filter.mp hl
    obtain ⟨hready, r, hr⟩ := h.waits l hl
    refine ⟨?_, r, hr⟩
    change l.1 ∉ c.readiness.ready ++ [t]
    simpa [hready] using hne
  · exact h.increasing.sublist (List.filter_sublist.map _)
  · intro n hn
    rcases List.mem_append.mp hn with hn | hn
    · obtain ⟨u, r, hn, hu, hready⟩ := h.due n (List.mem_append_left [] hn)
      exact ⟨u, r, hn, hu, hlater hready⟩
    · obtain ⟨hready, r, hr⟩ := h.listens_of_heardBy hn
      exact ⟨t, r, hr, fun hmem => hready (h.lasting _ hr.mem hmem), hmember⟩
  · exact h.informed
  · exact h.ordered_mark ht
  · intro hfailed n u r hn hu
    have hmem := h.complete hfailed n u r hn hu
    rw [List.append_nil] at hmem
    rcases List.mem_append.mp hmem with htold | hwaiting
    · exact List.mem_append_left _ (List.mem_append_left _ htold)
    · obtain ⟨l, hl, rfl⟩ := List.mem_map.mp hwaiting
      -- those who wait listen for this type, and are about to be told, or for another one
      by_cases hlt : l.1 = t
      · apply List.mem_append_left
        apply List.mem_append_right
        rw [map_heardBy]
        exact List.mem_map.mpr ⟨l, List.mem_filter.mpr ⟨hl, decide_eq_true hlt⟩, rfl⟩
      · apply List.mem_append_right
        exact List.mem_map.mpr ⟨l, List.mem_filter.mpr ⟨hl, decide_eq_true hlt⟩, rfl⟩

end IsSound

/-! ### Runs -/

/-- More has happened, and no type has ceased to be ready. -/
structure IsLater (c c' : Chronicle ι) : Prop where
  events : c.events <+: c'.events
  ready : c.readiness.ready ⊆ c'.readiness.ready

theorem IsLater.trans {c₁ c₂ c₃ : Chronicle ι} (h : IsLater c₁ c₂) (h' : IsLater c₂ c₃) :
    IsLater c₁ c₃ :=
  ⟨h.events.trans h'.events, List.Subset.trans h.ready h'.ready⟩

theorem isLater_record (c : Chronicle ι) (x : Happening) : IsLater c (c.record x) :=
  ⟨List.prefix_append _ _, List.Subset.refl _⟩

theorem isLater_listen (c : Chronicle ι) (t : String) (l : ι) : IsLater c (c.listen t l) := by
  constructor
  · exact List.prefix_append _ _
  · rw [ready_listen]
    exact List.Subset.refl _

theorem isLater_listenAll (c : Chronicle ι) (ls : List (String × ι)) :
    IsLater c (c.listenAll ls) := by
  induction ls generalizing c with
  | nil => exact ⟨List.prefix_refl _, List.Subset.refl _⟩
  | cons l ls ih => exact (isLater_listen c l.1 l.2).trans (ih _)

theorem isLater_mark (c : Chronicle ι) (t : String) :
    IsLater c { c with readiness := c.readiness.mark t } :=
  ⟨List.prefix_refl _, List.subset_append_left _ _⟩

theorem IsLater.hasFailed {c c' : Chronicle ι} (hlater : IsLater c c')
    (hfailed : HasFailed c.events) : HasFailed c'.events := by
  obtain ⟨n, r, hmem⟩ := hfailed
  exact ⟨n, r, hlater.events.subset hmem⟩

/-- Where a run comes from a moment on: all but the rest of a queue were told, or one has failed. -/
inductive Reaches (c : Chronicle ι) (k : Nat) (queue : List Nat) :
    Except Error Unit → Chronicle ι → Prop where
  | told {c' : Chronicle ι} (hlater : IsLater c c') (h : IsSound k queue c') :
    Reaches c k queue (.ok ()) c'
  | failed {c' : Chronicle ι} {j : Nat} {e : Error} (hlater : IsLater c c') (h : IsSound j [] c')
    (hfailed : HasFailed c'.events) : Reaches c k queue (.error e) c'

theorem Reaches.later {c₀ c' : Chronicle ι} {x : Except Error Unit} (h : Reaches c k queue x c')
    (hlater : IsLater c₀ c) : Reaches c₀ k queue x c' := by
  cases h with
  | told hlater' h => exact .told (hlater.trans hlater') h
  | failed hlater' h hfailed => exact .failed (hlater.trans hlater') h hfailed

abbrev Brings {α : Type} (p : Stateful (Chronicle ι) α) (c : Chronicle ι)
    (Q : Except Error α → Chronicle ι → Prop) : Prop :=
  Yields World.answer (fun _ => True) False (p c) fun r => Q r.1 r.2

theorem brings_bind {α β : Type} {p : Stateful (Chronicle ι) α} {f : α → Stateful (Chronicle ι) β}
    {Q : Except Error α → Chronicle ι → Prop} {R : Except Error β → Chronicle ι → Prop}
    (hp : Brings p c Q) (hok : ∀ a c', Q (.ok a) c' → Brings (f a) c' R)
    (herror : ∀ e c', Q (.error e) c' → R (.error e) c') : Brings (p >>= f) c R := by
  apply Yields.bind hp
  rintro ⟨x, c'⟩ hx
  cases x with
  | ok a => exact hok a c' hx
  | error e => exact herror e c' hx

theorem brings_then {p q : Stateful (Chronicle ι) Unit} {j k : Nat} {queue left : List Nat}
    (hp : Brings p c (Reaches c j queue))
    (hq : ∀ c', IsSound j queue c' → Brings q c' (Reaches c' k left)) :
    Brings (p >>= fun _ => q) c (Reaches c k left) := by
  apply brings_bind hp
  · rintro _ c' (⟨hlater, h⟩ | _)
    exact (hq c' h).mono fun r hr => hr.later hlater
  · rintro e c' (_ | ⟨hlater, h, hfailed⟩)
    exact .failed hlater h hfailed

variable {conduct : Conduct ι}

theorem yields_attempt {α : Type} (p : Program α) :
    Yields World.answer (fun _ => True) False p.attempt fun _ => True := by
  induction p with
  | done => trivial
  | fail => trivial
  | ask e next ih => exact fun w _ => ⟨trivial, ih _⟩

theorem brings_tell {n : Nat} (h : IsSound k (n :: queue) c) (l : ι) :
    Brings (tell conduct (n, l)) c (Reaches c k queue) := by
  have htold := h.record_told
  have hlater := isLater_record c (.told n)
  have hfailed (c' : Chronicle ι) : HasFailed (c'.record (.failed n)).events :=
    ⟨n, c'.readiness.ready, List.mem_append_right _ (List.mem_singleton_self _)⟩
  apply Yields.bind (yields_attempt (conduct l c.readiness.ready))
  rintro (e | ⟨ls, _ | e⟩) -
  · exact .failed (hlater.trans (isLater_record _ _)) (htold.record_failed n) (hfailed _)
  · exact .told (hlater.trans (isLater_listenAll _ ls)) (htold.listenAll ls)
  · have hthen := hlater.trans (isLater_listenAll _ ls)
    exact .failed (hthen.trans (isLater_record _ _)) ((htold.listenAll ls).record_failed n)
      (hfailed _)

theorem brings_tells {heard : List (Nat × ι)} (h : IsSound k (heard.map Prod.fst) c) :
    Brings (heard.forM (tell conduct)) c (Reaches c k []) := by
  induction heard generalizing c with
  | nil => exact .told ⟨List.prefix_refl _, List.Subset.refl _⟩ h
  | cons l heard ih => exact brings_then (brings_tell h l.2) fun c' => ih

abbrev announced (conduct : Conduct ι) (t : String) : Stateful (Chronicle ι) Unit :=
  announce Chronicle.readiness (fun c readiness => { c with readiness }) (tell conduct) t

theorem brings_announced (h : IsSound k [] c) {t : String} (ht : ownTypes[k]? = some t) :
    Brings (announced conduct t) c (Reaches c (k + 1) []) := by
  have hready : ¬ c.readiness.isReady t = true := by
    rw [isReady_iff, h.ready]
    intro hmem
    have hlt := idxOf_lt_of_mem_take hmem
    have heq := idxOf_getElem? ht
    omega
  change Yields _ _ _ ((ite (c.readiness.isReady t = true) _ _ : Stateful _ Unit) c) _
  rw [if_neg hready]
  have hmarked : IsLater c { c with readiness := c.readiness.mark t } := isLater_mark c t
  exact (brings_tells (h.mark ht)).mono fun r hr => hr.later hmarked

theorem brings_announced_ready (h : IsSound k [] c) {t : String} (ht : t ∈ c.readiness.ready) :
    Brings (announced conduct t) c (Reaches c k []) := by
  change Yields _ _ _ ((ite (c.readiness.isReady t = true) _ _ : Stateful _ Unit) c) _
  rw [if_pos (isReady_iff.mpr ht)]
  exact .told ⟨List.prefix_refl _, List.Subset.refl _⟩ h

theorem brings_announceAll {passed coming : List String} (htypes : ownTypes = passed ++ coming)
    (h : IsSound k [] c) (hk : passed.length ≤ k) :
    Brings (coming.forM (announced conduct)) c (Reaches c ownTypes.length []) := by
  induction coming generalizing passed k c with
  | nil =>
    have hlength := congrArg List.length htypes
    rw [List.append_nil] at hlength
    obtain rfl : k = ownTypes.length := Nat.le_antisymm h.bound (hlength ▸ hk)
    exact .told ⟨List.prefix_refl _, List.Subset.refl _⟩ h
  | cons t coming ih =>
    have hnext : ownTypes = (passed ++ [t]) ++ coming := by simpa using htypes
    have hplace : ownTypes[passed.length]? = some t := by simp [htypes]
    rcases Nat.lt_or_ge passed.length k with hlt | hge
    · -- types before the first that is not ready are passed over
      have hready : t ∈ c.readiness.ready := by
        rw [h.ready]
        exact List.mem_of_getElem? (List.getElem?_take_of_lt hlt ▸ hplace)
      apply brings_then (brings_announced_ready h hready)
      intro c' h'
      exact ih hnext h' (by simpa using Nat.succ_le_of_lt hlt)
    · obtain rfl : k = passed.length := Nat.le_antisymm hge hk
      apply brings_then (brings_announced h hplace)
      intro c' h'
      exact ih hnext h' (by simp)

/-- What some calls have brought about. -/
structure Follows (calls : List (Call ι)) (c : Chronicle ι) : Prop where
  listened : ∀ t l, .listen t l ∈ calls → ∃ n r, Listens c.events n t r
  started : .start ∈ calls → HasFailed c.events ∨ ownTypes ⊆ c.readiness.ready

theorem Follows.later {calls : List (Call ι)} {c' : Chronicle ι} (h : Follows calls c)
    (hlater : IsLater c c') : Follows calls c' := by
  constructor
  · intro t l hmem
    obtain ⟨n, r, hn⟩ := h.listened t l hmem
    obtain ⟨events, hevents⟩ := hlater.events
    refine ⟨n, r, ?_⟩
    rw [← hevents, Listens, List.getElem?_append_left hn.lt]
    exact hn
  · intro hmem
    rcases h.started hmem with hfailed | hready
    · exact .inl (hlater.hasFailed hfailed)
    · exact .inr (List.Subset.trans hready hlater.ready)

theorem brings_call (h : IsSound k [] c) (call : Call ι) :
    Brings (call.make conduct) c fun _ c' =>
      IsLater c c' ∧ (∃ j, IsSound j [] c') ∧ Follows [call] c' := by
  cases call with
  | listen t l =>
    refine ⟨isLater_listen c t l, ⟨k, h.listen t l⟩, ?_, by simp⟩
    intro u m hmem
    obtain ⟨rfl, -⟩ := Call.listen.inj (List.mem_singleton.mp hmem)
    exact ⟨_, _, listens_listen c u m⟩
  | start =>
    have hall : Brings (ownTypes.forM (announced conduct)) c (Reaches c ownTypes.length []) :=
      brings_announceAll (List.nil_append ownTypes).symm h (Nat.zero_le k)
    apply Yields.mono hall
    rintro ⟨x, c'⟩ (⟨hlater, h'⟩ | ⟨hlater, h', hfailed⟩)
    · refine ⟨hlater, ⟨_, h'⟩, by simp, fun _ => .inr ?_⟩
      rw [h'.ready, List.take_length]
      exact List.Subset.refl _
    · exact ⟨hlater, ⟨_, h'⟩, by simp, fun _ => .inl hfailed⟩

theorem brings_course (h : IsSound k [] c) (calls : List (Call ι)) :
    Brings (course conduct calls) c fun x c' =>
      x = .ok () ∧ IsLater c c' ∧ (∃ j, IsSound j [] c') ∧ Follows calls c' := by
  induction calls generalizing k c with
  | nil => exact ⟨rfl, ⟨List.prefix_refl _, List.Subset.refl _⟩, ⟨k, h⟩, by simp, by simp⟩
  | cons call calls ih =>
    -- a call that fails does not keep the later ones from being made
    have hattempt : Brings ((call.make conduct).attempt >>= fun _ => pure ()) c fun x c' =>
        x = .ok () ∧ IsLater c c' ∧ (∃ j, IsSound j [] c') ∧ Follows [call] c' := by
      apply brings_bind (Q := fun x c' => x.isOk = true ∧ IsLater c c' ∧ (∃ j, IsSound j [] c') ∧
        Follows [call] c')
      · exact (brings_call h call).bind fun r hr => ⟨rfl, hr⟩
      · exact fun _ c' hc' => ⟨rfl, hc'.2⟩
      · exact fun e c' hc' => nomatch hc'.1
    apply brings_bind hattempt
    · rintro _ c' ⟨-, hlater, ⟨j, h'⟩, hcall⟩
      apply Yields.mono (ih h')
      rintro ⟨x, c''⟩ ⟨hx, hlater', hsound, hcalls⟩
      refine ⟨hx, hlater.trans hlater', hsound, ?_, ?_⟩
      · intro t l hmem
        rcases List.mem_cons.mp hmem with hhead | htail
        · exact (hcall.later hlater').listened t l (List.mem_singleton.mpr hhead)
        · exact hcalls.listened t l htail
      · intro hmem
        rcases List.mem_cons.mp hmem with hhead | htail
        · exact (hcall.later hlater').started (List.mem_singleton.mpr hhead)
        · exact hcalls.started htail
    · exact fun e c' hc' => nomatch hc'.1

theorem run_course_append {calls : List (Call ι)} {c' : Chronicle ι} {v w : World}
    (h : Program.run (course conduct calls c) w = (.ok (.ok (), c'), v)) (more : List (Call ι)) :
    Program.run (course conduct (calls ++ more) c) w = Program.run (course conduct more c') v := by
  induction calls generalizing c w with
  | nil =>
    obtain ⟨hstate, rfl⟩ := Prod.ext_iff.mp h
    obtain ⟨-, rfl⟩ := Prod.ext_iff.mp (Except.ok.inj hstate)
    rfl
  | cons call calls ih =>
    rw [course, List.forM_eq_forM, List.forM_cons, Stateful.run_bind] at h
    rw [course, List.cons_append, List.forM_eq_forM, List.forM_cons, Stateful.run_bind]
    revert h
    split
    · exact fun h => ih h
    · simp
    · simp

/-- What those who listen can rely on. -/
structure IsOrderly (calls : List (Call ι)) (c : Chronicle ι) : Prop extends Follows calls c where
  once : ∀ n, (told c.events).count n ≤ 1
  complete : ¬ HasFailed c.events → ∀ n t r, Listens c.events n t r → t ∉ r →
    c.readiness.isReady t = true → (told c.events).count n = 1
  ordered : (told c.events).Pairwise (Precedes c.events)
  informed : ∀ n r, ⟨.told n, r⟩ ∈ c.events → ∃ t r', Listens c.events n t r' ∧ t ∈ r
  never : ∀ n t r, Listens c.events n t r → t ∈ r ∨ t ∉ ownTypes → (told c.events).count n = 0
  steady : c.events.Pairwise fun e f => e.ready ⊆ f.ready
  lasting : ∀ e ∈ c.events, e.ready ⊆ c.readiness.ready

theorem IsSound.isOrderly (h : IsSound k [] c) {calls : List (Call ι)} (hcalls : Follows calls c) :
    IsOrderly calls c := by
  have hordered : (told c.events).Pairwise (Precedes c.events) :=
    (List.append_nil (told c.events)) ▸ h.ordered
  have hnodup : (told c.events).Nodup := hordered.imp fun hprecedes => hprecedes.ne
  refine ⟨hcalls, List.nodup_iff_count_le_one.mp hnodup, ?_, hordered, h.informed, ?_, h.steady,
    h.lasting⟩
  · intro hfailed n t r hn ht hready
    apply List.count_eq_one_of_mem hnodup
    have hmem := h.complete hfailed n t r hn ht
    rw [List.append_nil] at hmem
    apply (List.mem_append.mp hmem).resolve_right
    intro hwaiting
    obtain ⟨l, hl, rfl⟩ := List.mem_map.mp hwaiting
    obtain ⟨hnot, r', hr'⟩ := h.waits l hl
    obtain ⟨rfl, -⟩ := hn.inj hr'
    exact hnot (isReady_iff.mp hready)
  · intro n t r hn hnever
    rw [List.count_eq_zero]
    intro hmem
    obtain ⟨u, r', hu, hlate, hready⟩ := h.due n (List.mem_append_left [] hmem)
    obtain ⟨rfl, rfl⟩ := hn.inj hu
    rw [h.ready] at hready
    rcases hnever with hearly | hforeign
    · exact hlate hearly
    · exact hforeign (List.mem_of_mem_take hready)

/-- In a course of registrations and starts, whatever those who listen do when they are told, nobody
is told twice, and nobody is left out who came before its table was ready, unless one has failed. -/
theorem tells_once (conduct : Conduct ι) (calls : List (Call ι)) (w : World) :
    ∃ c v, Program.run (course conduct calls {}) w = (.ok (.ok (), c), v) ∧ IsOrderly calls c ∧
      ∀ more, ∃ c' v', Program.run (course conduct (calls ++ more) {}) w =
        (.ok (.ok (), c'), v') ∧ c.readiness.ready ⊆ c'.readiness.ready := by
  have hrun {c : Chronicle ι} {k : Nat} (h : IsSound k [] c) (calls : List (Call ι)) (w : World) :
      ∃ c' v, Program.run (course conduct calls c) w = (.ok (.ok (), c'), v) ∧ IsLater c c' ∧
        (∃ j, IsSound j [] c') ∧ Follows calls c' := by
    have hbrings : Brings (course conduct calls) c _ := brings_course h calls
    obtain ⟨hyielded, -⟩ := hbrings.run (s := w) trivial
    obtain ⟨⟨x, c'⟩, hx, rfl, hthen⟩ := hyielded.of_not id
    rw [runBy_answer] at hx
    exact ⟨c', _, Prod.ext hx rfl, hthen⟩
  obtain ⟨c, v, hc, -, ⟨k, hsound⟩, hfollows⟩ := hrun isSound_empty calls w
  refine ⟨c, v, hc, hsound.isOrderly hfollows, ?_⟩
  intro more
  obtain ⟨c', v', hc', hlater, -⟩ := hrun hsound more v
  exact ⟨c', v', (run_course_append hc more).trans hc', hlater.ready⟩

def relay : Conduct String := fun name _ =>
  return (if name = "first" then [(roleType, "second"), (accountRulesetType, "third")] else [],
    none)

example (w : World) :
    (Program.run (course relay [.listen roleType "first", .start, .start] {}) w).1.map
      (fun (_, c) => told c.events) = .ok [0, 3] := by
  rfl

end Chronicle

end AccessControl.Store.Readiness
