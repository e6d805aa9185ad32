import AccessControl.Filter
import AccessControl.Proofs.Outcome

/-!
The order of grants. What a snapshot says does not depend on the order in which its grants come, nor
on how often one of them does.
-/

namespace AccessControl

namespace Outcome

variable {ε α β : Type}

/-- Where both are values, they are the same. -/
def Consistent (x y : Except ε α) : Prop := ∀ a b, x = .ok a → y = .ok b → a = b

theorem Consistent.of_eq {x y : Except ε α} (h : x = y) : Consistent x y := by
  intro a b ha hb
  exact Except.ok.inj (ha.symm.trans (h.trans hb))

theorem Consistent.map {x y : Except ε α} (h : Consistent x y) (f : α → β) :
    Consistent (x.map f) (y.map f) := by
  intro a b ha hb
  cases x with
  | error e => cases ha
  | ok c =>
    cases y with
    | error e => cases hb
    | ok d =>
      obtain rfl := Except.ok.inj ha
      obtain rfl := Except.ok.inj hb
      exact congrArg f (h c d rfl rfl)

/-- A test fails for everything, or for nothing. -/
def Steady (p : α → Except ε Bool) : Prop :=
  (∃ e, p = fun _ => .error e) ∨ ∃ f : α → Bool, p = fun a => .ok (f a)

theorem anyM_ok (f : α → Bool) (xs : List α) :
    xs.anyM (fun x => (.ok (f x) : Except ε Bool)) = .ok (xs.any f) := by
  induction xs with
  | nil => rfl
  | cons x xs ih =>
    rw [List.anyM, ok_bind, List.any_cons]
    cases f x with
    | true => rfl
    | false => exact ih

theorem anyM_error (e : ε) (xs : List α) :
    xs.anyM (fun _ => (.error e : Except ε Bool)) = if xs.isEmpty then .ok false else .error e := by
  cases xs <;> rfl

theorem exists_of_anyM {p : α → Except ε Bool} {xs : List α} (h : xs.anyM p = .ok true) :
    ∃ x ∈ xs, p x = .ok true := by
  induction xs with
  | nil => cases h
  | cons x xs ih =>
    rw [List.anyM, bind_eq_ok_iff] at h
    obtain ⟨b, hb, h⟩ := h
    cases b with
    | true => exact ⟨x, List.mem_cons_self, hb⟩
    | false =>
      obtain ⟨y, hy, hp⟩ := ih h
      exact ⟨y, List.mem_cons_of_mem _ hy, hp⟩

theorem forall_of_anyM {p : α → Except ε Bool} {xs : List α} (h : xs.anyM p = .ok false) :
    ∀ x ∈ xs, p x = .ok false := by
  induction xs with
  | nil => exact fun _ hx => nomatch hx
  | cons x xs ih =>
    rw [List.anyM, bind_eq_ok_iff] at h
    obtain ⟨b, hb, h⟩ := h
    cases b with
    | true => cases h
    | false => exact List.forall_mem_cons.2 ⟨hb, ih h⟩

variable {xs ys : List α} (h : ∀ x, x ∈ xs ↔ x ∈ ys)

include h

theorem isEmpty_congr : xs.isEmpty = ys.isEmpty := by
  rw [Bool.eq_iff_iff, List.isEmpty_iff, List.isEmpty_iff, List.eq_nil_iff_forall_not_mem,
    List.eq_nil_iff_forall_not_mem]
  simp only [h]

theorem any_congr (f : α → Bool) : xs.any f = ys.any f := by
  rw [Bool.eq_iff_iff, List.any_eq_true, List.any_eq_true]
  simp only [h]

theorem anyM_congr {p : α → Except ε Bool} (hp : Steady p) : xs.anyM p = ys.anyM p := by
  obtain ⟨e, rfl⟩ | ⟨f, rfl⟩ := hp
  · rw [anyM_error, anyM_error, isEmpty_congr h]
  · rw [anyM_ok, anyM_ok, any_congr h]

theorem consistent_anyM (p : α → Except ε Bool) : Consistent (xs.anyM p) (ys.anyM p) := by
  intro a b ha hb
  cases a with
  | true =>
    obtain ⟨x, hx, hp⟩ := exists_of_anyM ha
    cases b with
    | true => rfl
    | false => cases hp.symm.trans (forall_of_anyM hb x ((h x).1 hx))
  | false =>
    cases b with
    | false => rfl
    | true =>
      obtain ⟨y, hy, hp⟩ := exists_of_anyM hb
      cases hp.symm.trans (forall_of_anyM ha y ((h y).2 hy))

end Outcome

open Outcome

theorem Value.steady_holds {α : Type} (v : Value) (text : α → String) (f : α → Bool) :
    Steady fun a => do return (← v.holds (.text (text a))) && f a := by
  cases v with
  | list vs => exact .inr ⟨_, rfl⟩
  | object fs => exact .inr ⟨_, rfl⟩
  | text s => exact .inr ⟨_, rfl⟩
  | _ => exact .inl ⟨_, rfl⟩

theorem Capability.steady_unlocks {α : Type} (feature : Value) {scope : Value}
    (hscope : scope.member.isOk = true) (capability : α → Capability) :
    Steady fun a => (capability a).unlocks feature scope := by
  cases hf : feature.member with
  | error e =>
    refine .inl ⟨e, funext fun a => ?_⟩
    rw [unlocks, hf]
    rfl
  | ok feature' =>
    cases hs : scope.member with
    | error e =>
      rw [hs] at hscope
      cases hscope
    | ok scope' =>
      refine .inr ⟨fun a => (capability a).features.contains feature'.carry &&
        ((capability a).defaultFeatureScopes.contains wildcard ||
          scope != .null && (capability a).defaultFeatureScopes.contains scope'.carry),
        funext fun a => ?_⟩
      simp only [unlocks, hf, hs, ok_bind]
      cases (capability a).features.contains feature'.carry <;>
        cases (capability a).defaultFeatureScopes.contains wildcard <;> rfl

namespace Snapshot

/-- Snapshots that say the same of records and their fields, and of creations. -/
structure Concurs (s s' : Snapshot) : Prop where
  allows : ∀ record action, s.allows record action = s'.allows record action
  mayCreate : ∀ entityType tags, s.mayCreate entityType tags = s'.mayCreate entityType tags
  visible : ∀ (f : Filter) record action, f.visible s record action = f.visible s' record action

def Matches (s s' : Snapshot) : Prop := ∀ g, g ∈ s.grants ↔ g ∈ s'.grants

variable {s s' : Snapshot}

theorem Matches.allows (h : s.Matches s') (record : Record) (action : String) :
    s.allows record action = s'.allows record action :=
  anyM_congr h (record.attributes.steady_holds Grant.target fun g =>
    g.capability.allowsRecord record.entityType action)

theorem Matches.unlocks (h : s.Matches s') (feature : Value) {scope : Value}
    (hscope : scope.member.isOk = true) : s.unlocks feature scope = s'.unlocks feature scope :=
  anyM_congr h (Capability.steady_unlocks feature hscope Grant.capability)

theorem Matches.consistent_unlocks (h : s.Matches s') (feature scope : Value) :
    Consistent (s.unlocks feature scope) (s'.unlocks feature scope) :=
  consistent_anyM h _

theorem Matches.mem_creationTargets (h : s.Matches s') (entityType target : String) :
    target ∈ s.creationTargets entityType ↔ target ∈ s'.creationTargets entityType := by
  simp only [creationTargets, List.mem_map, List.mem_filter, h _]

theorem Matches.mayCreate (h : s.Matches s') (entityType : String) (tags : List Value) :
    s.mayCreate entityType tags = s'.mayCreate entityType tags := by
  have hmem (v : Value) : v ∈ (s.creationTargets entityType).map Value.text ↔
      v ∈ (s'.creationTargets entityType).map Value.text := by
    simp only [List.mem_map, h.mem_creationTargets]
  have hcontains (v : Value) : ((s.creationTargets entityType).map Value.text).contains v =
      ((s'.creationTargets entityType).map Value.text).contains v := by
    rw [Bool.eq_iff_iff, List.contains_iff_mem, List.contains_iff_mem, hmem]
  simp only [Snapshot.mayCreate, isEmpty_congr hmem, hcontains]

theorem Matches.visible (h : s.Matches s') (f : Filter) (record : Record) (action : String) :
    f.visible s record action = f.visible s' record action := by
  rw [Filter.visible, Filter.visible, reaching, reaching]
  cases record.tags with
  | error e => rfl
  | ok tags =>
    refine congrArg (fun p => Except.ok (record.data.filter p)) (funext fun (name, _) => ?_)
    exact any_congr (fun g => by simp only [List.mem_filter, h g]) _

theorem Matches.concurs (h : s.Matches s') : s.Concurs s' where
  allows := h.allows
  mayCreate := h.mayCreate
  visible := h.visible

end Snapshot

end AccessControl
