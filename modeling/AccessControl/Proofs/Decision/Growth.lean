import AccessControl.Proofs.Decision.Filtering
import AccessControl.Proofs.Decision.Provided
import AccessControl.Proofs.Grant.Creation

/-!
More grants. What a snapshot allows and shows, one with more grants allows and shows too: a test needs
one grant that passes it, all tags stay covered, and the stages before the rulesets know no grants.
-/

namespace AccessControl

namespace Outcome

variable {ε α β γ : Type} {strict : Prop}

/-- Where both are values, they are related. A failure stands beside the same failure; beside anything
else only when nothing strict is asked for. -/
inductive Grows (R : α → β → Prop) (strict : Prop) : Except ε α → Except ε β → Prop where
  | values {a : α} {b : β} (h : R a b) : Grows R strict (.ok a) (.ok b)
  | failures (e : ε) : Grows R strict (.error e) (.error e)
  | left (h : ¬ strict) (e : ε) (y : Except ε β) : Grows R strict (.error e) y
  | right (h : ¬ strict) (x : Except ε α) (e : ε) : Grows R strict x (.error e)

variable {R : α → β → Prop}

theorem grows_bind {z : Except ε γ} {f : γ → Except ε α} {g : γ → Except ε β}
    (h : ∀ c, z = .ok c → Grows R strict (f c) (g c)) : Grows R strict (z >>= f) (z >>= g) := by
  cases z with
  | error e => exact .failures e
  | ok c => exact h c rfl

theorem grows_mapM {f : γ → Except ε α} {g : γ → Except ε β} {xs : List γ}
    (h : ∀ x ∈ xs, Grows R strict (f x) (g x)) :
    Grows (List.Forall₂ R) strict (xs.mapM f) (xs.mapM g) := by
  induction xs with
  | nil => exact .values .nil
  | cons x xs ih =>
    have hfirst := h x List.mem_cons_self
    have hrest := ih fun y hy => h y (List.mem_cons_of_mem x hy)
    rw [List.mapM_cons, List.mapM_cons]
    generalize f x = a, g x = b, xs.mapM f = as, xs.mapM g = bs at hfirst hrest
    cases hfirst with
    | values hx =>
      cases hrest with
      | values hxs => exact .values (.cons hx hxs)
      | failures e => exact .failures e
      | left hstrict e ys => exact .left hstrict e _
      | right hstrict xs e => exact .right hstrict _ e
    | failures e => exact .failures e
    | left hstrict e y => exact .left hstrict e _
    | right hstrict x e => exact .right hstrict _ e

theorem grows_test {x y : Except ε Bool} (hpassed : x = .ok true → y ≠ .ok false)
    (hstrict : strict → (∃ a, x = .ok a) ∧ ∃ b, y = .ok b) :
    Grows (fun a b => a = true → b = true) strict x y := by
  by_cases h : strict
  · obtain ⟨⟨a, rfl⟩, b, rfl⟩ := hstrict h
    refine .values fun ha => Bool.eq_true_of_not_eq_false fun hb => ?_
    subst ha hb
    exact hpassed rfl rfl
  · cases x with
    | error e => exact .left h e y
    | ok a =>
      cases y with
      | error e => exact .right h _ e
      | ok b =>
        refine .values fun ha => Bool.eq_true_of_not_eq_false fun hb => ?_
        subst ha hb
        exact hpassed rfl rfl

theorem exists_of_isOk {x : Except ε α} (h : x.isOk = true) : ∃ a, x = .ok a := by
  cases x with
  | error e => cases h
  | ok a => exact ⟨a, rfl⟩

theorem anyM_subset {p : α → Except ε Bool} {xs ys : List α} (h : xs ⊆ ys)
    (hx : xs.anyM p = .ok true) : ys.anyM p ≠ .ok false := by
  obtain ⟨x, hmem, hp⟩ := exists_of_anyM hx
  intro hy
  cases hp.symm.trans (forall_of_anyM hy x (h hmem))

theorem allM_eq_true_iff {p : α → Except ε Bool} {xs : List α} :
    xs.allM p = .ok true ↔ ∀ x ∈ xs, p x = .ok true := by
  induction xs with
  | nil => simp [pure, Except.pure]
  | cons x xs ih =>
    rw [List.allM, bind_eq_ok_iff, List.forall_mem_cons, ← ih]
    constructor
    · rintro ⟨_ | _, hx, h⟩
      · cases h
      · exact ⟨hx, h⟩
    · rintro ⟨hx, h⟩
      exact ⟨true, hx, h⟩

theorem exists_allM {p : α → Except ε Bool} {xs : List α} (h : ∀ x ∈ xs, ∃ b, p x = .ok b) :
    ∃ b, xs.allM p = .ok b := by
  induction xs with
  | nil => exact ⟨true, rfl⟩
  | cons x xs ih =>
    obtain ⟨b, hb⟩ := h x List.mem_cons_self
    rw [List.allM, hb, ok_bind]
    cases b with
    | true => exact ih fun y hy => h y (List.mem_cons_of_mem x hy)
    | false => exact ⟨false, rfl⟩

end Outcome

open Program Store Outcome

theorem Capability.exists_unlocks {feature scope : Value} (hfeature : feature.member.isOk = true)
    (hscope : scope.member.isOk = true) (c : Capability) : ∃ b, c.unlocks feature scope = .ok b := by
  obtain ⟨feature', hfeature⟩ := exists_of_isOk hfeature
  obtain ⟨scope', hscope⟩ := exists_of_isOk hscope
  rw [unlocks, hfeature, hscope]
  simp only [ok_bind]
  split
  · exact ⟨_, rfl⟩
  · split <;> exact ⟨_, rfl⟩

theorem Filter.lets_mono {f : Filter} {grants grants' : List Grant} (h : grants ⊆ grants')
    {record : Record} {action name : String} {tags : List Value}
    (hlets : f.lets grants record action tags name = true) :
    f.lets grants' record action tags name = true := by
  rw [lets, Bool.and_eq_true, List.any_eq_true] at hlets ⊢
  obtain ⟨hfield, g, hg, hgrant⟩ := hlets
  exact ⟨hfield, g, h hg, hgrant⟩

namespace Snapshot

variable {s s' : Snapshot} {strict : Prop}

theorem exists_unlocks {feature scope : Value} (hfeature : feature.member.isOk = true)
    (hscope : scope.member.isOk = true) (s : Snapshot) : ∃ b, s.unlocks feature scope = .ok b := by
  choose unlocked hunlocked using fun g : Grant =>
    g.capability.exists_unlocks hfeature hscope
  rw [unlocks, funext hunlocked, anyM_ok]
  exact ⟨_, rfl⟩

theorem mayCreate_eq_true_iff {entityType : String} {tags : List Value} :
    s.mayCreate entityType tags = .ok true ↔ s.Creates entityType ∧
      ∀ tag ∈ tags, ∃ t, tag.member = .ok (.text t) ∧ s.Covers entityType t := by
  have htag (tag : Value) :
      ((do return ((s.creationTargets entityType).map Value.text).contains (← tag.member) :
        Except Error Bool) = .ok true) ↔
        ∃ t, tag.member = .ok (.text t) ∧ s.Covers entityType t := by
    simp only [bind_eq_ok_iff, pure, Except.pure, Except.ok.injEq, List.contains_iff_mem,
      List.mem_map, mem_creationTargets_iff]
    constructor
    · rintro ⟨_, htag, t, ht, rfl⟩
      exact ⟨t, htag, ht⟩
    · rintro ⟨t, htag, ht⟩
      exact ⟨_, htag, t, ht, rfl⟩
  rw [mayCreate, ← creationTargets_ne_nil_iff]
  simp only [List.isEmpty_map, List.isEmpty_iff]
  split
  case isTrue hnone => simp [hnone]
  case isFalse hsome => simp only [allM_eq_true_iff, htag, ne_eq, hsome, not_false_eq_true, true_and]

theorem exists_mayCreate {tags : List Value} (h : ∀ tag ∈ tags, tag.member.isOk = true)
    (s : Snapshot) (entityType : String) : ∃ b, s.mayCreate entityType tags = .ok b := by
  rw [mayCreate]
  split
  · exact ⟨false, rfl⟩
  · refine exists_allM fun tag htag => ?_
    obtain ⟨m, hm⟩ := exists_of_isOk (h tag htag)
    exact ⟨_, by rw [hm]; rfl⟩

variable (h : s.grants ⊆ s'.grants)

include h

theorem grows_mayCreate (entityType : String) {tags : List Value}
    (htags : strict → ∀ tag ∈ tags, tag.member.isOk = true) :
    Grows (fun a b => a = true → b = true) strict (s.mayCreate entityType tags)
      (s'.mayCreate entityType tags) := by
  refine grows_test (fun hs hs' => ?_) fun hstrict =>
    ⟨exists_mayCreate (htags hstrict) s entityType, exists_mayCreate (htags hstrict) s' entityType⟩
  obtain ⟨hcreates, hcovers⟩ := mayCreate_eq_true_iff.1 hs
  have hs'' : s'.mayCreate entityType tags = .ok true :=
    mayCreate_eq_true_iff.2 ⟨hcreates.mono h, fun tag htag => by
      obtain ⟨t, ht, hcovered⟩ := hcovers tag htag
      exact ⟨t, ht, hcovered.mono h⟩⟩
  cases hs'.symm.trans hs''

theorem grows_allows {record : Record} (htags : strict → record.tags.isOk = true)
    (action : String) :
    Grows (fun a b => a = true → b = true) strict (s.allows record action)
      (s'.allows record action) := by
  refine grows_test (anyM_subset h) fun hstrict => ?_
  obtain ⟨tags, htags⟩ := exists_of_isOk (htags hstrict)
  exact ⟨exists_allows htags s action, exists_allows htags s' action⟩

theorem grows_unlocks {feature scope : Value}
    (hmembers : strict → feature.member.isOk = true ∧ scope.member.isOk = true) :
    Grows (fun a b => a = true → b = true) strict (s.unlocks feature scope)
      (s'.unlocks feature scope) := by
  refine grows_test (anyM_subset h) fun hstrict => ?_
  obtain ⟨hfeature, hscope⟩ := hmembers hstrict
  exact ⟨exists_unlocks hfeature hscope s, exists_unlocks hfeature hscope s'⟩

theorem grows_visible (f : Filter) (record : Record) (action : String) :
    Grows List.Sublist strict (f.visible s record action) (f.visible s' record action) := by
  cases htags : record.tags with
  | error e =>
    rw [Filter.visible, Filter.visible, reaching, reaching, htags]
    exact .failures e
  | ok tags =>
    rw [Filter.visible_eq htags, Filter.visible_eq htags]
    refine .values (List.monotone_filter_right _ fun field hlets => ?_)
    exact Filter.lets_mono h hlets

end Snapshot

/-! Evaluations. -/

namespace Evaluation

/-- An answer allows no more than another one does, and shows no more. -/
def AtMost : (q : Evaluation) → q.Answer → q.Answer → Prop
  | .creation .., a, b | .unlocking .., a, b => a = true → b = true
  | .access .., as, bs | .accessOfRoles .., as, bs => List.Forall₂ (fun a b => a = true → b = true) as bs
  | .filtering .., shown, shown' => List.Forall₂ List.Sublist shown shown'

/-- What is asked about can be looked up in sets, as texts can. -/
def IsTyped : Evaluation → Prop
  | .creation _ _ attributes =>
    ∀ tags, attributes.parts = .ok tags → ∀ tag ∈ tags, tag.member.isOk = true
  | .access _ records _ | .accessOfRoles _ records _ =>
    ∀ record ∈ records, record.tags.isOk = true
  | .unlocking _ feature scope => feature.member.isOk = true ∧ scope.member.isOk = true
  | .filtering .. => True

end Evaluation

namespace Case

variable {s s' : Snapshot} {strict : Prop} {p : Policy}

theorem grows_ruling {c : Case}
    (h : Grows (fun a b => a = true → b = true) strict (c.verdict s) (c.verdict s')) :
    Grows (fun a b => a = true → b = true) strict ((c.ruling p s).map Decision.allowed)
      ((c.ruling p s').map Decision.allowed) := by
  rw [ruling, ruling, Policy.map_allowed_ruling, Policy.map_allowed_ruling]
  refine grows_bind fun d _ => ?_
  cases d with
  | none => exact h
  | some d => exact .values id

end Case

namespace Evaluation

variable {f : Filter} {s s' : Snapshot} (h : s.grants ⊆ s'.grants)

include h

theorem grows_shown {strict : Prop} (account : Account) (action : Action) (record : Record) :
    Grows List.Sublist strict
      (((Case.filtering f account action record).ruling f.authority.policy s).map
        (shown f s action.name record))
      (((Case.filtering f account action record).ruling f.authority.policy s').map
        (shown f s' action.name record)) := by
  rw [Case.ruling, Case.ruling, Case.filtering, map_shown_ruling, map_shown_ruling]
  refine grows_bind fun d _ => ?_
  cases d with
  | none => exact Snapshot.grows_visible h f record action.name
  | some d => exact .values (.refl _)

/-- Each evaluation is answered at least as well with more grants. -/
theorem grows_told (q : Evaluation) :
    Grows q.AtMost q.IsTyped ((q.told f s).map Prod.fst) ((q.told f s').map Prod.fst) := by
  cases q with
  | creation account entityType attributes =>
    cases hparts : attributes.parts with
    | error e =>
      have hcases := cases_of_parts_error account f entityType hparts
      rw [told_of_error hcases, told_of_error hcases]
      exact .failures e
    | ok tags =>
      have hcases := cases_of_parts account f entityType hparts
      rw [fst_told_one hcases, fst_told_one hcases]
      simp only [answer, List.all_cons, List.all_nil, Bool.and_true]
      exact Case.grows_ruling (Snapshot.grows_mayCreate h entityType fun htyped => htyped tags hparts)
  | access account records action | accessOfRoles roles records action =>
    rw [fst_told rfl, fst_told rfl]
    change Grows _ _ (Except.map (List.map Decision.allowed) _)
      (Except.map (List.map Decision.allowed) _)
    rw [map_mapM, map_mapM, List.mapM_map, List.mapM_map]
    exact grows_mapM fun record hr => Case.grows_ruling
      (Snapshot.grows_allows h (fun htyped => htyped record hr) action.name)
  | unlocking account feature scope =>
    rw [fst_told_one rfl, fst_told_one rfl]
    simp only [answer, List.all_cons, List.all_nil, Bool.and_true]
    exact Case.grows_ruling (Snapshot.grows_unlocks h id)
  | filtering account records action =>
    cases hcases : (filtering account records action).cases f with
    | error e =>
      rw [told_of_error hcases, told_of_error hcases]
      exact .failures e
    | ok cs =>
      obtain ⟨_, -, hcs⟩ := bind_eq_ok_iff.1 hcases
      obtain rfl := Except.ok.inj hcs
      rw [fst_told hcases, fst_told hcases, List.mapM_map, List.mapM_map]
      change Grows _ _ (Except.map (fun ds => List.map _ _) _) (Except.map (fun ds => List.map _ _) _)
      rw [← mapM_map, ← mapM_map]
      refine grows_mapM fun record _ => ?_
      exact grows_shown h account action record

end Evaluation

end AccessControl
