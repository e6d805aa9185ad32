import AccessControl.Proofs.Decision.Composition
import AccessControl.Proofs.Grant.Tags

/-!
Creation needs every tag to be covered, while an action on a record needs one grant on it. Both are
told of the same grants, and one follows from the other.
-/

namespace AccessControl

open Program

theorem Outcome.allM_ok {ε α : Type} (f : α → Bool) (xs : List α) :
    xs.allM (fun x => (.ok (f x) : Except ε Bool)) = .ok (xs.all f) := by
  induction xs with
  | nil => rfl
  | cons x xs ih =>
    rw [List.allM, ok_bind, List.all_cons]
    cases f x with
    | true => exact ih
    | false => rfl

namespace Snapshot

variable {s s' : Snapshot} {entityType tag : String} {ts us : List String}

def Creates (s : Snapshot) (entityType : String) : Prop :=
  ∃ g ∈ s.grants, g.capability.allowsRecord entityType "create" = true

def Covers (s : Snapshot) (entityType tag : String) : Prop :=
  ∃ g ∈ s.grants, g.target = tag ∧ g.capability.allowsRecord entityType "create" = true

instance : Decidable (s.Creates entityType) :=
  inferInstanceAs (Decidable (∃ g ∈ s.grants, _))

instance : Decidable (s.Covers entityType tag) :=
  inferInstanceAs (Decidable (∃ g ∈ s.grants, _))

theorem Covers.creates (h : s.Covers entityType tag) : s.Creates entityType := by
  obtain ⟨g, hg, -, hallows⟩ := h
  exact ⟨g, hg, hallows⟩

theorem Creates.mono (hgrants : ∀ g ∈ s.grants, g ∈ s'.grants) (h : s.Creates entityType) :
    s'.Creates entityType := by
  obtain ⟨g, hg, hallows⟩ := h
  exact ⟨g, hgrants g hg, hallows⟩

theorem Covers.mono (hgrants : ∀ g ∈ s.grants, g ∈ s'.grants) (h : s.Covers entityType tag) :
    s'.Covers entityType tag := by
  obtain ⟨g, hg, hallows⟩ := h
  exact ⟨g, hgrants g hg, hallows⟩

theorem mem_creationTargets_iff : tag ∈ s.creationTargets entityType ↔ s.Covers entityType tag := by
  simp only [creationTargets, List.mem_map, List.mem_filter, Covers]
  constructor
  · rintro ⟨g, ⟨hg, hallows⟩, htarget⟩
    exact ⟨g, hg, htarget, hallows⟩
  · rintro ⟨g, hg, htarget, hallows⟩
    exact ⟨g, ⟨hg, hallows⟩, htarget⟩

theorem creationTargets_ne_nil_iff :
    s.creationTargets entityType ≠ [] ↔ s.Creates entityType := by
  constructor
  · intro h
    obtain ⟨tag, htag⟩ := List.exists_mem_of_ne_nil _ h
    exact (mem_creationTargets_iff.1 htag).creates
  · rintro ⟨g, hg, hallows⟩
    have hcovers : s.Covers entityType g.target := ⟨g, hg, rfl, hallows⟩
    exact List.ne_nil_of_mem (mem_creationTargets_iff.2 hcovers)

theorem mayCreate_texts : s.mayCreate entityType (ts.map .text) =
    .ok (decide (s.Creates entityType ∧ ∀ t ∈ ts, s.Covers entityType t)) := by
  have hall : (ts.map Value.text).allM (fun tag => do
        return ((s.creationTargets entityType).map Value.text).contains (← tag.member) :
          Value → Except Error Bool) =
      .ok (ts.all fun t => decide (s.Covers entityType t)) := by
    rw [← Outcome.allM_ok]
    induction ts with
    | nil => rfl
    | cons t ts ih =>
      have hmember : (Value.text t).member = .ok (.text t) := rfl
      have hcontains : ((s.creationTargets entityType).map Value.text).contains (.text t) =
          decide (s.Covers entityType t) := by
        rw [Bool.eq_iff_iff, List.contains_iff_mem, decide_eq_true_iff, ← mem_creationTargets_iff]
        simp
      rw [List.map_cons, List.allM, List.allM, hmember, Outcome.ok_bind, hcontains, ih]
      rfl
  rw [Snapshot.mayCreate, hall]
  by_cases hcreates : s.Creates entityType
  · have hsome := creationTargets_ne_nil_iff.2 hcreates
    simp [hcreates, hsome, List.all_eq]
  · have hnone : s.creationTargets entityType = [] := by
      by_contra h
      exact hcreates (creationTargets_ne_nil_iff.1 h)
    simp [hcreates, hnone]

theorem mayCreate_iff : s.mayCreate entityType (ts.map .text) = .ok true ↔
    s.Creates entityType ∧ ∀ t ∈ ts, s.Covers entityType t := by
  rw [mayCreate_texts, Except.ok.injEq, decide_eq_true_iff]

theorem mayCreate_iff_of_ne_nil (h : ts ≠ []) : s.mayCreate entityType (ts.map .text) = .ok true ↔
    ∀ t ∈ ts, s.Covers entityType t := by
  rw [mayCreate_iff]
  constructor
  · exact And.right
  · intro hcovers
    obtain ⟨t, ht⟩ := List.exists_mem_of_ne_nil _ h
    exact ⟨(hcovers t ht).creates, hcovers⟩

theorem allows_create_iff (data : Value.Fields) :
    s.allows ⟨entityType, data, .texts ts⟩ "create" = .ok true ↔
      ∃ t ∈ ts, s.Covers entityType t := by
  rw [allows_list rfl, Except.ok.injEq, List.any_eq_true]
  simp only [Bool.and_eq_true, Grant.reaches_texts_iff]
  constructor
  · rintro ⟨g, hg, hreaches, hallows⟩
    exact ⟨g.target, hreaches, g, hg, rfl, hallows⟩
  · rintro ⟨_, ht, g, hg, rfl, hallows⟩
    exact ⟨g, hg, ht, hallows⟩

/-- Creation needs every tag to be covered. The rulesets' verdict is true iff some grant allows to
create records of the type and every tag has such a grant. So it depends on the set of tags only, is
kept when tags are taken away or grants added, and holds of tags put together iff it holds of both.
With a tag at least it comes to the same as the action on records that carry one tag each, and entails
the action on a record that carries them all. -/
theorem mayCreate_exact (s : Snapshot) (entityType : String) (ts : List String) :
    let verdict (s : Snapshot) (ts : List String) := s.mayCreate entityType (ts.map .text)
    (∀ (f : Filter) (account : Account) (w : World),
      ((f.authority.grants.ofAccount account.id).run w).1 = .ok s →
      f.authority.policy.stage (Case.creation account entityType (ts.map .text)).request = .ok none →
      ((f.authority.mayCreate account entityType (.texts ts)).run w).1 = verdict s ts) ∧
    (∃ b, verdict s ts = .ok b) ∧
    (verdict s ts = .ok true ↔
      (∃ g ∈ s.grants, g.capability.allowsRecord entityType "create" = true) ∧
        ∀ t ∈ ts, ∃ g ∈ s.grants, g.target = t ∧
          g.capability.allowsRecord entityType "create" = true) ∧
    (∀ us, (∀ t, t ∈ us ↔ t ∈ ts) → verdict s us = verdict s ts) ∧
    (∀ us, (∀ t ∈ us, t ∈ ts) → verdict s ts = .ok true → verdict s us = .ok true) ∧
    (∀ s' : Snapshot, (∀ g ∈ s.grants, g ∈ s'.grants) → verdict s ts = .ok true →
      verdict s' ts = .ok true) ∧
    (∀ us, verdict s (ts ++ us) = .ok true ↔ verdict s ts = .ok true ∧ verdict s us = .ok true) ∧
    (ts ≠ [] →
      (verdict s ts = .ok true ↔
        ∀ t ∈ ts, ∀ data, s.allows ⟨entityType, data, .texts [t]⟩ "create" = .ok true) ∧
      (verdict s ts = .ok true →
        ∀ data, s.allows ⟨entityType, data, .texts ts⟩ "create" = .ok true)) := by
  intro verdict
  have hiff (s : Snapshot) (ts : List String) : verdict s ts = .ok true ↔
      s.Creates entityType ∧ ∀ t ∈ ts, s.Covers entityType t := mayCreate_iff
  refine ⟨fun f account w hs hstage => ?_, ⟨_, mayCreate_texts⟩, hiff s ts, fun us hus => ?_,
    fun us hus => ?_, fun s' hgrants => ?_, fun us => ?_, fun hne => ⟨?_, ?_⟩⟩
  · have hcases : (Evaluation.creation account entityType (.texts ts)).cases f =
        .ok [.creation account entityType (ts.map .text)] := rfl
    have hask := (Evaluation.creation account entityType (.texts ts)).run_ask f hs
    rw [Evaluation.fst_told_one hcases, Case.ruling, Policy.ruling, hstage] at hask
    change _ = verdict s ts
    refine hask.trans ?_
    change Except.map _ (verdict s ts >>= _) = _
    cases verdict s ts with
    | error e => rfl
    | ok b => cases b <;> rfl
  · change s.mayCreate entityType (us.map .text) = s.mayCreate entityType (ts.map .text)
    rw [mayCreate_texts, mayCreate_texts]
    simp only [hus]
  · rw [hiff, hiff]
    rintro ⟨hcreates, hcovers⟩
    exact ⟨hcreates, fun t ht => hcovers t (hus t ht)⟩
  · rw [hiff, hiff]
    rintro ⟨hcreates, hcovers⟩
    exact ⟨hcreates.mono hgrants, fun t ht => (hcovers t ht).mono hgrants⟩
  · rw [hiff, hiff, hiff, List.forall_mem_append]
    constructor
    · rintro ⟨hcreates, hts, hus⟩
      exact ⟨⟨hcreates, hts⟩, hcreates, hus⟩
    · rintro ⟨⟨hcreates, hts⟩, -, hus⟩
      exact ⟨hcreates, hts, hus⟩
  · change s.mayCreate entityType (ts.map .text) = .ok true ↔ _
    rw [mayCreate_iff_of_ne_nil hne]
    simp [allows_create_iff]
  · intro h data
    obtain ⟨t, ht⟩ := List.exists_mem_of_ne_nil _ hne
    exact (allows_create_iff data).2 ⟨t, ht, ((hiff s ts).1 h).2 t ht⟩

def twofold : Snapshot :=
  let grant (id target : String) : Grant :=
    ⟨.account ⟨id, "ann", "creator", target, [], .ofSeconds 0⟩,
      ⟨"creator", "", [], [⟨"note", "create", "*"⟩], [], []⟩⟩
  ⟨"ann", [grant "r1" "t1", grant "r2" "t2"]⟩

theorem mayCreate_exact_of_twofold :
    let tagged (ts : List String) : Record := ⟨"note", [], .texts ts⟩
    twofold.mayCreate "note" ([].map .text) = .ok true ∧
      twofold.mayCreate "note" (["t2", "t1", "t2"].map .text) = .ok true ∧
      twofold.mayCreate "note" (["t1", "t3"].map .text) ≠ .ok true ∧
      twofold.allows (tagged ["t1", "t3"]) "create" = .ok true ∧
      ({ twofold with grants := [] } : Snapshot).mayCreate "note" ([].map .text) ≠ .ok true := by
  intro tagged
  obtain ⟨-, -, hempty, -⟩ := mayCreate_exact twofold "note" []
  obtain ⟨-, -, hboth, -⟩ := mayCreate_exact twofold "note" ["t2", "t1", "t2"]
  obtain ⟨-, -, hthird, -⟩ := mayCreate_exact twofold "note" ["t1", "t3"]
  obtain ⟨-, -, hnone, -⟩ := mayCreate_exact { twofold with grants := [] } "note" []
  have hany : twofold.allows (tagged ["t1", "t3"]) "create" = .ok true :=
    (allows_create_iff _).2 ⟨"t1", by decide, by decide⟩
  exact ⟨hempty.2 (by decide), hboth.2 (by decide), mt hthird.1 (by decide), hany,
    mt hnone.1 (by decide)⟩

end Snapshot

end AccessControl
