import AccessControl.Proofs.Decision.Batches

/-!
Point checks and filtering agree. They look at grants in different ways, at the record as a whole and
at its fields; what shows of a record shows because the record is allowed.
-/

namespace AccessControl

open Program Store

inductive Stage where
  | block
  | admin
  | bypass
  | rulesets
deriving DecidableEq

def Outcome.stage : Outcome → Stage
  | .block => .block
  | .admin => .admin
  | .bypass => .bypass
  | .rulesetAllow | .rulesetDeny => .rulesets

namespace Policy

variable {p : Policy} {r : Request} {verdict : Except Error Bool} {d : Decision}

theorem ruling_of_stage (h : p.stage r = .ok (some d)) : p.ruling r verdict = .ok d := by
  rw [ruling, h]
  rfl

theorem ruling_of_open (h : p.stage r = .ok none) :
    p.ruling r verdict = verdict.map .ofVerdict := by
  rw [ruling, h]
  cases verdict <;> rfl

theorem stage_ne_rulesets (h : p.stage r = .ok (some d)) : d.outcome.stage ≠ .rulesets := by
  rcases outcome_of_stage h with ho | ho | ho <;> rw [ho] <;> decide

end Policy

theorem Decision.stage_ofVerdict (allowed : Bool) :
    (Decision.ofVerdict allowed).outcome.stage = .rulesets := by
  cases allowed <;> rfl

theorem Snapshot.reaching_of_visible {f : Filter} {s : Snapshot} {record : Record} {action : String}
    {gs : List Grant} {fields : Value.Fields} (hgs : s.reaching record action = .ok gs)
    (hvisible : f.visible s record action = .ok fields) (hne : fields ≠ []) : gs ≠ [] := by
  rw [Filter.visible, hgs] at hvisible
  obtain rfl := Except.ok.inj hvisible
  rintro rfl
  exact hne (List.filter_eq_nil_iff.2 fun _ _ => by simp)

namespace Filter

/-- A decision on a record and one on what shows of it, with the fields that show, are of one mind. -/
structure Concord (f : Filter) (s : Snapshot) (action : String) (record : Record)
    (d d' : Decision) (fields : Value.Fields) : Prop where
  stage : d.outcome.stage = d'.outcome.stage
  overridden : d.outcome.stage ≠ .rulesets → d = d'
  shown : fields ≠ [] → d.allowed = true
  hidden : d.allowed = false → fields = []
  reached : d.outcome.stage = .rulesets →
    ∃ gs, s.reaching record action = .ok gs ∧ (d.allowed = true ↔ gs ≠ [])

variable {f : Filter} {s : Snapshot} {account : Account} {action : Action} {record : Record}
  {d d' : Decision} {vs tags : List Value}

theorem concord_of_stage
    (h : f.authority.policy.stage (Authority.recordRequest account record action.name) =
      .ok (some d)) :
    f.Concord s action.name record d d (Evaluation.shown f s action.name record d) := by
  have hshown : Evaluation.shown f s action.name record d = whole record d :=
    Evaluation.shown_of_stage h
  have hhidden : d.allowed = false → Evaluation.shown f s action.name record d = [] := by
    intro hd
    rw [hshown, whole, hd]
    rfl
  constructor
  · rfl
  · exact fun _ => rfl
  · intro hne
    by_contra hd
    exact hne (hhidden (by simpa using hd))
  · exact hhidden
  · intro hrulesets
    exact absurd hrulesets (Policy.stage_ne_rulesets h)

theorem concord_of_rulesets {allowed : Bool} {fields : Value.Fields}
    (hlist : record.attributes = .list vs) (htags : record.tags = .ok tags)
    (hallowed : s.allows record action.name = .ok allowed)
    (hvisible : f.visible s record action.name = .ok fields) :
    f.Concord s action.name record (.ofVerdict allowed) (.ofVerdict !fields.isEmpty)
      (Evaluation.shown f s action.name record (.ofVerdict !fields.isEmpty)) := by
  obtain ⟨gs, hgs⟩ : ∃ gs, s.reaching record action.name = .ok gs := by
    rw [Snapshot.reaching, htags]
    exact ⟨_, rfl⟩
  have hreached : allowed = true ↔ gs ≠ [] := by
    rw [Snapshot.allows_eq_reaching hlist htags, hgs] at hallowed
    obtain rfl := Except.ok.inj hallowed
    simp
  have hshown : fields ≠ [] → allowed = true := fun hne =>
    hreached.2 (Snapshot.reaching_of_visible hgs hvisible hne)
  rw [Evaluation.shown_ofVerdict hvisible]
  constructor
  · rw [Decision.stage_ofVerdict, Decision.stage_ofVerdict]
  · intro hne
    exact absurd (Decision.stage_ofVerdict allowed) hne
  · exact hshown
  · intro hdenied
    by_contra hne
    have hallowed' : allowed = true := hshown hne
    have hdenied' : allowed = false := hdenied
    rw [hallowed'] at hdenied'
    cases hdenied'
  · exact fun _ => ⟨gs, hgs, hreached⟩

theorem exists_concord (hf : f.authority.policy.IsTotal) (hlist : record.attributes = .list vs)
    (htags : record.tags = .ok tags) (s : Snapshot) (account : Account) (action : Action) :
    ∃ d d', (Inspection.access account action).ruling f s record = .ok d ∧
      (Inspection.filtering account action).ruling f s record = .ok d' ∧
      f.Concord s action.name record d d' (Evaluation.shown f s action.name record d') := by
  obtain ⟨d, hd⟩ := Inspection.exists_ruling (q := .access account action) (s := s) hf htags
  obtain ⟨d', hd'⟩ := Inspection.exists_ruling (q := .filtering account action) (s := s) hf htags
  refine ⟨d, d', hd, hd', ?_⟩
  cases hstage : f.authority.policy.stage (Authority.recordRequest account record action.name) with
  | error e =>
    have h : f.authority.policy.ruling (Authority.recordRequest account record action.name)
        (s.allows record action.name) = .ok d := hd
    rw [Policy.ruling, hstage] at h
    cases h
  | ok decided =>
    cases decided with
    | some d₀ =>
      obtain rfl := Except.ok.inj ((Policy.ruling_of_stage hstage).symm.trans hd)
      obtain rfl := Except.ok.inj ((Policy.ruling_of_stage hstage).symm.trans hd')
      exact concord_of_stage hstage
    | none =>
      obtain ⟨allowed, hallowed⟩ := Snapshot.exists_allows htags s action.name
      have hvisible : f.visible s record action.name = .ok _ := f.visible_eq htags
      have h : (s.allows record action.name).map Decision.ofVerdict = .ok d :=
        (Policy.ruling_of_open hstage).symm.trans hd
      have h' : ((f.visible s record action.name).map (!·.isEmpty)).map Decision.ofVerdict =
          .ok d' := (Policy.ruling_of_open hstage).symm.trans hd'
      rw [hallowed] at h
      rw [hvisible] at h'
      obtain rfl := Except.ok.inj h
      obtain rfl := Except.ok.inj h'
      exact concord_of_rulesets hlist htags hallowed hvisible

end Filter

namespace Inspection

variable {f : Filter} {q : Inspection} {s : Snapshot} {w : World} {records : List Record}
  {d : Record → Decision}

theorem ask_of_ruling (hs : ((q.grants f).run w).1 = .ok s)
    (hknown : ∀ record ∈ records, q.knows f record = true)
    (hd : ∀ record ∈ records, q.ruling f s record = .ok (d record)) :
    ((q.ask f records).run w).1 = .ok (records.map fun record => q.verdict f s record (d record)) ∧
      q.Decides f s records (records.map d) ∧
      (q.ask f records).CountsDecisions w q.entryPoint (records.map d) := by
  have hdecides : q.Decides f s records (records.map d) := by
    rw [Decides, List.forall₂_map_right_iff, List.forall₂_same]
    exact hd
  refine ⟨?_, hdecides, countsDecisions_of_decides hs hknown hdecides⟩
  rw [run_ask_known hs hknown, Outcome.mapM_eq_ok_iff, List.forall₂_map_right_iff, List.forall₂_same]
  intro record hr
  rw [single, if_pos (hknown record hr), hd record hr]
  rfl

theorem run_decisions {account : Account} {action : Action}
    (hs : ((f.authority.grants.ofAccount account.id).run w).1 = .ok s)
    (hd : ∀ record ∈ records, (access account action).ruling f s record = .ok (d record)) :
    ((f.authority.decisions account records action).run w).1 = .ok (records.map d) := by
  have hcovers : ((access account action).tariff f w s (Effect.marks "")).Covers
      ((access account action).inquiry f) := covers (marks_of_isIdle "") hs
  have hrun := (hcovers.amounts_asking
    (reckons_each hcovers (some account) rfl action records) account w (.refl w)).1
  refine hrun.trans ?_
  rw [Reckoning.outcome_all, Outcome.mapM_eq_ok_iff, List.forall₂_map_right_iff, List.forall₂_same]
  exact hd

end Inspection

namespace Filter

/-- Point checks and filtering of the same records. On a healthy store, with predicates that do not
fail, both decide about a record at the same stage; a record of which something shows is allowed, and
nothing shows of one that is not; and when the rulesets decide, it is allowed just when there is a
grant on it. -/
theorem batch_concord (f : Filter) (hf : f.authority.policy.IsTotal) (account : Account)
    (action : Action) (records : List Record)
    (hknown : ∀ record ∈ records, f.entities.has record.entityType = true)
    (htags : ∀ record ∈ records, ∃ vs tags, record.attributes = .list vs ∧ record.tags = .ok tags)
    (t : Tables) (w : World) (hw : w.Stores t) :
    ∃ (s : Snapshot) (d d' : Record → Decision) (fields : Record → Value.Fields),
      ((f.authority.grants.ofAccount account.id).run w).1 = .ok s ∧
      ((f.authority.decisions account records action).run w).1 = .ok (records.map d) ∧
      ((f.authority.verdicts account records action).run w).1 =
        .ok (records.map fun record => (d record).allowed) ∧
      (f.authority.verdicts account records action).CountsDecisions w "account_can_do"
        (records.map d) ∧
      ((f.batch account records action).run w).1 = .ok (records.map fields) ∧
      (Inspection.filtering account action).Decides f s records (records.map d') ∧
      (f.batch account records action).CountsDecisions w "filter_batch" (records.map d') ∧
      ∀ record ∈ records,
        f.Concord s action.name record (d record) (d' record) (fields record) := by
  obtain ⟨s, hs⟩ := (Evaluation.filtering account records action).run_grants f hw
  have hnonempty : Nonempty Decision := ⟨.admin⟩
  have hrecords (record : Record) (hr : record ∈ records) :
      ∃ d d', (Inspection.access account action).ruling f s record = .ok d ∧
        (Inspection.filtering account action).ruling f s record = .ok d' ∧
        f.Concord s action.name record d d' (Evaluation.shown f s action.name record d') := by
    obtain ⟨vs, tags, hlist, ht⟩ := htags record hr
    exact exists_concord hf hlist ht s account action
  choose! d d' hd hd' hconcord using hrecords
  obtain ⟨hverdicts, -, hcounts⟩ := Inspection.ask_of_ruling (q := .access account action) hs
    (fun _ _ => rfl) hd
  obtain ⟨hshown, hdecides, hcounts'⟩ := Inspection.ask_of_ruling (q := .filtering account action) hs
    hknown hd'
  exact ⟨s, d, d', fun record => Evaluation.shown f s action.name record (d' record), hs,
    Inspection.run_decisions hs hd, hverdicts, hcounts, hshown, hdecides, hcounts', hconcord⟩

/-- A note of which the name may be read, but not the body. -/
theorem batch_concord_reading :
    let f : Filter := ⟨⟨⟨{}, ⟨fun _ => .ok false, false⟩⟩, ⟨none⟩⟩, ⟨[⟨"note", ["body", "name"]⟩]⟩⟩
    let w : World := { World.initial .error none { path := "" } with ledger := ⟨reading, .none⟩ }
    let record : Record := ⟨"note", [("name", .text "draft"), ("body", .text "")], .texts ["t1"]⟩
    ((f.authority.verdicts { id := "ann" } [record] (.field .read)).run w).1 = .ok [true] ∧
      ∃ s d d', f.Concord s "read" record d d' [("name", .text "draft")] := by
  intro f w record
  have htotal : f.authority.policy.IsTotal := ⟨by simp [f], by simp [f], fun _ => rfl⟩
  have hknown : ∀ x ∈ [record], f.entities.has x.entityType = true := by
    simp [f, record, Entities.has, Entities.get?]
  obtain ⟨s, d, d', fields, hs, -, hverdicts, -, hshown, -, -, hconcord⟩ :=
    batch_concord f htotal { id := "ann" } (.field .read) [record] hknown
      (by simpa [record] using ⟨⟨_, rfl⟩, ⟨_, rfl⟩⟩) reading w rfl
  have hgrants : s = ⟨"ann", reading.grantsOf "ann"⟩ :=
    Except.ok.inj (hs.symm.trans (run_grants_reading rfl))
  rw [grantsOf_reading] at hgrants
  have hfields : fields record = [("name", .text "draft")] := by
    have hone := Inspection.run_ask_known (q := .filtering { id := "ann" } (.field .read)) hs hknown
    have h := hshown.symm.trans hone
    rw [hgrants] at h
    exact (List.cons.inj (Except.ok.inj h)).1
  have hc := hconcord record List.mem_cons_self
  have hallowed : (d record).allowed = true := hc.shown (by simp [hfields])
  refine ⟨?_, s, d record, d' record, hfields ▸ hc⟩
  rw [hverdicts, List.map_singleton, hallowed]

end Filter

end AccessControl
