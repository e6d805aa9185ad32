import AccessControl.Proofs.Decision.Costs
import AccessControl.Proofs.Decision.Filtering
import AccessControl.Proofs.Grant.Tags
import AccessControl.Proofs.Program.Counting

/-!
Batches, record by record. What is asked about many records comes to what is asked about each of them
alone. The decisions are counted one by one, and what they share is found out once.
-/

namespace AccessControl

open Program Store

/-- What can be asked about each of some records. -/
inductive Inspection where
  | access (account : Account) (action : Action)
  | accessOfRoles (roles : List String) (action : Action)
  | filtering (account : Account) (action : Action)

namespace Inspection

abbrev Verdict : Inspection → Type
  | .access .. | .accessOfRoles .. => Bool
  | .filtering .. => Value.Fields

def ask (f : Filter) (records : List Record) : (q : Inspection) → Program (List q.Verdict)
  | .access account action => f.authority.verdicts account records action
  | .accessOfRoles roles action => f.authority.verdictsOfRoles roles records action
  | .filtering account action => f.batch account records action

def evaluation (records : List Record) : Inspection → Evaluation
  | .access account action => .access account records action
  | .accessOfRoles roles action => .accessOfRoles roles records action
  | .filtering account action => .filtering account records action

def entryPoint (q : Inspection) : String := (q.evaluation []).entryPoint

def account (q : Inspection) : Option Account := (q.evaluation []).account

def grants (f : Filter) (q : Inspection) : Program Snapshot := (q.evaluation []).grants f

def inquiry (f : Filter) (q : Inspection) : Inquiry :=
  ⟨q.entryPoint, f.authority.policy.admits q.account, q.grants f⟩

/-- The same questions, with other ways to the privilege and to the grants. -/
def askBy (f : Filter) (i : Inquiry) (records : List Record) :
    (q : Inspection) → Program (List q.Verdict)
  | .access account action => do
    let ds ← Authority.asking account
      (f.authority.decideEach i (some account) records action.name)
    return ds.map Decision.allowed
  | .accessOfRoles _ action => do
    let ds ← (f.authority.decideEach i none records action.name).run' {}
    return ds.map Decision.allowed
  | .filtering account action => do
    records.forM fun record => do
      let _ ← ofExcept (f.entities.require record.entityType)
    Authority.asking account (records.mapM (f.one i account action.name))

theorem ask_eq (f : Filter) (records : List Record) (q : Inspection) :
    q.ask f records = q.askBy f (q.inquiry f) records := by
  cases q <;> rfl

/-- Ways to the privilege and to the grants that tell the application when its predicate is evaluated
and when grants are resolved. -/
def spied (f : Filter) (q : Inspection) : Inquiry where
  entryPoint := q.entryPoint
  admin :=
    match q.account with
    | none => f.authority.policy.admits none
    | some account => do
      perform (.notify (.ran "admin"))
      f.authority.policy.admits (some account)
  grants := do
    perform (.notify (.ran "grants"))
    q.grants f

def case (f : Filter) (record : Record) : Inspection → Case
  | .access account action => .access account action record
  | .accessOfRoles _ action => .access none action record
  | .filtering account action => .filtering f account action record

def knows (f : Filter) (record : Record) : Inspection → Bool
  | .access .. | .accessOfRoles .. => true
  | .filtering .. => f.entities.has record.entityType

def verdict (f : Filter) (s : Snapshot) (record : Record) (d : Decision) :
    (q : Inspection) → q.Verdict
  | .access .. | .accessOfRoles .. => d.allowed
  | .filtering _ action => Evaluation.shown f s action.name record d

def ruling (f : Filter) (s : Snapshot) (q : Inspection) (record : Record) :
    Except Error Decision :=
  (q.case f record).ruling f.authority.policy s

/-- No stage before the rulesets decides about the record. -/
def fallsThrough (f : Filter) (q : Inspection) (record : Record) : Bool :=
  Policy.isOpen (f.authority.policy.stage (q.case f record).request)

def single (f : Filter) (s : Snapshot) (q : Inspection) (record : Record) :
    Except Error q.Verdict :=
  if q.knows f record then (q.ruling f s record).map fun d => q.verdict f s record d
  else .error (.unknownEntityType record.entityType)

end Inspection

def Effect.marks (job : String) : Effect → Bool
  | .notify (.ran j) => j = job
  | _ => false

/-- A run counts these decisions under an entry point, each with its outcome, and no others. -/
def Program.CountsDecisions {α : Type} (p : Program α) (w : World) (entryPoint : String)
    (ds : List Decision) : Prop :=
  ∀ m, w.counters = some m → ∃ m', (p.run w).2.counters = some m' ∧
    ∀ series, series.family = .decisions →
      m'.units series = m.units series +
        (ds.countP fun d => Counters.decision entryPoint d.outcome.name = series) *
          Binary64.one

theorem Decision.countP_notes (series : Counters.Series) (entryPoint : String) (r : Request) (d : Decision) :
    (d.notes entryPoint r).countP (Effect.counts series) =
      if Counters.decision entryPoint d.outcome.name = series then 1 else 0 := by
  rw [notes]
  cases d.outcome <;> simp [List.countP_cons, Effect.counts]

namespace Inspection

variable {f : Filter} {q : Inspection} {s : Snapshot} {records : List Record} {record : Record}

/-! What a batch is reckoned to come to. -/

def reckoning (f : Filter) (s : Snapshot) (q : Inspection) (record : Record) :
    Reckoning q.Verdict :=
  ((q.case f record).reckoning f.authority.policy q.entryPoint s).map
    fun d => q.verdict f s record d

theorem outcome_reckoning :
    (q.reckoning f s record).outcome = (q.ruling f s record).map fun d => q.verdict f s record d :=
  rfl

theorem reckons_each {c : Tariff} {i : Inquiry} (hi : c.Covers i) (account : Option Account)
    (hc : c.privilege = f.authority.policy.privilege account) (action : Action)
    (records : List Record) :
    c.Reckons (f.authority.decideEach i account records action.name)
      (.all (fun record => (Case.access account action record).reckoning f.authority.policy
        i.entryPoint c.snapshot) records) :=
  Tariff.reckons_mapM fun record _ => hi.decide (Case.access account action record) hc

theorem amounts {c : Tariff} {i : Inquiry} (hi : c.Covers i) (hentry : i.entryPoint = q.entryPoint)
    (hc : c.privilege = f.authority.policy.privilege q.account)
    (hknown : ∀ record ∈ records, q.knows f record = true) :
    c.Amounts (q.askBy f i records) (.all (q.reckoning f c.snapshot) records) := by
  cases q with
  | access account action =>
    have h := (hi.amounts_asking (reckons_each hi (some account) hc action records) account).map
      (List.map Decision.allowed)
    rw [Reckoning.map_all, hentry] at h
    exact h
  | accessOfRoles roles action =>
    have h := (reckons_each hi none hc action records).run'.map (List.map Decision.allowed)
    rw [Reckoning.map_all, hentry] at h
    exact h
  | filtering account action =>
    have htypes := Evaluation.waits_known f records
    rw [Filter.forM_known hknown] at htypes
    apply Tariff.Amounts.after (htypes.takes (hi.idle .pause rfl))
    have h := Tariff.reckons_mapM fun record (_ : record ∈ records) => hi.one hc action record
    rw [hentry] at h
    exact hi.amounts_asking h account

def tariff (f : Filter) (w : World) (s : Snapshot) (kind : Effect → Bool) (q : Inspection) :
    Tariff where
  kind := kind
  world := w
  privilege := f.authority.policy.privilege q.account
  snapshot := s
  asking := []
  resolving := (q.grants f).trace w

theorem accesses_tariff {α : Type} (w : World) (kind : Effect → Bool) (x : Reckoning α) :
    (q.tariff f w s kind).accesses {} x =
      x.told.countP kind + if x.resolves then ((q.grants f).trace w).countP kind else 0 := by
  simp [Tariff.accesses, tariff, Tariff.charge]

theorem covers {kind : Effect → Bool} {w : World} (hidle : ∀ e, e.isIdle = true → kind e = false)
    (hs : ((q.grants f).run w).1 = .ok s) : (q.tariff f w s kind).Covers (q.inquiry f) where
  idle := hidle
  admin := (f.authority.policy.waits_admits q.account).takes (hidle .pause rfl)
  grants v hv := by
    have honly : Only Effect.isResolving (q.grants f) := (q.evaluation []).only_grants f
    constructor
    · exact (honly.run_eq (fun _ he _ _ h => h.answer he) hv).trans hs
    · change ((q.grants f).trace v).countP kind = _
      rw [honly.trace_eq (fun _ he _ _ h => h.answer he) hv]
      rfl

def spiedTariff (f : Filter) (w : World) (s : Snapshot) (kind : Effect → Bool) (q : Inspection) :
    Tariff :=
  { q.tariff f w s kind with
    asking := if q.account.isSome then [.notify (.ran "admin")] else []
    resolving := .notify (.ran "grants") :: (q.grants f).trace w }

theorem accesses_spiedTariff {α : Type} (w : World) (s : Snapshot) (kind : Effect → Bool)
    (x : Reckoning α) :
    (q.spiedTariff f w s kind).accesses {} x =
      x.told.countP kind +
        (if x.asks && q.account.isSome then [Effect.notify (.ran "admin")].countP kind else 0) +
        if x.resolves then
          [Effect.notify (.ran "grants")].countP kind + ((q.grants f).trace w).countP kind
        else 0 := by
  rw [← List.countP_append]
  cases h : q.account <;> simp [Tariff.accesses, spiedTariff, tariff, Tariff.charge, h]

theorem covers_spied {kind : Effect → Bool} {w : World}
    (hidle : ∀ e, e.isIdle = true → kind e = false) (hs : ((q.grants f).run w).1 = .ok s) :
    (q.spiedTariff f w s kind).Covers (q.spied f) where
  idle := hidle
  admin := by
    have hadmits := (f.authority.policy.waits_admits q.account).takes (hidle .pause rfl)
    have hmark : Takes kind (perform (.notify (.ran "admin"))) (.ok ()) [.notify (.ran "admin")] :=
      fun _ => ⟨rfl, ⟨rfl, rfl, rfl⟩, rfl⟩
    rw [spied, spiedTariff, tariff]
    cases hq : q.account with
    | none =>
      rw [hq] at hadmits
      exact hadmits
    | some account =>
      rw [hq] at hadmits
      exact hmark.bind hadmits
  grants v hv := by
    -- the mark changes nothing on which the grants depend
    have hmark : (v.answer (.notify (.ran "grants"))).2.Alike v := ⟨rfl, rfl, rfl⟩
    have hv' : (v.answer (.notify (.ran "grants"))).2.Alike w := hmark.trans hv
    obtain ⟨hrun, hcount⟩ := (covers hidle hs).grants _ hv'
    refine ⟨hrun, ?_⟩
    change (_ :: (q.grants f).trace _).countP kind = List.countP kind (_ :: (q.grants f).trace w)
    rw [List.countP_cons, List.countP_cons]
    exact congrArg (· + _) hcount

/-! What is told of decisions. -/

def Decides (f : Filter) (s : Snapshot) (q : Inspection) (records : List Record)
    (ds : List Decision) : Prop :=
  List.Forall₂ (fun record d => q.ruling f s record = .ok d) records ds

variable {ds : List Decision}

theorem Decides.verdicts (h : q.Decides f s records ds) :
    List.Forall₂ (fun record v => (q.reckoning f s record).outcome = .ok v) records
      (List.zipWith (fun record d => q.verdict f s record d) records ds) := by
  induction h with
  | nil => exact .nil
  | cons hd _ ih =>
    apply List.Forall₂.cons _ ih
    rw [outcome_reckoning, hd]
    rfl

theorem Decides.countP_told (h : q.Decides f s records ds) (series : Counters.Series) :
    (records.flatMap fun record => (q.reckoning f s record).told).countP (Effect.counts series) =
      ds.countP fun d => Counters.decision q.entryPoint d.outcome.name = series := by
  induction h with
  | nil => rfl
  | @cons record d records ds hd _ ih =>
    have htold : (q.reckoning f s record).told =
        d.notes q.entryPoint (q.case f record).request := by
      change Decision.tidings _ _ ((q.ruling f s record).map some) = _
      rw [hd]
      rfl
    rw [List.flatMap_cons, List.countP_append, ih, htold, Decision.countP_notes, List.countP_cons,
      Nat.add_comm]
    simp

end Inspection

theorem Program.countsDecisions {α : Type} {p : Program α} {w : World} {entryPoint : String}
    {ds : List Decision}
    (h : ∀ series, series.family = .decisions → (p.trace w).countP (Effect.counts series) =
      ds.countP fun d => Counters.decision entryPoint d.outcome.name = series) :
    p.CountsDecisions w entryPoint ds := by
  intro m hm
  obtain ⟨m', hm', hunits⟩ := p.units_run hm
  refine ⟨m', hm', fun series hseries => ?_⟩
  rw [hunits, h series hseries]

namespace Inspection

variable {f : Filter} {q : Inspection} {s : Snapshot} {records : List Record} {record : Record}
  {ds : List Decision} {w : World}

theorem countP_grants {series : Counters.Series} (hseries : series.family = .decisions) :
    ((q.grants f).trace w).countP (Effect.counts series) = 0 := by
  apply ((q.evaluation []).only_grants f).countP_trace
  intro e he
  cases e with
  | count t =>
    have ht : t.family = .resolutions := of_decide_eq_true he
    apply decide_eq_false
    rintro rfl
    rw [ht] at hseries
    cases hseries
  | _ => rfl

theorem marks_of_isSilent (job : String) {e : Effect} (he : e.isSilent = true) :
    Effect.marks job e = false := by
  cases e with
  | notify => cases he
  | _ => rfl

theorem marks_of_isIdle (job : String) (e : Effect) (he : e.isIdle = true) :
    Effect.marks job e = false :=
  marks_of_isSilent job (Effect.isSilent_of_isIdle he)

section

variable (hs : ((q.grants f).run w).1 = .ok s)
  (hknown : ∀ record ∈ records, q.knows f record = true)

include hs hknown

theorem amounts_ask {kind : Effect → Bool} (hidle : ∀ e, e.isIdle = true → kind e = false) :
    ((q.ask f records).run w).1 = (Reckoning.all (q.reckoning f s) records).outcome ∧
      ((q.ask f records).trace w).countP kind =
        (q.tariff f w s kind).accesses {} (.all (q.reckoning f s) records) := by
  rw [ask_eq]
  exact amounts (covers hidle hs) rfl rfl hknown w (.refl w)

theorem outcome_ask :
    ((q.ask f records).run w).1 = (Reckoning.all (q.reckoning f s) records).outcome :=
  (amounts_ask hs hknown (marks_of_isIdle "")).1

theorem run_ask_known :
    ((q.ask f records).run w).1 = records.mapM (q.single f s) := by
  rw [outcome_ask hs hknown, Reckoning.outcome_all]
  apply Outcome.mapM_congr
  intro record hr
  rw [single, if_pos (hknown record hr)]
  rfl

theorem countP_ask {series : Counters.Series} (hseries : series.family = .decisions) :
    ((q.ask f records).trace w).countP (Effect.counts series) =
      (Reckoning.all (q.reckoning f s) records).told.countP (Effect.counts series) := by
  have hidle (e : Effect) (he : e.isIdle = true) : Effect.counts series e = false := by
    cases e with
    | pause | enter | leave => rfl
    | _ => cases he
  rw [(amounts_ask hs hknown hidle).2, accesses_tariff, countP_grants hseries, ite_self,
    Nat.add_zero]

end

theorem isTold_reckoning {e : Effect}
    (h : e ∈ (Reckoning.all (q.reckoning f s) records).told) : e.isTold = true := by
  obtain ⟨record, -, he⟩ := Reckoning.mem_told_all h
  exact Decision.isTold_tidings he

theorem countP_told {kind : Effect → Bool} (h : ∀ e, e.isTold = true → kind e = false) :
    (Reckoning.all (q.reckoning f s) records).told.countP kind = 0 := by
  rw [List.countP_eq_zero]
  intro e he
  simp [h e (isTold_reckoning he)]

theorem Decides.all_eq (h : q.Decides f s records ds) (rest : List Record) :
    Reckoning.all (q.reckoning f s) (records ++ rest) =
      { outcome := (Reckoning.all (q.reckoning f s) rest).outcome.map
          (List.zipWith (fun record d => q.verdict f s record d) records ds ++ ·)
        told := (records.flatMap fun record => (q.reckoning f s record).told) ++
          (Reckoning.all (q.reckoning f s) rest).told
        asks := (records.any fun record => (q.reckoning f s record).asks) ||
          (Reckoning.all (q.reckoning f s) rest).asks
        resolves := records.any (q.fallsThrough f) ||
          (Reckoning.all (q.reckoning f s) rest).resolves } :=
  Reckoning.all_append h.verdicts rest

theorem Decides.resolves (h : q.Decides f s records ds) :
    (Reckoning.all (q.reckoning f s) records).resolves = records.any (q.fallsThrough f) := by
  have hall := h.all_eq []
  rw [List.append_nil] at hall
  rw [hall]
  exact Bool.or_false _

theorem ask_unknown (i : Inquiry)
    (h : records.find? (fun record => !q.knows f record) = some record) :
    q.askBy f i records = fail (.unknownEntityType record.entityType) := by
  cases q with
  | access | accessOfRoles =>
    have hknown := List.find?_some h
    cases hknown
  | filtering account action =>
    rw [askBy, Filter.forM_unknown h]
    rfl

theorem run_ask_one (hs : ((q.grants f).run w).1 = .ok s) (record : Record) :
    ((q.ask f [record]).run w).1 = (q.single f s record).map ([·]) := by
  by_cases hknown : q.knows f record = true
  · rw [run_ask_known hs (by simpa using hknown), List.mapM_cons, List.mapM_nil]
    cases q.single f s record <;> rfl
  · have hunknown : [record].find? (fun record => !q.knows f record) = some record := by
      simp [hknown]
    rw [ask_eq, ask_unknown _ hunknown, single, if_neg hknown]
    rfl

theorem countP_marks_told (job : String) :
    (Reckoning.all (q.reckoning f s) records).told.countP (Effect.marks job) = 0 :=
  countP_told fun _ he => marks_of_isSilent job (Effect.isSilent_of_isTold he)

theorem countP_marks_grants (job : String) :
    ((q.grants f).trace w).countP (Effect.marks job) = 0 := by
  apply ((q.evaluation []).only_grants f).countP_trace
  intro e he
  cases e with
  | notify => cases he
  | _ => rfl

theorem amounts_spied (hs : ((q.grants f).run w).1 = .ok s)
    (hknown : ∀ record ∈ records, q.knows f record = true) {kind : Effect → Bool}
    (hidle : ∀ e, e.isIdle = true → kind e = false) :
    ((q.askBy f (q.spied f) records).run w).1 = (Reckoning.all (q.reckoning f s) records).outcome ∧
      ((q.askBy f (q.spied f) records).trace w).countP kind =
        (q.spiedTariff f w s kind).accesses {} (.all (q.reckoning f s) records) :=
  amounts (covers_spied hidle hs) rfl rfl hknown w (.refl w)

theorem countP_spied_le (hs : ((q.grants f).run w).1 = .ok s)
    (hknown : ∀ record ∈ records, q.knows f record = true) (job : String) :
    ((q.askBy f (q.spied f) records).trace w).countP (Effect.marks job) ≤
      [Effect.notify (.ran "admin")].countP (Effect.marks job) +
        [Effect.notify (.ran "grants")].countP (Effect.marks job) := by
  rw [(amounts_spied hs hknown (marks_of_isIdle job)).2, accesses_spiedTariff, countP_marks_told,
    countP_marks_grants]
  split <;> split <;> omega

theorem spied_once (hs : ((q.grants f).run w).1 = .ok s) (records : List Record) :
    ((q.askBy f (q.spied f) records).run w).1 = ((q.ask f records).run w).1 ∧
      ((q.askBy f (q.spied f) records).trace w).countP (Effect.marks "admin") ≤ 1 ∧
      ((q.askBy f (q.spied f) records).trace w).countP (Effect.marks "grants") ≤ 1 := by
  cases hfind : records.find? fun record => !q.knows f record with
  | some record =>
    rw [ask_eq, ask_unknown _ hfind, ask_unknown _ hfind]
    exact ⟨rfl, Nat.zero_le 1, Nat.zero_le 1⟩
  | none =>
    have hknown : ∀ record ∈ records, q.knows f record = true := by simpa using hfind
    refine ⟨?_, countP_spied_le hs hknown "admin", countP_spied_le hs hknown "grants"⟩
    rw [(amounts_spied hs hknown (marks_of_isIdle "")).1, outcome_ask hs hknown]

theorem exists_ruling (hf : f.authority.policy.IsTotal) {tags : List Value}
    (htags : record.tags = .ok tags) : ∃ d, q.ruling f s record = .ok d := by
  have hverdict : ∃ b, (q.case f record).verdict s = .ok b := by
    cases q with
    | access account action => exact Snapshot.exists_allows htags s action.name
    | accessOfRoles roles action => exact Snapshot.exists_allows htags s action.name
    | filtering account action =>
      have hvisible : f.visible s record action.name = .ok _ := f.visible_eq htags
      exact ⟨_, congrArg (Except.map fun fields : Value.Fields => !fields.isEmpty) hvisible⟩
  obtain ⟨b, hb⟩ := hverdict
  rw [ruling, Case.ruling, Policy.ruling_eq hf, Policy.precedence, hb]
  split
  · exact ⟨_, rfl⟩
  · split
    · exact ⟨_, rfl⟩
    · split <;> exact ⟨_, rfl⟩

theorem exists_decides (hf : f.authority.policy.IsTotal)
    (htags : ∀ record ∈ records, ∃ tags, record.tags = .ok tags) :
    ∃ ds, q.Decides f s records ds := by
  induction records with
  | nil => exact ⟨[], .nil⟩
  | cons record records ih =>
    obtain ⟨tags, ht⟩ := htags record List.mem_cons_self
    obtain ⟨d, hd⟩ := exists_ruling (q := q) (s := s) hf ht
    obtain ⟨ds, hds⟩ := ih fun x hx => htags x (List.mem_cons_of_mem _ hx)
    exact ⟨d :: ds, .cons hd hds⟩

theorem run_ask_total (hs : ((q.grants f).run w).1 = .ok s) (hf : f.authority.policy.IsTotal)
    (htags : ∀ record ∈ records, ∃ tags, record.tags = .ok tags) :
    ((q.ask f records).run w).1 = records.mapM (q.single f s) := by
  cases hfind : records.find? fun record => !q.knows f record with
  | none => exact run_ask_known hs (by simpa using hfind)
  | some record =>
    rw [ask_eq, ask_unknown _ hfind]
    obtain ⟨hunknown, before, after, rfl, hbefore⟩ := List.find?_eq_some_iff_append.1 hfind
    -- the first record of an unknown type is the first that fails alone
    symm
    rw [run, Outcome.mapM_eq_error_iff]
    refine ⟨before, record, after, rfl, fun x hx => ?_, ?_⟩
    · obtain ⟨tags, ht⟩ := htags x (List.mem_append_left _ hx)
      obtain ⟨d, hd⟩ := exists_ruling (q := q) (s := s) hf ht
      refine ⟨q.verdict f s x d, ?_⟩
      rw [single, if_pos (by simpa using hbefore x hx), hd]
      rfl
    · rw [single, if_neg (by simpa using hunknown)]

section

variable (hs : ((q.grants f).run w).1 = .ok s)
  (hknown : ∀ record ∈ records, q.knows f record = true)

include hs hknown

theorem verdicts_of_decides (hds : q.Decides f s records ds) :
    ∃ vs, ((q.ask f records).run w).1 = .ok vs ∧
      List.Forall₂ (fun record v => ((q.ask f [record]).run w).1 = .ok [v]) records vs := by
  have hall := hds.all_eq []
  rw [List.append_nil] at hall
  obtain ⟨vs, hvs⟩ : ∃ vs, ((q.ask f records).run w).1 = .ok vs := by
    rw [outcome_ask hs hknown, hall]
    exact ⟨_, rfl⟩
  refine ⟨vs, hvs, ?_⟩
  rw [run_ask_known hs hknown, Outcome.mapM_eq_ok_iff] at hvs
  apply hvs.imp
  intro record v hv
  rw [run_ask_one hs record, hv]
  rfl

theorem countsDecisions_of_decides (hds : q.Decides f s records ds) :
    (q.ask f records).CountsDecisions w q.entryPoint ds := by
  apply countsDecisions
  intro series hseries
  have hall := hds.all_eq []
  rw [List.append_nil] at hall
  rw [countP_ask hs hknown hseries, hall, ← hds.countP_told series]
  exact congrArg _ (List.append_nil _)

theorem countP_resolving (hds : q.Decides f s records ds) {kind : Effect → Bool}
    (hkind : ∀ e, e.isQuiet = true → kind e = false) :
    ((q.ask f records).trace w).countP kind =
      if records.any (q.fallsThrough f) then ((q.grants f).trace w).countP kind else 0 := by
  have hsilent (e : Effect) (he : e.isSilent = true) : kind e = false :=
    hkind e (Effect.isQuiet_of_isSilent e he)
  have htold : (Reckoning.all (q.reckoning f s) records).told.countP kind = 0 :=
    countP_told fun e he => hsilent e (Effect.isSilent_of_isTold he)
  have hask := (amounts_ask hs hknown fun e he => hsilent e (Effect.isSilent_of_isIdle he)).2
  rw [hask, accesses_tariff, htold, hds.resolves, Nat.zero_add]

end

theorem countP_spied_grants (hs : ((q.grants f).run w).1 = .ok s)
    (hknown : ∀ record ∈ records, q.knows f record = true) (hds : q.Decides f s records ds) :
    ((q.askBy f (q.spied f) records).trace w).countP (Effect.marks "grants") =
      if records.any (q.fallsThrough f) then 1 else 0 := by
  rw [(amounts_spied hs hknown (marks_of_isIdle "grants")).2, accesses_spiedTariff,
    countP_marks_told, hds.resolves, countP_marks_grants]
  simp [Effect.marks]

theorem fails_of_decides (hs : ((q.grants f).run w).1 = .ok s) {before after : List Record}
    (hknown : ∀ x ∈ before ++ record :: after, q.knows f x = true)
    (hds : q.Decides f s before ds) {e : Error} (he : q.ruling f s record = .error e) :
    ((q.ask f (before ++ record :: after)).run w).1 = .error e ∧
      (q.ask f (before ++ record :: after)).CountsDecisions w q.entryPoint ds := by
  have houtcome : (q.reckoning f s record).outcome = .error e := by
    rw [outcome_reckoning, he]
    rfl
  have htold : (q.reckoning f s record).told = [] := by
    change Decision.tidings _ _ ((q.ruling f s record).map some) = _
    rw [he]
    rfl
  have hrest : Reckoning.all (q.reckoning f s) (record :: after) =
      { q.reckoning f s record with outcome := .error e } := by
    rw [Reckoning.all, Reckoning.andThen, houtcome]
  have hall := hds.all_eq (record :: after)
  rw [hrest] at hall
  constructor
  · rw [outcome_ask hs hknown, hall]
    rfl
  · apply countsDecisions
    intro series hseries
    rw [countP_ask hs hknown hseries, hall, ← hds.countP_told series, htold, List.append_nil]

/-- Batches on a healthy store. As long as no predicate fails, the verdicts are those on each record
alone, every decision is counted once, and one resolution is made when some record falls through to the
rulesets, else none. A predicate that fails leaves what was decided before it counted; a record of an
unknown type fails a filtering before anything is decided. -/
theorem batch_pointwise (f : Filter) (q : Inspection) (records : List Record) (t : Tables)
    (w : World) (hw : w.Stores t) :
    ∃ s, ((q.grants f).run w).1 = .ok s ∧
      (f.authority.policy.IsTotal → (∀ record ∈ records, ∃ tags, record.tags = .ok tags) →
        (∀ record ∈ records,
          ((q.ask f [record]).run w).1 = (q.single f s record).map ([·])) ∧
        ((q.ask f records).run w).1 = records.mapM (q.single f s) ∧
        ((∀ record ∈ records, q.knows f record = true) →
          ∃ vs ds, ((q.ask f records).run w).1 = .ok vs ∧
            List.Forall₂ (fun record v => ((q.ask f [record]).run w).1 = .ok [v]) records vs ∧
            q.Decides f s records ds ∧
            (q.ask f records).CountsDecisions w q.entryPoint ds ∧
            (∀ kind, (∀ e, e.isQuiet = true → kind e = false) →
              ((q.ask f records).trace w).countP kind =
                if records.any (q.fallsThrough f) then ((q.grants f).trace w).countP kind
                else 0) ∧
            ((q.askBy f (q.spied f) records).trace w).countP (Effect.marks "grants") =
              if records.any (q.fallsThrough f) then 1 else 0)) ∧
      (∀ before record after ds e, records = before ++ record :: after →
        (∀ record ∈ records, q.knows f record = true) →
        q.Decides f s before ds → q.ruling f s record = .error e →
          ((q.ask f records).run w).1 = .error e ∧
            (q.ask f records).CountsDecisions w q.entryPoint ds) ∧
      (∀ record, records.find? (fun record => !q.knows f record) = some record →
        ((q.ask f records).run w).1 = .error (.unknownEntityType record.entityType) ∧
          (q.ask f records).CountsDecisions w q.entryPoint []) ∧
      ((q.askBy f (q.spied f) records).run w).1 = ((q.ask f records).run w).1 ∧
      ((q.askBy f (q.spied f) records).trace w).countP (Effect.marks "admin") ≤ 1 ∧
      ((q.askBy f (q.spied f) records).trace w).countP (Effect.marks "grants") ≤ 1 := by
  obtain ⟨s, hs⟩ := (q.evaluation []).run_grants f hw
  refine ⟨s, hs, fun hf htags => ?_, ?_, ?_, spied_once hs records⟩
  · refine ⟨fun record _ => run_ask_one hs record, run_ask_total hs hf htags, fun hknown => ?_⟩
    obtain ⟨ds, hds⟩ := exists_decides (q := q) (s := s) hf htags
    obtain ⟨vs, hvs, hsingle⟩ := verdicts_of_decides hs hknown hds
    exact ⟨vs, ds, hvs, hsingle, hds, countsDecisions_of_decides hs hknown hds,
      fun kind hkind => countP_resolving hs hknown hds hkind,
      countP_spied_grants hs hknown hds⟩
  · rintro before record after ds e rfl hknown hds he
    exact fails_of_decides hs hknown hds he
  · intro record hrecord
    rw [ask_eq, ask_unknown _ hrecord]
    refine ⟨rfl, countsDecisions fun series _ => rfl⟩

/-- Two notes are filtered for an account that may read the names of those with one tag. -/
theorem batch_pointwise_reading :
    let f : Filter := ⟨⟨⟨{}, ⟨fun _ => .ok false, false⟩⟩, ⟨none⟩⟩, ⟨[⟨"note", ["body", "name"]⟩]⟩⟩
    let q : Inspection := .filtering { id := "ann" } (.field .read)
    let w : World :=
      { World.initial .error (some { service := "notes" }) { path := "" } with
        ledger := ⟨Filter.reading, .none⟩ }
    let records : List Record :=
      [⟨"note", [("name", .text "draft")], .texts ["t1"]⟩,
        ⟨"note", [("name", .text "plan")], .texts []⟩]
    ((q.ask f records).run w).1 = .ok [[("name", .text "draft")], []] ∧
      (q.ask f records).CountsDecisions w "filter_batch"
        [⟨true, .rulesetAllow, ""⟩, ⟨false, .rulesetDeny, ""⟩] ∧
      ((q.askBy f (q.spied f) records).trace w).countP (Effect.marks "grants") = 1 := by
  intro f q w records
  obtain ⟨s, hs, hpointwise, -⟩ := batch_pointwise f q records Filter.reading w rfl
  have hgrants : s = ⟨"ann", Filter.reading.grantsOf "ann"⟩ :=
    Except.ok.inj (hs.symm.trans (Filter.run_grants_reading rfl))
  rw [Filter.grantsOf_reading] at hgrants
  subst hgrants
  have htotal : f.authority.policy.IsTotal := ⟨by simp [f], by simp [f], fun _ => rfl⟩
  obtain ⟨-, hrun, hcounted⟩ := hpointwise htotal (by simpa [records] using ⟨⟨_, rfl⟩, ⟨_, rfl⟩⟩)
  obtain ⟨vs, ds, -, -, hds, hcounts, -, hmarks⟩ :=
    hcounted (by simp [records, q, f, knows, Entities.has, Entities.get?])
  change List.Forall₂ _ [_, _] ds at hds
  cases hds with
  | cons hd hds =>
    cases hds with
    | cons hd' hds =>
      cases hds
      obtain rfl := Except.ok.inj hd
      obtain rfl := Except.ok.inj hd'
      exact ⟨hrun, hcounts, hmarks⟩

end Inspection

end AccessControl
