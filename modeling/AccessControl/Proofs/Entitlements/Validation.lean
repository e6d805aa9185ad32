import AccessControl.Entitlements
import AccessControl.Proofs.Permission.Parsing
import AccessControl.Proofs.Program.Running
import AccessControl.Proofs.Text.Order

/-!
Which definitions are valid, what their rows are, and that nothing comes of an invalid one.
-/

namespace AccessControl.Entitlements

open Permission (Rule Denotes)

def IsProperName (name : String) : Prop :=
  name ≠ "" ∧ ∀ c ∈ name.toList, 'a' ≤ c ∧ c ≤ 'z' ∨ '0' ≤ c ∧ c ≤ '9' ∨ c = '-'

/-- A name that passes: a line feed may end it. -/
def PassesAsName (name : String) : Prop :=
  IsProperName name ∨ ∃ line, IsProperName line ∧ name = line ++ "\n"

structure IsFirsts (firsts all : List String) : Prop where
  nodup : firsts.Nodup
  mem : ∀ s, s ∈ firsts ↔ s ∈ all
  order : firsts.Pairwise fun s t => all.idxOf s < all.idxOf t

theorem isFirsts_distinct (names : List String) : IsFirsts (Text.distinct names) names :=
  ⟨Text.nodup_distinct names, fun _ => Text.mem_distinct, Text.pairwise_distinct names⟩

/-! ### Names -/

theorem isNameChar_iff {c : Char} :
    isNameChar c = true ↔ 'a' ≤ c ∧ c ≤ 'z' ∨ '0' ≤ c ∧ c ≤ '9' ∨ c = '-' := by
  simp [isNameChar, or_assoc]

theorem isProperName_ofList {line : List Char} :
    IsProperName (String.ofList line) ↔ line ≠ [] ∧ ∀ c ∈ line, isNameChar c = true := by
  simp [IsProperName, isNameChar_iff]

variable {d : Definition} {name : String} {raws : List String}

theorem isName_iff : isName name.toList = true ↔ PassesAsName name := by
  obtain ⟨s, rfl⟩ : ∃ s, name = String.ofList s := ⟨name.toList, String.ofList_toList.symm⟩
  have hproper (line : List Char) :
      (!line.isEmpty && line.all isNameChar) = true ↔ IsProperName (String.ofList line) := by
    simp [isProperName_ofList]
  rw [String.toList_ofList]
  unfold isName
  by_cases hfeed : s.getLast? = some '\n'
  · obtain ⟨line, rfl⟩ := List.getLast?_eq_some_iff.mp hfeed
    have htext : String.ofList (line ++ ['\n']) = String.ofList line ++ "\n" :=
      String.ofList_append
    simp only [hfeed, if_true, List.dropLast_concat, hproper]
    constructor
    · intro h
      exact .inr ⟨_, h, htext⟩
    · rintro (h | ⟨line', h, heq⟩)
      · have hchar := (isProperName_ofList.mp h).2 '\n' (by simp)
        exact absurd hchar (by decide)
      · rw [htext] at heq
        rwa [(String.append_left_inj _).mp heq]
  · simp only [hfeed, if_false, hproper]
    constructor
    · exact .inl
    · rintro (h | ⟨line, -, heq⟩)
      · exact h
      · have hs := congrArg String.toList heq
        rw [String.toList_ofList, String.toList_append] at hs
        exact absurd (by simp [hs]) hfeed

/-! ### Definitions of texts -/

theorem check_of_bad_name (hname : d.name = .text name) (h : ¬ PassesAsName name) :
    d.check = .error (.invalidEntitlementName name) := by
  have hbad : isName name.toList = false := Bool.eq_false_iff.mpr (mt isName_iff.mp h)
  simp only [Definition.check, Definition.name?, hname, hbad]
  rfl

theorem check_of_passes (hname : d.name = .text name) (hraws : d.permissions = raws.map .text)
    (h : PassesAsName name) : d.check = (Permission.rules (raws.map .text)).map (name, ·) := by
  have hgood : isName name.toList = true := isName_iff.mpr h
  simp only [Definition.check, Definition.name?, Definition.rules, hname, hraws, hgood]
  cases Permission.rules (raws.map .text) <;> rfl

theorem check_eq_ok_iff (hname : d.name = .text name) (hraws : d.permissions = raws.map .text)
    {n : String} {rules : List Rule} :
    d.check = .ok (n, rules) ↔ n = name ∧ PassesAsName name ∧ List.Forall₂ Denotes raws rules := by
  by_cases h : PassesAsName name
  · rw [check_of_passes hname hraws h, ← Permission.rules_eq_ok_iff]
    cases Permission.rules (raws.map .text) with
    | error e => simp [Except.map]
    | ok rules => simp [Except.map, h, eq_comm]
  · rw [check_of_bad_name hname h]
    simp [h]

theorem exists_rules_iff :
    (∃ rules, List.Forall₂ Denotes raws rules) ↔ ∀ raw ∈ raws, ∃ rule, Denotes raw rule := by
  induction raws with
  | nil => simp
  | cons raw raws ih =>
    rw [List.forall_mem_cons, ← ih]
    constructor
    · rintro ⟨_, hrule | ⟨hrule, hrules⟩⟩
      exact ⟨⟨_, hrule⟩, _, hrules⟩
    · rintro ⟨⟨rule, hrule⟩, rules, hrules⟩
      exact ⟨rule :: rules, .cons hrule hrules⟩

theorem check_of_malformed (hname : d.name = .text name) (hraws : d.permissions = raws.map .text)
    (h : PassesAsName name) {before after : List String} {raw : String}
    (hsplit : raws = before ++ raw :: after)
    (hbefore : ∀ earlier ∈ before, ∃ rule, Denotes earlier rule)
    (hraw : ∀ rule, ¬ Denotes raw rule) :
    ∃ flaw, Rule.parse raw = .error flaw ∧ d.check = .error (.malformedPermission raw flaw) := by
  cases hparse : Rule.parse raw with
  | ok rule => exact absurd (Permission.parse_eq_ok_iff_denotes.mp hparse) (hraw rule)
  | error flaw =>
    have hvalue : Rule.ofValue (.text raw) = .error (.malformedPermission raw flaw) := by
      rw [Rule.ofValue, hparse]
      rfl
    have hrules : Permission.rules (raws.map .text) = .error (.malformedPermission raw flaw) :=
      Permission.rules_eq_error_iff.mpr ⟨before, raw, after, hsplit, hbefore, hvalue⟩
    refine ⟨flaw, rfl, ?_⟩
    rw [check_of_passes hname hraws h, hrules]
    rfl

/-! ### Runs -/

/-- A definition is refused at once: nothing is asked of what surrounds the engine, nothing waits
and nobody is told. -/
structure IsRefused (d : Definition) (e : Error) (w : World) : Prop where
  entitlement : d.entitlement.run w = (.error e, w)
  declare : ∀ c, Program.run (declare d c) w = (.ok (.error e, c), w)
  register : ∀ c, Program.run (register d c) w = (.ok (.error e, c), w)

theorem isRefused_of_check {e : Error} (h : d.check = .error e) (w : World) : IsRefused d e w := by
  have hfail : d.entitlement = .fail e := by
    rw [Definition.entitlement, h]
    rfl
  constructor
  · rw [hfail]
    rfl
  · intro c
    rw [declare, hfail]
    rfl
  · intro c
    rw [register, hfail]
    rfl

/-- The table, the counters and the notices are as before. -/
structure IsUntouched (w v : World) : Prop where
  ledger : v.ledger = w.ledger
  counters : v.counters = w.counters
  heard : v.heard = w.heard

theorem run_entitlement {rules : List Rule} (h : d.check = .ok (name, rules)) (w : World) :
    ∃ v, d.entitlement.run w = (.ok (d.row (identifier w.minted) name w.clock), v) ∧
      IsUntouched w v := by
  rw [Definition.entitlement, h]
  change ∃ v, Program.run (d.warnInert name rules >>= _) w = _ ∧ _
  rw [Program.run_bind, Definition.warnInert]
  cases d.inert rules with
  | nil => exact ⟨_, rfl, rfl, rfl, rfl⟩
  | cons raw raws => exact ⟨_, rfl, rfl, rfl, rfl⟩

theorem check_of_build {e : Entitlement} {u u' : World} (h : d.entitlement.run u = (.ok e, u')) :
    ∃ name rules, d.check = .ok (name, rules) ∧ e = d.row (identifier u.minted) name u.clock := by
  cases hcheck : d.check with
  | error x =>
    rw [(isRefused_of_check hcheck u).entitlement] at h
    cases h
  | ok x =>
    obtain ⟨name, rules⟩ := x
    obtain ⟨v, hrun, -⟩ := run_entitlement hcheck u
    rw [hrun] at h
    exact ⟨name, rules, rfl, (Except.ok.inj (Prod.mk.inj h).1).symm⟩

theorem row_of_run_entitlement (hname : d.name = .text name)
    (hraws : d.permissions = raws.map .text) {e : Entitlement} {v w : World}
    (h : d.entitlement.run w = (.ok e, v)) :
    ∃ rules, d.check = .ok (name, rules) ∧ e = d.row (identifier w.minted) name w.clock := by
  obtain ⟨n, rules, hcheck, he⟩ := check_of_build h
  obtain ⟨rfl, -⟩ := (check_eq_ok_iff hname hraws).mp hcheck
  exact ⟨rules, hcheck, he⟩

theorem exists_run_entitlement_iff (hname : d.name = .text name)
    (hraws : d.permissions = raws.map .text) (w : World) :
    (∃ e v, d.entitlement.run w = (.ok e, v)) ↔
      PassesAsName name ∧ ∀ raw ∈ raws, ∃ rule, Denotes raw rule := by
  constructor
  · rintro ⟨e, v, h⟩
    obtain ⟨rules, hcheck, -⟩ := row_of_run_entitlement hname hraws h
    obtain ⟨-, hpasses, hrules⟩ := (check_eq_ok_iff hname hraws).mp hcheck
    exact ⟨hpasses, exists_rules_iff.mp ⟨rules, hrules⟩⟩
  · rintro ⟨hpasses, hall⟩
    obtain ⟨rules, hrules⟩ := exists_rules_iff.mpr hall
    have hcheck := (check_eq_ok_iff hname hraws).mpr ⟨rfl, hpasses, hrules⟩
    obtain ⟨v, hrun, -⟩ := run_entitlement hcheck w
    exact ⟨_, v, hrun⟩

theorem onBacklog_enqueue (c : Entitlements) (job : Job Registration) :
    onBacklog (Backlog.enqueue job) c =
      if c.backlog.flushed then .done (.error .catalogSealed, c)
      else .done (.ok (), { c with backlog.queue := c.backlog.queue ++ [job] }) := by
  obtain ⟨⟨phase, queue⟩, listeners, listing⟩ := c
  cases phase <;> rfl

theorem run_declare_error {c c' : Entitlements} {e : Error} {v w : World}
    (h : Program.run (declare d c) w = (.ok (.error e, c'), v)) : c' = c ∧ IsUntouched w v := by
  cases hcheck : d.check with
  | error x =>
    rw [(isRefused_of_check hcheck w).declare c] at h
    simp only [Prod.mk.injEq, Except.ok.injEq] at h
    obtain ⟨⟨-, rfl⟩, rfl⟩ := h
    exact ⟨rfl, rfl, rfl, rfl⟩
  | ok x =>
    obtain ⟨n, rules⟩ := x
    obtain ⟨u, hrun, huntouched⟩ := run_entitlement hcheck w
    rw [declare, Stateful.run_bind, Stateful.run_lift, hrun] at h
    simp only [Stateful.run_bind, onBacklog_enqueue] at h
    split_ifs at h with hflushed
    · simp only [Program.run, Prod.mk.injEq, Except.ok.injEq] at h
      obtain ⟨⟨-, rfl⟩, rfl⟩ := h
      exact ⟨rfl, huntouched⟩
    · cases h

/-- A definition is valid iff its name passes and all its permissions are rules; its row is as it
was given, but names each entity type once. One that is not valid is refused for its name, or else
for the first permission that is no rule. Nothing comes of a definition that is refused, nor of one
that is declared too late. -/
theorem validates (d : Definition) (name : String) (raws : List String)
    (hname : d.name = .text name) (hraws : d.permissions = raws.map .text) (w : World) :
    ((∃ e v, d.entitlement.run w = (.ok e, v)) ↔
      PassesAsName name ∧ ∀ raw ∈ raws, ∃ rule, Denotes raw rule) ∧
    (∀ e v, d.entitlement.run w = (.ok e, v) →
      e.name = name ∧ e.permissions = raws.map .text ∧ e.features = d.features ∧
        e.defaultFeatureScopes = d.defaultFeatureScopes ∧ IsFirsts e.appliesTo d.appliesTo) ∧
    (¬ PassesAsName name → IsRefused d (.invalidEntitlementName name) w) ∧
    (∀ before raw after, PassesAsName name → raws = before ++ raw :: after →
      (∀ earlier ∈ before, ∃ rule, Denotes earlier rule) → (∀ rule, ¬ Denotes raw rule) →
      ∃ flaw, Rule.parse raw = .error flaw ∧ IsRefused d (.malformedPermission raw flaw) w) ∧
    ∀ c e c' v, Program.run (declare d c) w = (.ok (.error e, c'), v) →
      c' = c ∧ IsUntouched w v := by
  refine ⟨exists_run_entitlement_iff hname hraws w, ?_, ?_, ?_, fun _ _ _ _ => run_declare_error⟩
  · intro e v h
    obtain ⟨-, -, rfl⟩ := row_of_run_entitlement hname hraws h
    exact ⟨rfl, hraws, rfl, rfl, isFirsts_distinct d.appliesTo⟩
  · intro h
    exact isRefused_of_check (check_of_bad_name hname h) w
  · intro before raw after hpasses hsplit hbefore hraw
    obtain ⟨flaw, hflaw, hcheck⟩ := check_of_malformed hname hraws hpasses hsplit hbefore hraw
    exact ⟨flaw, hflaw, isRefused_of_check hcheck w⟩

def exporter : Definition where
  name := .text "exporter\n"
  description := ""
  group := ""
  appliesTo := ["curve", "role", "curve"]
  permissions := [.text "curve:read", .text "role:read:name"]

theorem validates_exporter :
    let w := World.initial .error none { path := "" }
    ¬ IsProperName "exporter\n" ∧ ∃ e v, exporter.entitlement.run w = (.ok e, v) ∧
      e.name = "exporter\n" ∧ IsFirsts e.appliesTo ["curve", "role", "curve"] := by
  intro w
  have himproper : ¬ IsProperName "exporter\n" := by
    rintro ⟨-, h⟩
    exact absurd (h '\n' (by decide)) (by decide)
  have hline : IsProperName "exporter" := by
    simp [IsProperName]
  obtain ⟨haccepts, hrow, -⟩ :=
    validates exporter "exporter\n" ["curve:read", "role:read:name"] rfl rfl w
  have hrules : ∀ raw ∈ ["curve:read", "role:read:name"], ∃ rule, Denotes raw rule := by
    simp only [← Permission.parse_eq_ok_iff_denotes, List.forall_mem_cons]
    exact ⟨⟨⟨"curve", "read", "*"⟩, by decide⟩, ⟨⟨"role", "read", "name"⟩, by decide⟩, by simp⟩
  obtain ⟨e, v, hrun⟩ := haccepts.mpr ⟨.inr ⟨"exporter", hline, rfl⟩, hrules⟩
  obtain ⟨hname, -, -, -, hfirsts⟩ := hrow e v hrun
  exact ⟨himproper, e, v, hrun, hname, hfirsts⟩

end AccessControl.Entitlements
