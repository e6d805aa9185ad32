import AccessControl.Proofs.Cache.Wire

/-!
The JSON that cached rows are read from: which columns a row must have, which of them may be
missing, and what they hold.
-/

namespace AccessControl

open Columns

theorem Outcome.exists_ok_bind {ε α β : Type} {x : Except ε α} {f : α → Except ε β}
    {Q : β → Prop} : (∃ b, (x >>= f) = .ok b ∧ Q b) ↔ ∃ a, x = .ok a ∧ ∃ b, f a = .ok b ∧ Q b := by
  simp only [bind_eq_ok_iff]
  constructor
  · rintro ⟨b, ⟨a, ha, hb⟩, hq⟩
    exact ⟨a, ha, b, hb, hq⟩
  · rintro ⟨a, ha, b, hb, hq⟩
    exact ⟨b, ⟨a, ha, hb⟩, hq⟩

theorem Outcome.exists_ok_pure {ε α : Type} {a : α} {Q : α → Prop} :
    (∃ b, (pure a : Except ε α) = .ok b ∧ Q b) ↔ Q a := by
  simp [pure, Except.pure]

theorem isSome_mapM {α β : Type} {f : α → Option β} {xs : List α} :
    (xs.mapM f).isSome ↔ ∀ x ∈ xs, (f x).isSome := by
  induction xs with
  | nil => simp
  | cons x xs ih =>
    rw [List.mapM_cons, List.forall_mem_cons, ← ih]
    cases f x with
    | none => simp
    | some b => cases xs.mapM f <;> simp

namespace Wire

/-! ### Columns -/

inductive Column where
  | text
  | texts
  | time

inductive Column.Admits : Column → Value → Prop
  | text (s : String) : Admits .text (.text s)
  | texts {vs : List Value} (h : ∀ v ∈ vs, v.text?.isSome) : Admits .texts (.list vs)
  | time {v : Value} (h : (time? v).isSome) : Admits .time v

def Holds (v : Value) (c : String × Column) : Prop :=
  ∃ w, v.demand c.1 = .ok w ∧ c.2.Admits w

variable {v w : Value} {now : Instant}

theorem exists_text : (∃ s, (Reading.strict time?).text w = .ok s) ↔ Column.text.Admits w := by
  constructor
  · rintro ⟨s, hs⟩
    cases w with
    | text t => exact .text t
    | _ => cases hs
  · rintro ⟨s⟩
    exact ⟨s, strict_text s⟩

theorem exists_elim_ok {α : Type} {x : Option α} :
    (∃ a, (x.elim (.error .misfit) .ok : Except Error α) = .ok a) ↔ x.isSome := by
  cases x <;> simp

theorem exists_texts : (∃ ss, (Reading.strict time?).texts w = .ok ss) ↔ Column.texts.Admits w := by
  rw [Reading.strict, exists_elim_ok]
  constructor
  · intro h
    cases w with
    | list vs => exact .texts (isSome_mapM.mp h)
    | _ => cases h
  · rintro ⟨⟩
    apply isSome_mapM.mpr
    assumption

theorem exists_values : (∃ vs, (Reading.strict time?).values w = .ok vs ∧
    vs.all (·.text?.isSome)) ↔ Column.texts.Admits w := by
  constructor
  · rintro ⟨vs, hvs, htexts⟩
    cases w with
    | list ws =>
      obtain rfl : ws = vs := Except.ok.inj hvs
      exact .texts (List.all_eq_true.mp htexts)
    | _ => cases hvs
  · rintro ⟨⟩
    exact ⟨_, strict_values _, List.all_eq_true.mpr (by assumption)⟩

theorem exists_time : (∃ t, (Reading.strict time?).time w = .ok t) ↔ Column.time.Admits w := by
  rw [Reading.strict, exists_elim_ok]
  constructor
  · exact Column.Admits.time
  · rintro ⟨⟩
    assumption

/-! ### Rows -/

/-- The columns of a row that must be there, all of them texts, and those that may be missing. -/
structure Layout where
  required : List String
  defaulted : List (String × Column)

namespace Layout

def columns (l : Layout) : List (String × Column) :=
  l.required.map (·, .text) ++ l.defaulted

/-- A row is an object whose columns hold what they may. Fields that are no columns do no harm. -/
structure Admits (l : Layout) (v : Value) : Prop where
  object : v.kind = .object
  required : ∀ name ∈ l.required, ∃ s, v.field? name = some (.text s)
  defaulted : ∀ c ∈ l.defaulted, ∀ w, v.field? c.1 = some w → c.2.Admits w

end Layout

theorem lookup_filter_fst {β : Type} (p : String → Bool) (name : String) (ds : List (String × β)) :
    (ds.filter fun d => p d.1).lookup name = if p name then ds.lookup name else none := by
  induction ds with
  | nil => simp
  | cons d ds ih =>
    obtain ⟨k, b⟩ := d
    by_cases hk : name = k
    · subst hk
      by_cases hp : p name
      · simp [hp]
      · simp [hp, ih]
    · have hne : (name == k) = false := by simpa using hk
      by_cases hp : p k
      · simp [List.lookup_cons, hp, hne, ih]
      · simp [List.lookup_cons, hp, hne, ih]

theorem demand_withDefaults {ds : Value.Fields} {name : String} :
    (v.withDefaults ds).demand name = .ok w ↔
      v.field? name = some w ∨ v.field? name = none ∧ ds.lookup name = some w := by
  have hfield : v.field? name = v.fields.lookup name := by cases v <;> rfl
  have hfill := lookup_filter_fst (fun k => (v.fields.lookup k).isNone) name ds
  rw [hfield, Value.withDefaults, Value.demand, List.lookup_append, hfill]
  cases v.fields.lookup name with
  | some u => simp
  | none => cases ds.lookup name <;> simp

structure Layout.Describes (l : Layout) (ρ : Type) [Tabular ρ] (accepted : ρ → Prop) : Prop where
  reads : ∀ v, (∃ r : ρ, Tabular.read (.strict time?) v = .ok r ∧ accepted r) ↔
    ∀ c ∈ l.columns, Holds v c
  nonempty : l.required ≠ []
  required : ∀ now, ∀ name ∈ l.required, (Tabular.defaults ρ now).lookup name = none
  defaulted : ∀ now : Instant, now.IsDated → ∀ c ∈ l.defaulted, ∃ w,
    (Tabular.defaults ρ (time now)).lookup c.1 = some w ∧ c.2.Admits w

section Describes

variable {ρ : Type} [Tabular ρ] {l : Layout} {accepted : ρ → Prop}

theorem holds_required (h : l.Describes ρ accepted) {name : String} (hname : name ∈ l.required) :
    Holds (v.withDefaults (Tabular.defaults ρ (time now))) (name, .text) ↔
      ∃ s, v.field? name = some (.text s) := by
  simp only [Holds, demand_withDefaults, h.required (time now) name hname]
  constructor
  · rintro ⟨w, hw | ⟨-, ⟨⟩⟩, ⟨s⟩⟩
    exact ⟨s, hw⟩
  · rintro ⟨s, hs⟩
    exact ⟨.text s, .inl hs, .text s⟩

theorem holds_defaulted (h : l.Describes ρ accepted) (hnow : now.IsDated) {c : String × Column}
    (hc : c ∈ l.defaulted) : Holds (v.withDefaults (Tabular.defaults ρ (time now))) c ↔
      ∀ w, v.field? c.1 = some w → c.2.Admits w := by
  obtain ⟨d, hd, hadmits⟩ := h.defaulted now hnow c hc
  simp only [Holds, demand_withDefaults, hd]
  cases hfield : v.field? c.1 with
  | none => simp [hadmits]
  | some u => simp

theorem exists_row?_iff (h : l.Describes ρ accepted) (hnow : now.IsDated) :
    (∃ r : ρ, row? now v = some r ∧ accepted r) ↔ l.Admits v := by
  have hrow (r : ρ) : row? now v = some r ↔
      Tabular.read (.strict time?) (v.withDefaults (Tabular.defaults ρ (time now))) = .ok r := by
    rw [row?, Tabular.ofWritten?]
    cases (Tabular.read (.strict time?) _ : Except Error ρ) <;> simp [Except.toOption]
  simp only [hrow, h.reads, Layout.columns, List.forall_mem_append, List.forall_mem_map]
  constructor
  · rintro ⟨hrequired, hdefaulted⟩
    have htext (name : String) (hname : name ∈ l.required) :=
      (holds_required h hname).mp (hrequired name hname)
    refine ⟨?_, htext, fun c hc => (holds_defaulted h hnow hc).mp (hdefaulted c hc)⟩
    obtain ⟨name, hname⟩ := List.exists_mem_of_ne_nil _ h.nonempty
    obtain ⟨s, hs⟩ := htext name hname
    cases v with
    | object fs => rfl
    | _ => cases hs
  · rintro ⟨-, hrequired, hdefaulted⟩
    exact ⟨fun name hname => (holds_required h hname).mpr (hrequired name hname),
      fun c hc => (holds_defaulted h hnow hc).mpr (hdefaulted c hc)⟩

theorem isSome_row?_iff (h : l.Describes ρ fun _ => True) (hnow : now.IsDated) :
    (row? now v : Option ρ).isSome ↔ l.Admits v := by
  rw [← exists_row?_iff h hnow, Option.isSome_iff_exists]
  simp only [and_true]

end Describes

/-! ### The rows that are cached -/

def roleRulesets : Layout where
  required := ["id", "role", "entitlement", "target_attribute"]
  defaulted :=
    [("name", .text), ("description", .text), ("feature_scopes", .texts), ("created_at", .time)]

def accountRulesets : Layout where
  required := ["id", "account", "entitlement", "target_attribute"]
  defaulted := [("feature_scopes", .texts), ("created_at", .time)]

def entitlements : Layout where
  required := ["id", "name", "group"]
  defaulted :=
    [("description", .text), ("applies_to", .texts), ("features", .texts),
     ("default_feature_scopes", .texts), ("created_at", .time), ("updated_at", .time),
     ("permissions", .texts)]

theorem exists_and_and_right {α : Type} {p q : α → Prop} {b : Prop} :
    (∃ a, p a ∧ q a ∧ b) ↔ (∃ a, p a ∧ q a) ∧ b := by
  simp only [← and_assoc, exists_and_right]

theorem exists_and_and_left {α : Type} {p q : α → Prop} {b : Prop} :
    (∃ a, p a ∧ b ∧ q a) ↔ b ∧ ∃ a, p a ∧ q a := by
  simp only [and_left_comm, exists_and_left]

theorem admits_nil : Column.texts.Admits (.list []) :=
  .texts (by simp)

theorem admits_time (hnow : now.IsDated) : Column.time.Admits (time now) :=
  .time (by rw [time?_time hnow, Option.isSome_some])

theorem describes_roleRulesets : roleRulesets.Describes RoleRuleset fun _ => True where
  reads v := by
    simp only [Tabular.read, Outcome.exists_ok_bind, Outcome.exists_ok_pure, exists_and_right,
      exists_text, exists_texts, exists_time, exists_and_and_right]
    simp [Layout.columns, roleRulesets, Holds]
  nonempty := by simp [roleRulesets]
  required now := by
    simp [roleRulesets, Tabular.defaults, List.lookup_cons]
  defaulted now hnow := by
    simp [roleRulesets, Tabular.defaults, List.lookup_cons, Column.Admits.text, admits_nil,
      admits_time hnow]

theorem describes_accountRulesets : accountRulesets.Describes AccountRuleset fun _ => True where
  reads v := by
    simp only [Tabular.read, Outcome.exists_ok_bind, Outcome.exists_ok_pure, exists_and_right,
      exists_text, exists_texts, exists_time, exists_and_and_right]
    simp [Layout.columns, accountRulesets, Holds]
  nonempty := by simp [accountRulesets]
  required now := by
    simp [accountRulesets, Tabular.defaults, List.lookup_cons]
  defaulted now hnow := by
    simp [accountRulesets, Tabular.defaults, List.lookup_cons, admits_nil, admits_time hnow]

theorem describes_entitlements :
    entitlements.Describes Entitlement fun e => e.permissions.all (·.text?.isSome) where
  reads v := by
    simp only [Tabular.read, Outcome.exists_ok_bind, Outcome.exists_ok_pure, exists_and_right,
      exists_text, exists_texts, exists_time, exists_values, exists_and_and_right,
      exists_and_and_left]
    simp [Layout.columns, entitlements, Holds]
  nonempty := by simp [entitlements]
  required now := by
    simp [entitlements, Tabular.defaults, List.lookup_cons]
  defaulted now hnow := by
    simp [entitlements, Tabular.defaults, List.lookup_cons, Column.Admits.text, admits_nil,
      admits_time hnow]

def Layout.AdmitsAll (l : Layout) (v : Value) : Prop :=
  ∃ rows, v = .list rows ∧ ∀ row ∈ rows, l.Admits row

theorem isSome_rows?_iff {ρ : Type} {l : Layout} {read? : Value → Option ρ}
    (h : ∀ row, (read? row).isSome ↔ l.Admits row) : (rows? read? v).isSome ↔ l.AdmitsAll v := by
  cases v with
  | list rows =>
    rw [rows?, isSome_mapM]
    simp only [h]
    constructor
    · intro hrows
      exact ⟨rows, rfl, hrows⟩
    · rintro ⟨rows, ⟨⟩, hrows⟩
      exact hrows
  | _ => simp [rows?, Layout.AdmitsAll]

theorem isSome_optional_iff {α : Type} {read? : Value → Option α} {default : α} {name : String} :
    (Columns.optional read? default v name).isSome ↔
      ∀ w, v.field? name = some w → (read? w).isSome := by
  rw [Columns.optional]
  cases v.field? name <;> simp

end Wire

/-- The JSON of rulesets. A list that is missing is as good as one without rows. -/
structure Rulesets.IsShaped (v : Value) : Prop where
  object : v.kind = .object
  role : ∀ w, v.field? "role_rulesets" = some w → Wire.roleRulesets.AdmitsAll w
  account : ∀ w, v.field? "account_rulesets" = some w → Wire.accountRulesets.AdmitsAll w

def Rulesets.IsReadable (text : String) : Prop :=
  ∃ v, Wire.read? text = some v ∧ IsShaped v

def Entitlement.AllReadable (text : String) : Prop :=
  ∃ v, Wire.read? text = some v ∧ Wire.entitlements.AdmitsAll v

variable {now : Instant}

theorem Rulesets.isSome_mk {role : Option (List RoleRuleset)}
    {account : Option (List AccountRuleset)} :
    (do return ({ role := ← role, account := ← account } : Rulesets)).isSome ↔
      role.isSome ∧ account.isSome := by
  cases role <;> cases account <;> simp

theorem Rulesets.isSome_ofValue?_iff (hnow : now.IsDated) {v : Value} :
    (ofValue? now v).isSome ↔ IsShaped v := by
  have hobject (fs : Value.Fields) : (ofValue? now (.object fs)).isSome ↔
      (∀ w, (Value.object fs).field? "role_rulesets" = some w → Wire.roleRulesets.AdmitsAll w) ∧
        ∀ w, (Value.object fs).field? "account_rulesets" = some w →
          Wire.accountRulesets.AdmitsAll w := by
    rw [ofValue?, isSome_mk, Wire.isSome_optional_iff, Wire.isSome_optional_iff]
    simp only [Wire.isSome_rows?_iff fun _ => Wire.isSome_row?_iff Wire.describes_roleRulesets hnow,
      Wire.isSome_rows?_iff fun _ => Wire.isSome_row?_iff Wire.describes_accountRulesets hnow]
  constructor
  · intro h
    cases v with
    | object fs =>
      obtain ⟨hrole, haccount⟩ := (hobject fs).mp h
      exact ⟨rfl, hrole, haccount⟩
    | _ => cases h
  · rintro ⟨hkind, hrole, haccount⟩
    cases v with
    | object fs => exact (hobject fs).mpr ⟨hrole, haccount⟩
    | _ => cases hkind

theorem Rulesets.isSome_read?_iff (hnow : now.IsDated) {text : String} :
    (read? now text).isSome ↔ IsReadable text := by
  rw [read?, IsReadable]
  cases Wire.read? text with
  | none => simp
  | some v => simp [isSome_ofValue?_iff hnow]

theorem Entitlement.isSome_readAll?_iff (hnow : now.IsDated) {text : String} :
    (readAll? now text).isSome ↔ AllReadable text := by
  have hrow (row : Value) : (ofWire? now row).isSome ↔ Wire.entitlements.Admits row := by
    rw [← Wire.exists_row?_iff Wire.describes_entitlements hnow, ofWire?,
      Option.isSome_iff_exists]
    simp only [Option.filter_eq_some_iff]
  rw [readAll?, AllReadable]
  cases Wire.read? text with
  | none => simp
  | some v => simp [Wire.isSome_rows?_iff hrow]

end AccessControl
