import AccessControl.Proofs.Json.RoundTrip
import AccessControl.Proofs.Outcome
import AccessControl.Proofs.Text.Instants

/-!
Rows that were cached are read back as they were.
-/

namespace AccessControl

open Columns

namespace Value

theorem Fits.mono {m n : Nat} {v : Value} (h : v.Fits m) (hmn : m ≤ n) : v.Fits n := by
  induction h generalizing n with
  | text _ s => exact .text n s
  | empty => exact .empty n
  | list _ ih =>
    obtain ⟨n, rfl⟩ : ∃ k, n = k + 1 := ⟨n - 1, by omega⟩
    exact .list fun v hv => ih v hv (by omega)
  | object hkeys _ ih =>
    obtain ⟨n, rfl⟩ : ∃ k, n = k + 1 := ⟨n - 1, by omega⟩
    exact .object hkeys fun f hf => ih f hf (by omega)

theorem fits_map {ρ : Type} {n : Nat} {f : ρ → Value} {rows : List ρ}
    (h : ∀ r ∈ rows, (f r).Fits n) : (list (rows.map f)).Fits (n + 1) := by
  refine .list fun v hv => ?_
  obtain ⟨r, hr, rfl⟩ := List.mem_map.1 hv
  exact h r hr

theorem fits_texts (n : Nat) (ss : List String) : (texts ss).Fits (n + 1) :=
  fits_map fun s _ => .text n s

theorem texts?_texts (ss : List String) : (texts ss).texts? = some ss := by
  rw [texts, texts?, List.mapM_map]
  induction ss with
  | nil => rfl
  | cons s ss ih =>
    rw [List.mapM_cons, ih]
    rfl

theorem withDefaults_object {fs defaults : Fields}
    (h : ∀ f ∈ defaults, (fs.lookup f.1).isSome) :
    (object fs).withDefaults defaults = object fs := by
  rw [withDefaults, fields, List.filter_eq_nil_iff.2, List.append_nil]
  intro f hf
  simpa using h f hf

end Value

namespace Wire

theorem finite_eq_self {n : Nat} {v : Value} (hv : v.Fits n) : finite v = v := by
  induction hv with
  | text | empty => rfl
  | @list n vs _ ih =>
    have hitems (ws : List Value) (hw : ∀ w ∈ ws, finite w = w) : finiteItems ws = ws := by
      induction ws with
      | nil => rfl
      | cons w ws ihw =>
        rw [finiteItems, hw w List.mem_cons_self, ihw fun u hu => hw u (List.mem_cons_of_mem _ hu)]
    rw [finite, hitems vs ih]
  | @object n fs _ _ ih =>
    have hfields (gs : Value.Fields) (hg : ∀ g ∈ gs, finite g.2 = g.2) : finiteFields gs = gs := by
      induction gs with
      | nil => rfl
      | cons g gs ihg =>
        rw [finiteFields, hg g List.mem_cons_self, ihg fun u hu => hg u (List.mem_cons_of_mem _ hu)]
    rw [finite, hfields fs ih]

theorem read?_write {v : Value} (hv : v.Fits depth) : read? (write v) = some v := by
  rw [read?, write, finite_eq_self hv, Json.readWithin?_print hv]

theorem time?_time {t : Instant} (ht : t.IsDated) : time? (time t) = some t := by
  rw [time, time?, Text.timestamp?_instant ht]

/-! The columns of a row. -/

theorem strict_text (s : String) : (Reading.strict time?).text (.text s) = .ok s :=
  rfl

theorem strict_texts (ss : List String) : (Reading.strict time?).texts (.texts ss) = .ok ss := by
  change (Value.texts ss).texts?.elim _ _ = _
  rw [Value.texts?_texts, Option.elim_some]

theorem strict_values (vs : List Value) : (Reading.strict time?).values (.list vs) = .ok vs :=
  rfl

theorem strict_time {t : Instant} (ht : t.IsDated) :
    (Reading.strict time?).time (time t) = .ok t := by
  simp only [Reading.strict, time?_time ht, Option.elim_some]

theorem row?_eq {ρ : Type} [Tabular ρ] {row : ρ} {now : Instant}
    (hdefaults : ∀ f ∈ Tabular.defaults ρ (time now), ((Tabular.fields time row).lookup f.1).isSome)
    (hread : Tabular.read (.strict time?) (Tabular.value time row) = .ok row) :
    row? now (Tabular.value time row) = some row := by
  rw [row?, Tabular.ofWritten?, Tabular.value, Value.withDefaults_object hdefaults]
  exact congrArg Except.toOption hread

theorem row?_roleRuleset {r : RoleRuleset} (hr : r.createdAt.IsDated) (now : Instant) :
    row? now (Tabular.value time r) = some r := by
  refine row?_eq (by simp [Tabular.defaults, Tabular.fields, List.lookup_cons]) ?_
  simp only [Tabular.read, Tabular.value, Tabular.fields, Value.demand, List.lookup_cons,
    String.reduceBEq, Option.elim_some, Outcome.ok_bind, strict_text, strict_texts,
    strict_time hr]
  rfl

theorem row?_accountRuleset {r : AccountRuleset} (hr : r.createdAt.IsDated) (now : Instant) :
    row? now (Tabular.value time r) = some r := by
  refine row?_eq (by simp [Tabular.defaults, Tabular.fields, List.lookup_cons]) ?_
  simp only [Tabular.read, Tabular.value, Tabular.fields, Value.demand, List.lookup_cons,
    String.reduceBEq, Option.elim_some, Outcome.ok_bind, strict_text, strict_texts,
    strict_time hr]
  rfl

theorem row?_entitlement {e : Entitlement} (hc : e.createdAt.IsDated) (hu : e.updatedAt.IsDated)
    (now : Instant) : row? now (Tabular.value time e) = some e := by
  refine row?_eq (by simp [Tabular.defaults, Tabular.fields, List.lookup_cons]) ?_
  simp only [Tabular.read, Tabular.value, Tabular.fields, Value.demand, List.lookup_cons,
    String.reduceBEq, Option.elim_some, Outcome.ok_bind, strict_text, strict_texts,
    strict_values, strict_time hc, strict_time hu]
  rfl

theorem rows?_map {ρ : Type} {read? : Value → Option ρ} {write : ρ → Value} {rows : List ρ}
    (h : ∀ r ∈ rows, read? (write r) = some r) : rows? read? (.list (rows.map write)) = some rows := by
  rw [rows?, List.mapM_map]
  induction rows with
  | nil => rfl
  | cons r rows ih =>
    rw [List.mapM_cons, ih fun s hs => h s (List.mem_cons_of_mem _ hs), Function.comp_apply,
      h r List.mem_cons_self]
    rfl

end Wire

namespace Rulesets

/-- The rows carry times in the years one to 9999. -/
structure IsDated (r : Rulesets) : Prop where
  role : ∀ s ∈ r.role, s.createdAt.IsDated
  account : ∀ s ∈ r.account, s.createdAt.IsDated

theorem fits_value (r : Rulesets) : r.value.Fits Wire.depth := by
  have hrole (s : RoleRuleset) : (Tabular.value Wire.time s).Fits 2 :=
    .object (by simp [Tabular.fields]) (by simp [Tabular.fields, Wire.time, Value.Fits.text,
      Value.fits_texts])
  have haccount (s : AccountRuleset) : (Tabular.value Wire.time s).Fits 2 :=
    .object (by simp [Tabular.fields]) (by simp [Tabular.fields, Wire.time, Value.Fits.text,
      Value.fits_texts])
  refine Value.Fits.mono (m := 4) (.object (by simp [fields]) ?_) (by decide)
  simp only [fields, List.forall_mem_cons, List.not_mem_nil, false_implies, implies_true, and_true]
  exact ⟨Value.fits_map fun s _ => hrole s, Value.fits_map fun s _ => haccount s⟩

theorem ofValue?_value {r : Rulesets} (hr : r.IsDated) (now : Instant) :
    ofValue? now r.value = some r := by
  have hrole := Wire.rows?_map (fun s hs => Wire.row?_roleRuleset (hr.role s hs) now)
  have haccount := Wire.rows?_map (fun s hs => Wire.row?_accountRuleset (hr.account s hs) now)
  simp only [value, ofValue?, fields, Columns.optional, Value.field?, List.lookup_cons, String.reduceBEq, hrole,
    haccount]
  rfl

theorem read?_write {r : Rulesets} (hr : r.IsDated) (now : Instant) :
    read? now (Wire.write r.value) = some r := by
  rw [read?, Wire.read?_write r.fits_value, Option.bind_some, ofValue?_value hr]

end Rulesets

namespace Entitlement

/-- The permissions are texts, and the times lie in the years one to 9999. -/
structure IsWritable (e : Entitlement) : Prop where
  permissions : ∀ v ∈ e.permissions, v.text?.isSome
  createdAt : e.createdAt.IsDated
  updatedAt : e.updatedAt.IsDated

theorem fits_listing {es : List Entitlement} (hes : ∀ e ∈ es, e.IsWritable) :
    (listing es).Fits Wire.depth := by
  refine Value.Fits.mono (m := 3) (Value.fits_map fun e he => ?_) (by decide)
  have hpermissions : (Value.list e.permissions).Fits 1 := by
    refine .list fun v hv => ?_
    cases v with
    | text s => exact .text 0 s
    | _ => cases (hes e he).permissions _ hv
  exact .object (by simp [Tabular.fields]) (by simp [Tabular.fields, Wire.time, Value.Fits.text,
    Value.fits_texts, hpermissions])

theorem readAll?_write {es : List Entitlement} (hes : ∀ e ∈ es, e.IsWritable) (now : Instant) :
    readAll? now (Wire.write (listing es)) = some es := by
  rw [readAll?, Wire.read?_write (fits_listing hes), Option.bind_some]
  refine Wire.rows?_map fun e he => ?_
  rw [ofWire?, Wire.row?_entitlement (hes e he).createdAt (hes e he).updatedAt,
    Option.filter_some, List.all_eq_true.2 (hes e he).permissions, if_pos rfl]

end Entitlement

end AccessControl
