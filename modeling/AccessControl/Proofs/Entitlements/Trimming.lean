import AccessControl.Proofs.Entitlements.Validation
import AccessControl.Proofs.Pipe.Provided
import AccessControl.Proofs.Program.Accesses

/-!
Rules for entity types outside the limit of an entitlement. They are reported when a definition is
built, and leaving them out changes no answer.
-/

namespace AccessControl

open Permission (Rule)
open Store

namespace Capability

variable {c c' : Capability}

def Bears (c : Capability) (r : Rule) : Prop :=
  r.entityType = wildcard ∨ r.entityType ∈ c.entityTypes

theorem Bears.of_covers {r : Rule} {entityType action : String} {property : Option String}
    (hlimit : c.entityTypes ≠ []) (hconcerns : c.concerns entityType = true)
    (h : r.Covers entityType action property) : c.Bears r := by
  have hmem : entityType ∈ c.entityTypes := (concerns_iff.1 hconcerns).resolve_left hlimit
  have hfits := h.entityType
  simp only [Permission.fits, Bool.or_eq_true, decide_eq_true_eq] at hfits
  rcases hfits with hwildcard | rfl
  · exact .inl hwildcard
  · exact .inr hmem

theorem allows_of_bearing {entityType action : String} {property : Option String}
    {fields : Option (List String)} (htypes : c'.entityTypes = c.entityTypes)
    (hlimit : c.entityTypes ≠ []) (hrules : ∀ r ∈ c.rules, c.Bears r → r ∈ c'.rules)
    (h : c.allows entityType action property fields = true) :
    c'.allows entityType action property fields = true := by
  obtain ⟨hconcerns, hknown, r, hr, hrule⟩ := allows_iff.1 h
  have hbears : c.Bears r := by
    rcases hrule with hwildcard | hcovers
    · exact .inl hwildcard
    · exact .of_covers hlimit hconcerns hcovers
  have hconcerns' : c'.concerns entityType = true := by
    rwa [concerns_iff, htypes, ← concerns_iff]
  exact allows_iff.2 ⟨hconcerns', hknown, r, hrules r hr hbears, hrule⟩

theorem equivalent_of_bearing (hlimit : c.entityTypes ≠ []) {rules : List Rule}
    (hrules : ∀ r, c.Bears r → (r ∈ c.rules ↔ r ∈ rules)) : c.Equivalent { c with rules } where
  allows entityType action property fields := by
    have hto : ∀ r ∈ c.rules, c.Bears r → r ∈ ({ c with rules } : Capability).rules :=
      fun r hr hbears => (hrules r hbears).1 hr
    have hfrom : ∀ r ∈ rules, ({ c with rules } : Capability).Bears r → r ∈ c.rules :=
      fun r hr hbears => (hrules r hbears).2 hr
    rw [Bool.eq_iff_iff]
    exact ⟨allows_of_bearing rfl hlimit hto, allows_of_bearing rfl hlimit hfrom⟩
  unlocks _ _ := rfl

end Capability

namespace Entitlements

def warned : Effect → List String
  | .record line =>
    if line.level = .warning ∧ line.logger = Definition.logger then
      ((line.fields.lookup "rules").bind Value.texts?).getD []
    else []
  | _ => []

namespace Definition

/-- The strings that are reported when a definition is built. -/
def reported (d : Definition) (w : World) : List String :=
  (d.entitlement.trace w).flatMap warned

def without (d : Definition) (raws : List String) : Definition :=
  { d with permissions := d.permissions.filter fun v => v.text?.all fun raw => !raws.contains raw }

def capability (d : Definition) (name : String) (rules : List Rule) : Capability where
  name := name
  group := d.group
  entityTypes := Text.distinct d.appliesTo
  rules := rules
  features := d.features
  defaultFeatureScopes := d.defaultFeatureScopes

end Definition

variable {d : Definition} {name : String} {rules : List Rule}

theorem check_eq_ok {d : Definition} : d.check = .ok (name, rules) ↔
    d.name? = .ok name ∧ List.Forall₂ (fun v r => Rule.ofValue v = .ok r) d.permissions rules := by
  rw [Definition.check, Definition.rules, Permission.rules, ← Outcome.mapM_eq_ok_iff]
  cases d.name? with
  | error e => simp [bind, Except.bind]
  | ok n => cases d.permissions.mapM Rule.ofValue <;> simp [bind, Except.bind, pure, Except.pure]

theorem ofEntitlement_eq_ok {e : Entitlement} {c : Capability} :
    Capability.ofEntitlement e = .ok c ↔ e.capability? = some c := by
  rw [Entitlement.capability?]
  cases Capability.ofEntitlement e <;> simp [Except.toOption]

theorem capability?_row (h : d.check = .ok (name, rules)) (id : String) (now : Instant) :
    (d.row id name now).capability? = some (d.capability name rules) :=
  Entitlement.capability?_eq_some_iff.2 ⟨rfl, rfl, rfl, (check_eq_ok.1 h).2, rfl, rfl⟩

theorem indistinct_stored (t : Tables) {e e' : Entitlement} (hname : e'.name = e.name)
    {c c' : Capability} (hc : e.capability? = some c) (hc' : e'.capability? = some c')
    (h : c.Equivalent c') (old old' : Option Entitlement) :
    (t.after (.putEntitlement (renewed e old))).Indistinct
      (t.after (.putEntitlement (renewed e' old'))) := by
  have hcapability (e : Entitlement) (old : Option Entitlement) :
      (renewed e old).capability? = e.capability? := by
    cases old <;> rfl
  have hrenewed : (renewed e' old').name = (renewed e old).name := by
    cases old <;> cases old' <;> exact hname
  have hequivalent := t.equivalent_putEntitlement hrenewed ((hcapability e old).trans hc)
    ((hcapability e' old').trans hc') h
  exact hequivalent.indistinct

/-! ### What is reported -/

theorem ofValue_eq_ok {v : Value} {r : Rule} :
    Rule.ofValue v = .ok r ↔ ∃ raw, v = .text raw ∧ Rule.parse raw = .ok r := by
  cases v with
  | text raw =>
    rw [Permission.ofValue_eq_ok_iff, ← Permission.parse_eq_ok_iff_denotes]
    simp
  | _ => simp [Rule.ofValue]

theorem mem_inert_iff (hlimit : d.appliesTo ≠ []) (h : d.check = .ok (name, rules)) {raw : String} :
    raw ∈ d.inert rules ↔ .text raw ∈ d.permissions ∧ ∃ r, Rule.parse raw = .ok r ∧
      r.entityType ≠ wildcard ∧ r.entityType ∉ d.appliesTo := by
  obtain ⟨hlength, hzip⟩ := List.forall₂_iff_zip.1 (check_eq_ok.1 h).2
  have hsome : d.appliesTo.isEmpty = false := by simpa using hlimit
  simp only [Definition.inert, hsome, Bool.false_eq_true, if_false, List.mem_filterMap, Prod.exists,
    ← not_or]
  constructor
  · rintro ⟨v, r, hp, hraw⟩
    obtain ⟨s, rfl, hparse⟩ := ofValue_eq_ok.1 (hzip hp)
    by_cases hbears : r.entityType = wildcard ∨ r.entityType ∈ d.appliesTo
    · rw [if_pos hbears] at hraw
      cases hraw
    · rw [if_neg hbears] at hraw
      obtain rfl := Option.some.inj hraw
      exact ⟨(List.of_mem_zip hp).1, r, hparse, hbears⟩
  · rintro ⟨hmem, r, hparse, hbears⟩
    have hplace : .text raw ∈ (d.permissions.zip rules).map Prod.fst := by
      rwa [List.map_fst_zip (Nat.le_of_eq hlength)]
    obtain ⟨⟨v, r'⟩, hp, hv⟩ := List.mem_map.1 hplace
    obtain rfl : v = .text raw := hv
    obtain ⟨s, hs, hparse'⟩ := ofValue_eq_ok.1 (hzip hp)
    obtain rfl := Value.text.inj hs
    obtain rfl : r' = r := Except.ok.inj (hparse'.symm.trans hparse)
    exact ⟨.text raw, r', hp, if_neg hbears⟩

theorem inert_eq_nil (h : ∀ r ∈ rules, r.entityType = wildcard ∨ r.entityType ∈ d.appliesTo) :
    d.inert rules = [] := by
  rw [Definition.inert, List.filterMap_eq_nil_iff.2, ite_self]
  rintro ⟨v, r⟩ hp
  exact if_pos (h r (List.of_mem_zip hp).2)

theorem reported_eq (h : d.check = .ok (name, rules)) (w : World) :
    d.reported w = d.inert rules := by
  rw [Definition.reported, Definition.entitlement, h]
  change List.flatMap warned (Program.trace (d.warnInert name rules >>= _) w) = _
  rw [Definition.warnInert]
  cases d.inert rules with
  | nil => rfl
  | cons raw raws =>
    have htexts : (Value.texts (raw :: raws)).texts? = some (raw :: raws) := Value.texts?_texts _
    change ((List.lookup "rules" _).bind Value.texts?).getD [] ++ [] = _
    rw [List.append_nil]
    exact congrArg (Option.getD · []) htexts

/-! ### What is left -/

theorem check_without (hlimit : d.appliesTo ≠ []) (h : d.check = .ok (name, rules)) :
    ∃ kept, (d.without (d.inert rules)).check = .ok (name, kept) ∧
      ∀ r, r ∈ kept ↔ r ∈ rules ∧ (r.entityType = wildcard ∨ r.entityType ∈ d.appliesTo) := by
  obtain ⟨hname, hread⟩ := check_eq_ok.1 h
  obtain ⟨hlength, hzip⟩ := List.forall₂_iff_zip.1 hread
  have hread' : List.Forall₂ (fun v r => v ∈ d.permissions ∧ Rule.ofValue v = .ok r) d.permissions
      rules :=
    List.forall₂_iff_zip.2 ⟨hlength, fun hp => ⟨(List.of_mem_zip hp).1, hzip hp⟩⟩
  have hkept := List.rel_filter
    (p := fun v => v.text?.all fun raw => !(d.inert rules).contains raw)
    (q := fun r => decide (r.entityType = wildcard ∨ r.entityType ∈ d.appliesTo))
    (fun v r hvr => ?_) hread'
  · refine ⟨_, check_eq_ok.2 ⟨hname, hkept.imp fun _ _ hvr => hvr.2⟩, fun r => ?_⟩
    rw [List.mem_filter, decide_eq_true_eq]
  · obtain ⟨hmem, hv⟩ := hvr
    obtain ⟨raw, rfl, hparse⟩ := ofValue_eq_ok.1 hv
    simp [Value.text?, mem_inert_iff hlimit h, hmem, hparse, or_iff_not_imp_left]

/-- Leaving out what a build reports as outside the limit. What is left can be built, nothing of it is
reported, and either definition gives the same answer to every question; so with either one stored
whatever is evaluated or streamed comes to the same. -/
theorem reported_rules_are_inert (d : Definition) (hlimit : d.appliesTo ≠ []) {u u' : World}
    {e : Entitlement} (hbuild : d.entitlement.run u = (.ok e, u')) (w : World) :
    (∀ raw, raw ∈ d.reported u ↔ .text raw ∈ d.permissions ∧ ∃ r, Rule.parse raw = .ok r ∧
      r.entityType ≠ wildcard ∧ r.entityType ∉ d.appliesTo) ∧
    ∃ e' w', (d.without (d.reported u)).entitlement.run w = (.ok e', w') ∧
      (d.without (d.reported u)).reported w = [] ∧
      (∃ c c', Capability.ofEntitlement e = .ok c ∧ Capability.ofEntitlement e' = .ok c' ∧
        (∀ entityType action property fields, c.allows entityType action property fields =
          c'.allows entityType action property fields) ∧
        (∀ entityType, c.allowsCreation entityType = c'.allowsCreation entityType) ∧
        ∀ feature scope, c.unlocks feature scope = c'.unlocks feature scope) ∧
      ∀ (t : Tables) old old', (t.after (.putEntitlement (renewed e old))).Indistinct
        (t.after (.putEntitlement (renewed e' old'))) := by
  obtain ⟨name, rules, hcheck, rfl⟩ := check_of_build hbuild
  obtain ⟨kept, hkept, hmem⟩ := check_without hlimit hcheck
  rw [reported_eq hcheck]
  obtain ⟨w', hrun, -⟩ := run_entitlement hkept w
  have hequivalent : (d.capability name rules).Equivalent (d.capability name kept) := by
    obtain ⟨first, hfirst⟩ := List.exists_mem_of_ne_nil _ hlimit
    apply Capability.equivalent_of_bearing
    · exact List.ne_nil_of_mem (Text.mem_distinct.2 hfirst)
    · intro r hbears
      simp only [Capability.Bears, Definition.capability, Text.mem_distinct] at hbears
      simp only [Definition.capability, hmem, hbears, and_true]
  have hrow := capability?_row hcheck (identifier u.minted) u.clock
  have hrow' := capability?_row hkept (identifier w.minted) w.clock
  have hname : ((d.without (d.inert rules)).row (identifier w.minted) name w.clock).name =
      (d.row (identifier u.minted) name u.clock).name := rfl
  refine ⟨fun raw => mem_inert_iff hlimit hcheck, _, w', hrun, ?_, ⟨_, _, ofEntitlement_eq_ok.2 hrow,
    ofEntitlement_eq_ok.2 hrow', hequivalent.allows, hequivalent.allowsCreation,
    hequivalent.unlocks⟩, fun t => indistinct_stored t hname hrow hrow' hequivalent⟩
  rw [reported_eq hkept]
  exact inert_eq_nil fun r hr => ((hmem r).1 hr).2

def limited : Definition := { exporter with appliesTo := ["curve"] }

theorem reported_rules_are_inert_limited :
    let w := World.initial .error none { path := "" }
    limited.reported w = ["role:read:name"] ∧
      ∃ e e' v v', limited.entitlement.run w = (.ok e, v) ∧
        (limited.without ["role:read:name"]).entitlement.run w = (.ok e', v') ∧
        e'.permissions = [.text "curve:read"] ∧
        ∀ t : Tables, (t.after (.putEntitlement e)).Indistinct (t.after (.putEntitlement e')) := by
  intro w
  have hcheck : limited.check = .ok ("exporter\n", [⟨"curve", "read", "*"⟩, ⟨"role", "read", "name"⟩]) :=
    rfl
  have hreported : limited.reported w = ["role:read:name"] := reported_eq hcheck w
  obtain ⟨v, hrun, -⟩ := run_entitlement hcheck w
  obtain ⟨-, e', v', hrun', -, -, hstored⟩ :=
    reported_rules_are_inert limited (by decide) hrun w
  rw [hreported] at hrun'
  obtain ⟨_, _, -, rfl⟩ := check_of_build hrun'
  exact ⟨hreported, _, _, v, v', hrun, hrun', rfl, fun t => hstored t none none⟩

end Entitlements

end AccessControl
