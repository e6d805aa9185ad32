import AccessControl.Capability

/-!
Capabilities and the rules that they are made of. A capability with a rule for every entity type
does not look at its rules one by one; what this changes, and what it keeps.
-/

namespace AccessControl

open Permission (Rule fits)

variable {entityType action : String} {property : Option String} {fields : Option (List String)}

namespace Permission

def IsKnown (property : Option String) (fields : Option (List String)) : Prop :=
  ∀ name ∈ property, name ∈ fields.getD []

structure Rule.Covers (r : Rule) (entityType action : String) (property : Option String) :
    Prop where
  entityType : fits r.entityType entityType = true
  action : fits r.action action = true
  property : ∀ name ∈ property, fits r.property name = true

theorem isKnown_none : IsKnown none fields := by
  intro name hname
  cases hname

theorem IsKnown.mono {more : Option (List String)} (h : IsKnown property fields)
    (hmore : ∀ name ∈ fields.getD [], name ∈ more.getD []) : IsKnown property more :=
  fun name hname => hmore name (h name hname)

theorem fits_wildcard (name : String) : fits wildcard name = true := by
  simp [fits]

theorem fits_self (name : String) : fits name name = true := by
  simp [fits]

theorem Rule.covers_all : Rule.all.Covers entityType action property :=
  ⟨fits_wildcard _, fits_wildcard _, fun name _ => fits_wildcard name⟩

theorem Rule.Covers.without_property {r : Rule} (h : r.Covers entityType action property) :
    r.Covers entityType action none := by
  refine ⟨h.entityType, h.action, ?_⟩
  intro name hname
  cases hname

theorem Rule.allows_iff {r : Rule} :
    r.allows entityType action property fields = true ↔
      IsKnown property fields ∧ r.Covers entityType action property := by
  constructor
  · intro h
    simp only [Rule.allows, Bool.and_eq_true] at h
    obtain ⟨⟨ht, ha⟩, hp⟩ := h
    cases property with
    | none => exact ⟨isKnown_none, ht, ha, by simp⟩
    | some name =>
      simp only [Bool.and_eq_true, List.contains_iff_mem] at hp
      exact ⟨by simp [IsKnown, hp.1], ht, ha, by simp [hp.2]⟩
  · rintro ⟨hknown, ht, ha, hp⟩
    simp only [Rule.allows, Bool.and_eq_true]
    refine ⟨⟨ht, ha⟩, ?_⟩
    cases property with
    | none => rfl
    | some name =>
      simp only [Bool.and_eq_true, List.contains_iff_mem]
      exact ⟨hknown name rfl, hp name rfl⟩

end Permission

open Permission (IsKnown isKnown_none)

namespace Capability

variable {c : Capability}

def allowsByRules (c : Capability) (entityType action : String) (property : Option String)
    (fields : Option (List String)) : Bool :=
  c.concerns entityType && c.rules.any (·.allows entityType action property fields)

theorem concerns_iff :
    c.concerns entityType = true ↔ c.entityTypes = [] ∨ entityType ∈ c.entityTypes := by
  simp [concerns]

theorem permissive_iff : c.permissive = true ↔ ∃ r ∈ c.rules, r.entityType = wildcard := by
  simp [permissive]

theorem allowsByRules_iff :
    c.allowsByRules entityType action property fields = true ↔
      c.concerns entityType = true ∧ IsKnown property fields ∧
        ∃ r ∈ c.rules, r.Covers entityType action property := by
  simp only [allowsByRules, Bool.and_eq_true, List.any_eq_true, Rule.allows_iff]
  constructor
  · rintro ⟨hconcerns, r, hr, hknown, hcovers⟩
    exact ⟨hconcerns, hknown, r, hr, hcovers⟩
  · rintro ⟨hconcerns, hknown, r, hr, hcovers⟩
    exact ⟨hconcerns, r, hr, hknown, hcovers⟩

theorem allows_iff_of_permissive (h : c.permissive = true) :
    c.allows entityType action property fields = true ↔
      c.concerns entityType = true ∧ IsKnown property fields := by
  simp only [allows, h, if_true, Bool.and_eq_true]
  refine and_congr_right fun _ => ?_
  cases property with
  | none => simp [IsKnown]
  | some name => cases fields <;> simp [IsKnown]

theorem allows_eq_of_narrow (h : ∀ r ∈ c.rules, r.entityType ≠ wildcard) :
    c.allows entityType action property fields =
      c.allowsByRules entityType action property fields := by
  have hpermissive : c.permissive = false := by
    rw [Bool.eq_false_iff, Ne, permissive_iff]
    rintro ⟨r, hr, hwildcard⟩
    exact h r hr hwildcard
  simp only [allows, hpermissive, allowsByRules]
  rfl

theorem allows_iff :
    c.allows entityType action property fields = true ↔
      c.concerns entityType = true ∧ IsKnown property fields ∧
        ∃ r ∈ c.rules, r.entityType = wildcard ∨ r.Covers entityType action property := by
  by_cases hpermissive : ∃ r ∈ c.rules, r.entityType = wildcard
  · obtain ⟨r, hr, hwildcard⟩ := hpermissive
    rw [allows_iff_of_permissive (permissive_iff.mpr ⟨r, hr, hwildcard⟩)]
    constructor
    · rintro ⟨hconcerns, hknown⟩
      exact ⟨hconcerns, hknown, r, hr, .inl hwildcard⟩
    · rintro ⟨hconcerns, hknown, -⟩
      exact ⟨hconcerns, hknown⟩
  · have hnarrow : ∀ r ∈ c.rules, r.entityType ≠ wildcard :=
      fun r hr hwildcard => hpermissive ⟨r, hr, hwildcard⟩
    rw [allows_eq_of_narrow hnarrow, allowsByRules_iff]
    constructor
    · rintro ⟨hconcerns, hknown, r, hr, hcovers⟩
      exact ⟨hconcerns, hknown, r, hr, .inr hcovers⟩
    · rintro ⟨hconcerns, hknown, r, hr, hwildcard | hcovers⟩
      · exact absurd hwildcard (hnarrow r hr)
      · exact ⟨hconcerns, hknown, r, hr, hcovers⟩

/-- The shortcut never denies what the rules grant. It grants no more when there is no rule for
every entity type, or one for everything; and nothing without rules, outside the limit, or on a
property that is not known. -/
theorem shortcut_agrees (c : Capability) (entityType action : String) (property : Option String)
    (fields : Option (List String)) :
    ((∃ r ∈ c.rules, r.allows entityType action property fields = true) →
      c.entityTypes = [] ∨ entityType ∈ c.entityTypes →
      c.allows entityType action property fields = true) ∧
    ((∀ r ∈ c.rules, r.entityType ≠ wildcard) ∨ Rule.all ∈ c.rules →
      c.allows entityType action property fields =
        c.allowsByRules entityType action property fields) ∧
    (c.rules = [] → c.allows entityType action property fields = false) ∧
    (c.entityTypes ≠ [] → entityType ∉ c.entityTypes →
      c.allows entityType action property fields = false) ∧
    ∀ name, property = some name → name ∉ fields.getD [] →
      c.allows entityType action property fields = false := by
  refine ⟨?_, ?_, ?_, ?_, ?_⟩
  · rintro ⟨r, hr, hallows⟩ hconcerns
    obtain ⟨hknown, hcovers⟩ := Rule.allows_iff.mp hallows
    exact allows_iff.mpr ⟨concerns_iff.mpr hconcerns, hknown, r, hr, .inr hcovers⟩
  · rintro (hnarrow | hall)
    · exact allows_eq_of_narrow hnarrow
    -- the rule for everything covers what is asked for, so the rules allow what the shortcut does
    · rw [Bool.eq_iff_iff, allows_iff, allowsByRules_iff]
      constructor
      · rintro ⟨hconcerns, hknown, -⟩
        exact ⟨hconcerns, hknown, Rule.all, hall, Rule.covers_all⟩
      · rintro ⟨hconcerns, hknown, r, hr, hcovers⟩
        exact ⟨hconcerns, hknown, r, hr, .inr hcovers⟩
  · intro hnone
    rw [Bool.eq_false_iff, Ne, allows_iff]
    simp [hnone]
  · intro hlimit houtside
    rw [Bool.eq_false_iff, Ne, allows_iff, concerns_iff]
    simp [hlimit, houtside]
  · rintro name rfl hunknown
    rw [Bool.eq_false_iff, Ne, allows_iff]
    rintro ⟨-, hknown, -⟩
    exact hunknown (hknown name rfl)

def mixed : Capability := ⟨"mixed", "", ["curve"], [⟨wildcard, "read", "points"⟩, .all], [], []⟩

theorem shortcut_agrees_mixed :
    mixed.allows "curve" "delete" none none = true ∧
    mixed.allows "curve" "delete" (some "id") (some ["id"]) =
      mixed.allowsByRules "curve" "delete" (some "id") (some ["id"]) ∧
    { mixed with rules := [] }.allows "curve" "delete" none none = false ∧
    mixed.allows "role" "delete" none none = false ∧
    mixed.allows "curve" "read" (some "points") (some ["id"]) = false := by
  refine ⟨?_, ?_, ?_, ?_, ?_⟩
  · exact (shortcut_agrees mixed _ _ _ _).1 ⟨.all, by decide, by decide⟩ (.inr (by decide))
  · exact (shortcut_agrees mixed _ _ _ _).2.1 (.inr (by decide))
  · exact (shortcut_agrees { mixed with rules := [] } _ _ _ _).2.2.1 rfl
  · exact (shortcut_agrees mixed _ _ _ _).2.2.2.1 (by decide) (by decide)
  · exact (shortcut_agrees mixed _ _ _ _).2.2.2.2 "points" rfl (by decide)

end Capability

end AccessControl
