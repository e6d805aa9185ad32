import AccessControl.Proofs.Permission.Matching
import Mathlib.Logic.Relation

/-!
Capabilities whose rules are widened step by step. One step may make the capability permissive, so
that the rules are no longer looked at; it allows no less than before all the same.
-/

namespace AccessControl

open Permission (Rule isKnown_none)

namespace Permission

/-- One more rule somewhere among others, or the wildcard in place of one segment of a rule. -/
inductive Widening : List Rule → List Rule → Prop
  | rule (before after : List Rule) (r : Rule) :
      Widening (before ++ after) (before ++ r :: after)
  | entityType (before after : List Rule) (r : Rule) :
      Widening (before ++ r :: after) (before ++ { r with entityType := wildcard } :: after)
  | action (before after : List Rule) (r : Rule) :
      Widening (before ++ r :: after) (before ++ { r with action := wildcard } :: after)
  | property (before after : List Rule) (r : Rule) :
      Widening (before ++ r :: after) (before ++ { r with property := wildcard } :: after)

/-- Another rule does as much as a rule. -/
structure Rule.IsWithin (r s : Rule) : Prop where
  everywhere : r.entityType = wildcard → s.entityType = wildcard
  covers : ∀ entityType action property,
    r.Covers entityType action property → s.Covers entityType action property

theorem Rule.isWithin_self (r : Rule) : r.IsWithin r :=
  ⟨id, fun _ _ _ => id⟩

theorem Rule.IsWithin.trans {r s t : Rule} (hrs : r.IsWithin s) (hst : s.IsWithin t) :
    r.IsWithin t :=
  ⟨hst.everywhere ∘ hrs.everywhere, fun _ _ _ => hst.covers _ _ _ ∘ hrs.covers _ _ _⟩

theorem Rule.isWithin_entityType (r : Rule) : r.IsWithin { r with entityType := wildcard } := by
  refine ⟨fun _ => rfl, ?_⟩
  intro entityType action property h
  exact ⟨fits_wildcard _, h.action, h.property⟩

theorem Rule.isWithin_action (r : Rule) : r.IsWithin { r with action := wildcard } := by
  refine ⟨id, ?_⟩
  intro entityType action property h
  exact ⟨h.entityType, fits_wildcard _, h.property⟩

theorem Rule.isWithin_property (r : Rule) : r.IsWithin { r with property := wildcard } := by
  refine ⟨id, ?_⟩
  intro entityType action property h
  exact ⟨h.entityType, h.action, fun name _ => fits_wildcard name⟩

theorem exists_isWithin_of_replaced {before after : List Rule} {old new : Rule}
    (hwithin : old.IsWithin new) {r : Rule} (hr : r ∈ before ++ old :: after) :
    ∃ s ∈ before ++ new :: after, r.IsWithin s := by
  rcases List.mem_append.mp hr with hbefore | hr
  · exact ⟨r, List.mem_append_left _ hbefore, r.isWithin_self⟩
  rcases List.mem_cons.mp hr with rfl | hafter
  · exact ⟨new, by simp, hwithin⟩
  · exact ⟨r, by simp [hafter], r.isWithin_self⟩

theorem Widening.exists_isWithin {rules wider : List Rule} (h : Widening rules wider) {r : Rule}
    (hr : r ∈ rules) : ∃ s ∈ wider, r.IsWithin s := by
  cases h with
  | rule before after added =>
    refine ⟨r, ?_, r.isWithin_self⟩
    rcases List.mem_append.mp hr with hbefore | hafter
    · exact List.mem_append_left _ hbefore
    · exact List.mem_append_right _ (List.mem_cons_of_mem _ hafter)
  | entityType before after old => exact exists_isWithin_of_replaced old.isWithin_entityType hr
  | action before after old => exact exists_isWithin_of_replaced old.isWithin_action hr
  | property before after old => exact exists_isWithin_of_replaced old.isWithin_property hr

theorem exists_isWithin_of_widened {rules wider : List Rule}
    (h : Relation.ReflTransGen Widening rules wider) {r : Rule} (hr : r ∈ rules) :
    ∃ s ∈ wider, r.IsWithin s := by
  induction h with
  | refl => exact ⟨r, hr, r.isWithin_self⟩
  | tail _ hstep ih =>
    obtain ⟨s, hs, hrs⟩ := ih
    obtain ⟨t, ht, hst⟩ := hstep.exists_isWithin hs
    exact ⟨t, ht, hrs.trans hst⟩

theorem Rule.allows_literal {r : Rule} {known : List String} (h : r.property ∈ known) :
    r.allows r.entityType r.action (some r.property) (some known) = true := by
  refine Rule.allows_iff.mpr ⟨?_, fits_self _, fits_self _, ?_⟩
  · rintro _ ⟨⟩
    exact h
  · rintro _ ⟨⟩
    exact fits_self _

end Permission

open Permission (Widening)

namespace Capability

variable {c wider : Capability} {entityType action : String} {property : Option String}
  {fields more : Option (List String)}

theorem allows_without_property (h : c.allows entityType action property fields = true) :
    c.allows entityType action none more = true := by
  obtain ⟨hconcerns, -, r, hr, hrule⟩ := allows_iff.mp h
  refine allows_iff.mpr ⟨hconcerns, isKnown_none, r, hr, ?_⟩
  exact hrule.imp_right Rule.Covers.without_property

theorem allows_wider (htypes : wider.entityTypes = c.entityTypes)
    (hrules : Relation.ReflTransGen Widening c.rules wider.rules)
    (hmore : ∀ name ∈ fields.getD [], name ∈ more.getD [])
    (h : c.allows entityType action property fields = true) :
    wider.allows entityType action property more = true := by
  obtain ⟨hconcerns, hknown, r, hr, hrule⟩ := allows_iff.mp h
  have hconcerns' : wider.concerns entityType = true := by
    rw [concerns_iff] at hconcerns ⊢
    rwa [htypes]
  obtain ⟨s, hs, hwithin⟩ := Permission.exists_isWithin_of_widened hrules hr
  -- a rule that has become one for every entity type is never looked at again, nor need it be
  refine allows_iff.mpr ⟨hconcerns', hknown.mono hmore, s, hs, ?_⟩
  exact hrule.imp hwithin.everywhere (hwithin.covers _ _ _)

/-- A capability is monotone: what it allows on a property it allows on the record, and it allows
no less when its rules are widened or more fields are known. Each rule allows what it literally
says. -/
theorem allows_monotone :
    (∀ (c : Capability) entityType action property fields more,
      c.allows entityType action property fields = true →
      c.allows entityType action none more = true) ∧
    (∀ (c wider : Capability) entityType action property fields more,
      wider.entityTypes = c.entityTypes →
      Relation.ReflTransGen Widening c.rules wider.rules →
      (∀ name ∈ fields.getD [], name ∈ more.getD []) →
      c.allows entityType action property fields = true →
      wider.allows entityType action property more = true) ∧
    ∀ (r : Rule) (known : List String), r.property ∈ known →
      r.allows r.entityType r.action (some r.property) (some known) = true :=
  ⟨fun _ _ _ _ _ _ => allows_without_property, fun _ _ _ _ _ _ _ => allows_wider,
    fun _ _ => Rule.allows_literal⟩

def reader : Capability := ⟨"reader", "", [], [⟨"curve", "read", "points"⟩], [], []⟩

def coarse : Capability :=
  { reader with rules := [⟨"role", "read", "name"⟩, ⟨wildcard, "read", "points"⟩] }

theorem allows_monotone_coarse :
    reader.allows "curve" "read" none none = true ∧
    coarse.allows "curve" "read" (some "points") (some ["id", "points"]) = true ∧
    Rule.allows ⟨"curve", "read", "points"⟩ "curve" "read" (some "points") (some ["points"]) =
      true := by
  have hreader : reader.allows "curve" "read" (some "points") (some ["points"]) = true := by decide
  have hsteps : Relation.ReflTransGen Widening reader.rules coarse.rules := by
    have hnarrow : Widening reader.rules [⟨wildcard, "read", "points"⟩] :=
      .entityType [] [] ⟨"curve", "read", "points"⟩
    exact .tail (.single hnarrow) (.rule [] [⟨wildcard, "read", "points"⟩] ⟨"role", "read", "name"⟩)
  obtain ⟨hrecord, hwider, hliteral⟩ := allows_monotone
  refine ⟨hrecord reader _ _ _ _ none hreader, ?_, hliteral _ _ (by decide)⟩
  exact hwider reader coarse _ _ _ _ _ rfl hsteps (by decide) hreader

end Capability

end AccessControl
