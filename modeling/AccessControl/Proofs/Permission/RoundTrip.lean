import AccessControl.Proofs.Permission.Parsing

/-!
Rules written and read again. A rule has up to three texts: with all its segments, without a
property that is the wildcard, and the wildcard alone for the rule for everything. The shortest one
is written.
-/

namespace AccessControl.Permission

def IsWord (part : String) : Prop :=
  IsSegment part ∧ ':' ∉ part.toList

structure Rule.IsWritable (rule : Rule) : Prop where
  entityType : IsWord rule.entityType
  action : IsWord rule.action
  property : IsWord rule.property

/-- A text that says more than its rule needs. -/
def IsVerbose (raw : String) : Prop :=
  raw = "*:*" ∨ ∃ t a, parts raw = [t, a, wildcard]

variable {raw t a p : String} {rule : Rule}

/-! ### Parts and their text -/

theorem colon_notMem_of_mem_splitOn {cs s : List Char} (h : s ∈ cs.splitOn ':') : ':' ∉ s := by
  induction cs generalizing s with
  | nil => simp_all
  | cons c cs ih =>
    rw [List.splitOn_cons_eq_if_modifyHead] at h
    obtain ⟨first, others, hsplit⟩ := List.exists_cons_of_ne_nil (List.splitOn_ne_nil ':' cs)
    rw [hsplit] at h ih
    by_cases hc : c = ':'
    · simp only [hc, beq_self_eq_true, if_true, List.mem_cons] at h
      rcases h with rfl | h
      · simp
      · exact ih (List.mem_cons.mpr h)
    · simp only [beq_iff_eq, hc, if_false, List.modifyHead_cons, List.mem_cons] at h
      rcases h with rfl | h
      · have hfirst := ih List.mem_cons_self
        simp [Ne.symm hc, hfirst]
      · exact ih (List.mem_cons_of_mem _ h)

theorem parts_eq_iff {ss : List String} (hss : ss ≠ []) :
    parts raw = ss ↔ raw = ":".intercalate ss ∧ ∀ s ∈ ss, ':' ∉ s.toList := by
  constructor
  · rintro rfl
    constructor
    · apply String.toList_inj.mp
      rw [String.toList_intercalate, parts, List.map_map]
      simp [Function.comp_def]
    · intro s hs
      obtain ⟨cs, hcs, rfl⟩ := List.mem_map.mp hs
      simpa using colon_notMem_of_mem_splitOn hcs
  · rintro ⟨rfl, hcolon⟩
    rw [parts, String.toList_intercalate]
    have hsplit : (":".toList.intercalate (ss.map String.toList)).splitOn ':' =
        ss.map String.toList := by
      apply List.splitOn_intercalate
      · simpa using hcolon
      · simpa using hss
    rw [hsplit]
    simp [Function.comp_def]

theorem parts_eq_pair_iff :
    parts raw = [t, a] ↔ raw = t ++ ":" ++ a ∧ ':' ∉ t.toList ∧ ':' ∉ a.toList := by
  rw [parts_eq_iff (by simp)]
  simp [String.intercalate_cons_cons, String.append_assoc]

theorem parts_eq_triple_iff :
    parts raw = [t, a, p] ↔
      raw = t ++ ":" ++ a ++ ":" ++ p ∧ ':' ∉ t.toList ∧ ':' ∉ a.toList ∧ ':' ∉ p.toList := by
  rw [parts_eq_iff (by simp)]
  simp [String.intercalate_cons_cons, String.append_assoc]

/-! ### The texts of a rule -/

theorem isWord_wildcard : IsWord wildcard := by
  have hflaw : segmentFlaw? ['*'] = none := by decide
  exact ⟨segmentFlaw?_eq_none_iff.mp hflaw, by decide⟩

theorem isWritable_all : Rule.all.IsWritable :=
  ⟨isWord_wildcard, isWord_wildcard, isWord_wildcard⟩

theorem denotes_iff :
    Denotes raw rule ↔ rule.IsWritable ∧
      (rule = .all ∧ raw = wildcard ∨
        rule.property = wildcard ∧ raw = rule.entityType ++ ":" ++ rule.action ∨
        raw = rule.entityType ++ ":" ++ rule.action ++ ":" ++ rule.property) := by
  constructor
  · rintro (h | ⟨h, ht, ha⟩ | ⟨h, ht, ha, hp⟩)
    · exact ⟨isWritable_all, .inl ⟨rfl, h⟩⟩
    · obtain ⟨hraw, htc, hac⟩ := parts_eq_pair_iff.mp h
      exact ⟨⟨⟨ht, htc⟩, ⟨ha, hac⟩, isWord_wildcard⟩, .inr (.inl ⟨rfl, hraw⟩)⟩
    · obtain ⟨hraw, htc, hac, hpc⟩ := parts_eq_triple_iff.mp h
      exact ⟨⟨⟨ht, htc⟩, ⟨ha, hac⟩, ⟨hp, hpc⟩⟩, .inr (.inr hraw)⟩
  · obtain ⟨t, a, p⟩ := rule
    rintro ⟨⟨⟨ht, htc⟩, ⟨ha, hac⟩, hp, hpc⟩, ⟨h, hraw⟩ | ⟨h, hraw⟩ | hraw⟩
    · rw [h]
      exact .all hraw
    · obtain rfl : p = wildcard := h
      exact .pair (parts_eq_pair_iff.mpr ⟨hraw, htc, hac⟩) ht ha
    · exact .triple (parts_eq_triple_iff.mpr ⟨hraw, htc, hac, hpc⟩) ht ha hp

theorem Denotes.isWritable (h : Denotes raw rule) : rule.IsWritable :=
  (denotes_iff.mp h).1

theorem Denotes.unique {other : Rule} (h : Denotes raw rule) (hother : Denotes raw other) :
    rule = other := by
  rw [← parse_eq_ok_iff_denotes] at h hother
  exact Except.ok.inj (h.symm.trans hother)

theorem format_of_ne_all (hall : rule ≠ .all) (hp : rule.property = wildcard) :
    rule.format = rule.entityType ++ ":" ++ rule.action := by
  rw [Rule.format, if_neg hall, if_pos hp]

theorem format_of_property (hp : rule.property ≠ wildcard) :
    rule.format = rule.entityType ++ ":" ++ rule.action ++ ":" ++ rule.property := by
  have hall : rule ≠ .all := fun h => hp (h ▸ rfl)
  rw [Rule.format, if_neg hall, if_neg hp]

theorem denotes_format (h : rule.IsWritable) : Denotes rule.format rule := by
  rw [denotes_iff]
  refine ⟨h, ?_⟩
  by_cases hall : rule = .all
  · exact .inl ⟨hall, if_pos hall⟩
  by_cases hp : rule.property = wildcard
  · exact .inr (.inl ⟨hp, format_of_ne_all hall hp⟩)
  · exact .inr (.inr (format_of_property hp))

/-! ### Verbose texts -/

theorem parts_stars : parts "*:*" = [wildcard, wildcard] := by
  decide

theorem not_isVerbose_wildcard : ¬ IsVerbose wildcard := by
  rintro (h | ⟨_, _, h⟩)
  · exact absurd h (by decide)
  · simp [parts_wildcard] at h

theorem isVerbose_pair (h : parts raw = [t, a]) :
    IsVerbose raw ↔ t = wildcard ∧ a = wildcard := by
  constructor
  · rintro (rfl | ⟨_, _, hthree⟩)
    · rw [parts_stars, List.cons.injEq, List.cons.injEq] at h
      exact ⟨h.1.symm, h.2.1.symm⟩
    · simp [h] at hthree
  · rintro ⟨rfl, rfl⟩
    left
    rw [(parts_eq_pair_iff.mp h).1]
    rfl

theorem isVerbose_triple (h : parts raw = [t, a, p]) : IsVerbose raw ↔ p = wildcard := by
  constructor
  · rintro (rfl | ⟨_, _, hthree⟩)
    · simp [parts_stars] at h
    · simp_all
  · rintro rfl
    exact .inr ⟨t, a, h⟩

theorem Denotes.terse_or_verbose (h : Denotes raw rule) :
    ¬ IsVerbose raw ∧ rule.format = raw ∨ IsVerbose raw ∧ rule.format.length < raw.length := by
  cases h with
  | all h =>
    subst h
    exact .inl ⟨not_isVerbose_wildcard, rfl⟩
  | @pair t a h =>
    obtain ⟨hraw, -⟩ := parts_eq_pair_iff.mp h
    rw [isVerbose_pair h]
    by_cases hall : t = wildcard ∧ a = wildcard
    · right
      obtain ⟨rfl, rfl⟩ := hall
      rw [hraw]
      decide
    · left
      refine ⟨hall, ?_⟩
      rw [hraw, format_of_ne_all _ rfl]
      intro heq
      obtain ⟨ht, ha, -⟩ := Rule.mk.inj heq
      exact hall ⟨ht, ha⟩
  | @triple t a p h =>
    obtain ⟨hraw, -⟩ := parts_eq_triple_iff.mp h
    rw [isVerbose_triple h, hraw]
    by_cases hp : p = wildcard
    · right
      refine ⟨hp, ?_⟩
      -- what is written lacks the last part, or all but one character
      by_cases hall : (⟨t, a, p⟩ : Rule) = .all
      · obtain ⟨rfl, rfl, rfl⟩ := Rule.mk.inj hall
        decide
      · have hcolon : ":".length = 1 := rfl
        rw [format_of_ne_all hall hp]
        simp only [String.length_append]
        omega
    · left
      exact ⟨hp, format_of_property hp⟩

/-- Reading and writing are inverse on the rules that can be written, which are the rules that are
read. A text that was read is written back unless it is verbose, and no other text of its rule is as
short as the one that is written. -/
theorem round_trip :
    (∀ rule : Rule, rule.IsWritable → Rule.parse rule.format = .ok rule) ∧
    (∀ raw rule, Rule.parse raw = .ok rule → (rule.format = raw ↔ ¬ IsVerbose raw)) ∧
    (∀ raw rule, Rule.parse raw = .ok rule →
      ∀ other, Rule.parse other = .ok rule →
        other = rule.format ∨ rule.format.length < other.length) ∧
    (∀ raw rule, Rule.parse raw = .ok rule →
      rule.IsWritable ∧ Rule.parse rule.format = .ok rule) ∧
    ∀ raw₁ raw₂ rule₁ rule₂, Rule.parse raw₁ = .ok rule₁ → Rule.parse raw₂ = .ok rule₂ →
      (rule₁ = rule₂ ↔ rule₁.format = rule₂.format) := by
  simp only [parse_eq_ok_iff_denotes]
  refine ⟨fun _ => denotes_format, ?_, ?_, ?_, ?_⟩
  · intro raw rule h
    rcases h.terse_or_verbose with ⟨hterse, heq⟩ | ⟨hverbose, hlt⟩
    · simp [hterse, heq]
    · have hne : rule.format ≠ raw := by
        intro heq
        rw [heq] at hlt
        exact Nat.lt_irrefl _ hlt
      simp [hverbose, hne]
  · intro raw rule _ other h
    exact h.terse_or_verbose.imp (fun h => h.2.symm) fun h => h.2
  · intro raw rule h
    exact ⟨h.isWritable, denotes_format h.isWritable⟩
  · intro raw₁ raw₂ rule₁ rule₂ h₁ h₂
    constructor
    · rintro rfl
      rfl
    · intro heq
      have hback := denotes_format h₁.isWritable
      rw [heq] at hback
      exact hback.unique (denotes_format h₂.isWritable)

theorem round_trip_stars : Rule.parse "*:*" = .ok .all ∧ Rule.all.format ≠ "*:*" ∧
    Rule.parse Rule.all.format = .ok .all := by
  have hread : Rule.parse "*:*" = .ok .all := by decide
  have hverbose : IsVerbose "*:*" := .inl rfl
  refine ⟨hread, fun h => ?_, (round_trip.2.2.2.1 "*:*" .all hread).2⟩
  exact (round_trip.2.1 "*:*" .all hread).mp h hverbose

end AccessControl.Permission
