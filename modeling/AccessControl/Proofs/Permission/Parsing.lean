import AccessControl.Capability
import AccessControl.Proofs.Outcome
import Mathlib.Data.List.Forall2

/-!
The grammar of rules apart from their parser: which texts denote a rule, and that the parser reads
these and no others.
-/

namespace AccessControl.Permission

def parts (raw : String) : List String :=
  (raw.toList.splitOn ':').map String.ofList

def IsSegment (part : String) : Prop :=
  part ≠ "" ∧ ∀ c ∈ part.toList, Text.isBlank c = false

/-- The rule that a text stands for. -/
inductive Denotes (raw : String) : Rule → Prop
  | all (h : raw = wildcard) : Denotes raw ⟨wildcard, wildcard, wildcard⟩
  | pair {t a : String} (h : parts raw = [t, a]) (ht : IsSegment t) (ha : IsSegment a) :
      Denotes raw ⟨t, a, wildcard⟩
  | triple {t a p : String} (h : parts raw = [t, a, p]) (ht : IsSegment t) (ha : IsSegment a)
      (hp : IsSegment p) : Denotes raw ⟨t, a, p⟩

variable {raw : String} {rule : Rule}

/-! ### Segments -/

theorem segments_ne_nil (cs : List Char) : segments cs ≠ [] := by
  fun_cases segments cs <;> simp

theorem segments_eq_splitOn (cs : List Char) : segments cs = cs.splitOn ':' := by
  induction cs with
  | nil => rfl
  | cons c cs ih =>
    rw [segments, List.splitOn, List.splitOnP_cons_eq_if_modifyHead, ← List.splitOn, ← ih]
    by_cases hc : c = ':'
    · simp [hc]
    · obtain ⟨s, ss, hs⟩ := List.exists_cons_of_ne_nil (segments_ne_nil cs)
      simp [hc, hs]

theorem parts_eq (raw : String) : parts raw = (segments raw.toList).map String.ofList := by
  rw [parts, segments_eq_splitOn]

theorem segmentFlaw?_eq_none_iff {s : List Char} :
    segmentFlaw? s = none ↔ IsSegment (String.ofList s) := by
  unfold segmentFlaw? IsSegment
  split_ifs with hempty hblank <;> simp_all

theorem findSome?_segmentFlaw? {ss : List (List Char)} :
    ss.findSome? segmentFlaw? = none ↔ ∀ part ∈ ss.map String.ofList, IsSegment part := by
  simp only [List.findSome?_eq_none_iff, segmentFlaw?_eq_none_iff, List.forall_mem_map]

/-! ### One text -/

theorem parts_wildcard : parts wildcard = [wildcard] := by
  decide

theorem parse_eq_ok_iff (hall : raw ≠ wildcard) :
    Rule.parse raw = .ok rule ↔ (∀ part ∈ parts raw, IsSegment part) ∧
      (parts raw = [rule.entityType, rule.action] ∧ wildcard = rule.property ∨
        parts raw = [rule.entityType, rule.action, rule.property]) := by
  simp only [Rule.parse, if_neg hall, parts_eq, ← findSome?_segmentFlaw?]
  rcases rule with ⟨entityType, action, property⟩
  match segments raw.toList with
  | [] => simp
  | [_] => simp
  | [t, a] => cases [t, a].findSome? segmentFlaw? <;> simp [and_assoc]
  | [t, a, p] => cases [t, a, p].findSome? segmentFlaw? <;> simp
  | _ :: _ :: _ :: _ :: _ => simp

theorem parse_eq_ok_iff_denotes : Rule.parse raw = .ok rule ↔ Denotes raw rule := by
  by_cases hall : raw = wildcard
  · subst hall
    have hparse : Rule.parse wildcard = .ok .all := if_pos rfl
    rw [hparse, Except.ok.injEq]
    constructor
    · rintro rfl
      exact .all rfl
    · rintro (_ | ⟨h, -, -⟩ | ⟨h, -, -, -⟩)
      · rfl
      · simp [parts_wildcard] at h
      · simp [parts_wildcard] at h
  rw [parse_eq_ok_iff hall]
  rcases rule with ⟨t, a, p⟩
  constructor
  · rintro ⟨hsegments, ⟨h, rfl⟩ | h⟩
    · exact .pair h (hsegments t (by simp [h])) (hsegments a (by simp [h]))
    · exact .triple h (hsegments t (by simp [h])) (hsegments a (by simp [h]))
        (hsegments p (by simp [h]))
  · rintro (h | ⟨h, ht, ha⟩ | ⟨h, ht, ha, hp⟩)
    · exact absurd h hall
    · exact ⟨by simp [h, ht, ha], .inl ⟨h, rfl⟩⟩
    · exact ⟨by simp [h, ht, ha, hp], .inr h⟩

theorem ofValue_eq_ok_iff : Rule.ofValue (.text raw) = .ok rule ↔ Denotes raw rule := by
  rw [← parse_eq_ok_iff_denotes, Rule.ofValue]
  cases Rule.parse raw <;> simp [Except.mapError]

theorem ofValue_eq_error_iff :
    (∃ flaw, Rule.ofValue (.text raw) = .error (.malformedPermission raw flaw)) ↔
      ∀ rule, ¬ Denotes raw rule := by
  simp only [← parse_eq_ok_iff_denotes, Rule.ofValue]
  cases Rule.parse raw <;> simp [Except.mapError]

theorem Denotes.written (h : Denotes raw rule) (hall : raw ≠ wildcard) :
    (parts raw)[0]? = some rule.entityType ∧ (parts raw)[1]? = some rule.action ∧
      ((parts raw)[2]? = some rule.property ∨ (parts raw).length = 2) := by
  rcases h with h | ⟨h, -, -⟩ | ⟨h, -, -, -⟩
  · exact absurd h hall
  · simp [h]
  · simp [h]

theorem Denotes.wildcards (h : Denotes raw rule) :
    (rule.entityType = wildcard → raw = wildcard ∨ (parts raw)[0]? = some wildcard) ∧
      (rule.action = wildcard → raw = wildcard ∨ (parts raw)[1]? = some wildcard) ∧
      (rule.property = wildcard →
        raw = wildcard ∨ (parts raw)[2]? = some wildcard ∨ (parts raw).length = 2) := by
  by_cases hall : raw = wildcard
  · simp [hall]
  obtain ⟨ht, ha, hp⟩ := h.written hall
  refine ⟨fun h => .inr (h ▸ ht), fun h => .inr (h ▸ ha), fun h => .inr ?_⟩
  exact hp.imp_left fun hp => h ▸ hp

/-! ### Lists of texts -/

theorem rules_eq_ok_iff {raws : List String} {rules : List Rule} :
    Permission.rules (raws.map .text) = .ok rules ↔ List.Forall₂ Denotes raws rules := by
  simp only [Permission.rules, Outcome.mapM_eq_ok_iff, List.forall₂_map_left_iff, ofValue_eq_ok_iff]

theorem rules_eq_error_iff {raws : List String} {e : Error} :
    Permission.rules (raws.map .text) = .error e ↔ ∃ before raw after,
      raws = before ++ raw :: after ∧ (∀ earlier ∈ before, ∃ rule, Denotes earlier rule) ∧
        Rule.ofValue (.text raw) = .error e := by
  simp only [Permission.rules, List.mapM_map, Outcome.mapM_eq_error_iff, Function.comp_apply,
    ofValue_eq_ok_iff]

/-- The parser reads the grammar: a text is read as the rule that it denotes, any other is refused by
name, and a list is read member by member up to the first refusal. -/
theorem reads_grammar :
    (∀ raw rule, Rule.ofValue (.text raw) = .ok rule ↔ Denotes raw rule) ∧
    (∀ raw, (∃ flaw, Rule.ofValue (.text raw) = .error (.malformedPermission raw flaw)) ↔
      ∀ rule, ¬ Denotes raw rule) ∧
    (∀ raw rule, Denotes raw rule →
      (rule.entityType = wildcard → raw = wildcard ∨ (parts raw)[0]? = some wildcard) ∧
      (rule.action = wildcard → raw = wildcard ∨ (parts raw)[1]? = some wildcard) ∧
      (rule.property = wildcard →
        raw = wildcard ∨ (parts raw)[2]? = some wildcard ∨ (parts raw).length = 2)) ∧
    (∀ raws rules, Permission.rules (raws.map .text) = .ok rules ↔
      List.Forall₂ Denotes raws rules) ∧
    ∀ raws e, Permission.rules (raws.map .text) = .error e ↔ ∃ before raw after,
      raws = before ++ raw :: after ∧ (∀ earlier ∈ before, ∃ rule, Denotes earlier rule) ∧
        Rule.ofValue (.text raw) = .error e :=
  ⟨fun _ _ => ofValue_eq_ok_iff, fun _ => ofValue_eq_error_iff, fun _ _ => Denotes.wildcards,
    fun _ _ => rules_eq_ok_iff, fun _ _ => rules_eq_error_iff⟩

end AccessControl.Permission
