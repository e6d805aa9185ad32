import AccessControl.Text.Order
import Mathlib.Data.List.Induction
import Mathlib.Data.List.Nodup

/-!
Sets of names: a set has the members of the list that it was made from, each once.
-/

namespace AccessControl.Text

private theorem foldl_distinct (names seen : List String) (hseen : seen.Nodup) :
    (names.foldl (fun seen name => if name ∈ seen then seen else seen ++ [name]) seen).Nodup ∧
      ∀ name, name ∈ names.foldl (fun seen name =>
        if name ∈ seen then seen else seen ++ [name]) seen ↔ name ∈ seen ∨ name ∈ names := by
  induction names generalizing seen with
  | nil => simp [hseen]
  | cons n names ih =>
    rw [List.foldl_cons]
    by_cases hn : n ∈ seen
    · rw [if_pos hn]
      refine ⟨(ih seen hseen).1, fun name => ?_⟩
      rw [(ih seen hseen).2, List.mem_cons]
      constructor
      · exact Or.imp_right .inr
      · rintro (h | rfl | h)
        · exact .inl h
        · exact .inl hn
        · exact .inr h
    · rw [if_neg hn]
      have hnodup : (seen ++ [n]).Nodup := by
        rw [List.nodup_append]
        refine ⟨hseen, List.nodup_singleton n, ?_⟩
        rintro a ha b hb rfl
        exact hn (List.mem_singleton.1 hb ▸ ha)
      refine ⟨(ih _ hnodup).1, fun name => ?_⟩
      rw [(ih _ hnodup).2, List.mem_append, List.mem_singleton, List.mem_cons, or_assoc]

theorem nodup_members (names : List String) : (members names).Nodup :=
  (List.mergeSort_perm _ _).nodup_iff.2 (foldl_distinct names [] List.nodup_nil).1

theorem mem_members {names : List String} {name : String} : name ∈ members names ↔ name ∈ names := by
  rw [members, sorted, List.mem_mergeSort, distinct, (foldl_distinct names [] List.nodup_nil).2]
  simp

theorem nodup_distinct (names : List String) : (distinct names).Nodup :=
  (foldl_distinct names [] List.nodup_nil).1

theorem mem_distinct {names : List String} {name : String} :
    name ∈ distinct names ↔ name ∈ names := by
  rw [distinct, (foldl_distinct names [] List.nodup_nil).2]
  simp

theorem distinct_concat (names : List String) (name : String) :
    distinct (names ++ [name]) =
      if name ∈ names then distinct names else distinct names ++ [name] := by
  have h : distinct (names ++ [name]) =
      if name ∈ distinct names then distinct names else distinct names ++ [name] := by
    rw [distinct, List.foldl_append]
    rfl
  simp only [h, mem_distinct]

theorem distinct_eq_self {names : List String} (h : names.Nodup) : distinct names = names := by
  induction names using List.reverseRecOn with
  | nil => rfl
  | append_singleton names name ih =>
    have hnew : name ∉ names := by
      intro hmem
      exact (List.nodup_append.mp h).2.2 name hmem name (List.mem_singleton_self name) rfl
    rw [distinct_concat, if_neg hnew, ih (List.nodup_append.mp h).1]

theorem pairwise_distinct (names : List String) :
    (distinct names).Pairwise fun s t => names.idxOf s < names.idxOf t := by
  induction names using List.reverseRecOn with
  | nil => exact List.Pairwise.nil
  | append_singleton names name ih =>
    have hplace {s : String} (hs : s ∈ distinct names) :
        (names ++ [name]).idxOf s = names.idxOf s :=
      List.idxOf_append_of_mem (mem_distinct.mp hs)
    have hkept : (distinct names).Pairwise fun s t =>
        (names ++ [name]).idxOf s < (names ++ [name]).idxOf t := by
      refine ih.imp_of_mem ?_
      intro s t hs ht hlt
      rwa [hplace hs, hplace ht]
    rw [distinct_concat]
    split_ifs with hknown
    · exact hkept
    · refine List.pairwise_append.mpr ⟨hkept, List.pairwise_singleton _ _, ?_⟩
      intro s hs t ht
      obtain rfl := List.mem_singleton.mp ht
      rw [hplace hs, List.idxOf_append_of_notMem hknown]
      have hlt := List.idxOf_lt_length_of_mem (mem_distinct.mp hs)
      omega

end AccessControl.Text
