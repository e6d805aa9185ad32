import AccessControl.Administration
import AccessControl.Proofs.Program.Running
import AccessControl.Proofs.Store.Healthy
import Mathlib.Data.List.Infix
import Mathlib.Data.List.Nodup

/-!
The search for roles. What a key finds is one list, by name, and a search shows a window of it; the
pages of any size make up the list.
-/

namespace AccessControl

open Program Store

/-! ### Texts and lists -/

theorem Text.occursIn_iff {part text : List Char} : occursIn part text = true ↔ part <:+: text := by
  induction text with
  | nil => rw [occursIn, List.isEmpty_iff, List.infix_nil]
  | cons c rest ih =>
    rw [occursIn, Bool.or_eq_true, List.isPrefixOf_iff_prefix, ih, List.infix_cons_iff]

section Pairs

variable {α : Type} {a b : α} {l : List α}

theorem pair_sublist_or (ha : a ∈ l) (hb : b ∈ l) (hne : a ≠ b) :
    [a, b].Sublist l ∨ [b, a].Sublist l := by
  induction l with
  | nil => cases ha
  | cons c l ih =>
    rcases List.mem_cons.mp ha with rfl | ha'
    · have hb' := (List.mem_cons.mp hb).resolve_left (Ne.symm hne)
      exact .inl ((List.singleton_sublist.mpr hb').cons_cons a)
    · rcases List.mem_cons.mp hb with rfl | hb'
      · exact .inr ((List.singleton_sublist.mpr ha').cons_cons b)
      · exact (ih ha' hb').imp (.cons c) (.cons c)

theorem not_pair_sublist (hl : l.Nodup) (h : [a, b].Sublist l) : ¬ [b, a].Sublist l := by
  induction l with
  | nil => cases h
  | cons c l ih =>
    obtain ⟨hc, hl⟩ := List.nodup_cons.mp hl
    intro h'
    rcases List.cons_sublist_cons'.mp h with hab | ⟨rfl, hb⟩
    · rcases List.cons_sublist_cons'.mp h' with hba | ⟨rfl, -⟩
      · exact ih hl hab hba
      · exact hc (hab.subset (List.mem_cons_of_mem a (List.mem_singleton_self b)))
    · rcases List.cons_sublist_cons'.mp h' with hba | ⟨rfl, -⟩
      · exact hc (hba.subset (List.mem_cons_of_mem b (List.mem_singleton_self a)))
      · exact hc (List.singleton_sublist.mp hb)

theorem pair_sublist_of_mergeSort {le : α → α → Bool}
    (trans : ∀ a b c, le a b = true → le b c = true → le a c = true)
    (total : ∀ a b, (le a b || le b a) = true) (hl : l.Nodup) (hba : le b a = true)
    (h : [a, b].Sublist (l.mergeSort le)) : [a, b].Sublist l := by
  have hsorted : (l.mergeSort le).Nodup := (List.mergeSort_perm l le).nodup_iff.mpr hl
  have hne : a ≠ b := by simpa using hsorted.sublist h
  have ha : a ∈ l := List.mem_mergeSort.mp (h.subset (by simp))
  have hb : b ∈ l := List.mem_mergeSort.mp (h.subset (by simp))
  refine (pair_sublist_or ha hb hne).resolve_right fun h' => ?_
  exact not_pair_sublist hsorted h (List.pair_sublist_mergeSort trans total hba h')

end Pairs

/-! ### What a key finds -/

def Role.Holds (key : String) (r : Role) : Prop :=
  (Text.lower key).toList <:+: (Text.lower r.name).toList

namespace Store.Tables

/-- The roles that a key finds, each once and by name. Of two roles of one name the one that stands
first in the table comes first. -/
structure IsFound (t : Tables) (key : String) (found : List Role) : Prop where
  complete : ∀ r, r ∈ found ↔ r ∈ t.roles.rows ∧ r.Holds key
  nodup : found.Nodup
  ordered : found.Pairwise fun r s =>
    r.name < s.name ∨ r.name = s.name ∧ [r, s].Sublist t.roles.rows

theorem nodup_roles (t : Tables) : t.roles.rows.Nodup :=
  List.Nodup.of_map _ t.roles.nodup

variable {t : Tables} {key : String}

theorem IsFound.unique {found others : List Role} (h : t.IsFound key found)
    (h' : t.IsFound key others) : others = found := by
  have hperm : others.Perm found := by
    rw [List.perm_ext_iff_of_nodup h'.nodup h.nodup]
    intro r
    rw [h'.complete, h.complete]
  refine List.Perm.eq_of_pairwise ?_ h'.ordered h.ordered hperm
  rintro r s - - (hlt | ⟨heq, hpair⟩) (hlt' | ⟨heq', hpair'⟩)
  · exact absurd (String.lt_trans hlt hlt') (String.lt_irrefl r.name)
  · exact absurd (heq' ▸ hlt) (String.lt_irrefl r.name)
  · exact absurd (heq ▸ hlt') (String.lt_irrefl r.name)
  · exact absurd hpair' (not_pair_sublist t.nodup_roles hpair)

theorem isFound_matchingRoles (t : Tables) (key : String) :
    t.IsFound key (t.matchingRoles key) := by
  let holding : List Role := t.roles.rows.filter fun r =>
    Text.occursIn (Text.lower key).toList (Text.lower r.name).toList
  let le (r s : Role) : Bool := decide (r.name ≤ s.name)
  have htrans (r s u : Role) (hrs : le r s = true) (hsu : le s u = true) : le r u = true :=
    decide_eq_true (String.le_trans (of_decide_eq_true hrs) (of_decide_eq_true hsu))
  have htotal (r s : Role) : (le r s || le s r) = true := by
    simpa [le] using String.le_total r.name s.name
  have hholding : holding.Nodup := t.nodup_roles.filter _
  have hsorted : (holding.mergeSort le).Pairwise fun r s => le r s = true :=
    List.pairwise_mergeSort htrans htotal holding
  constructor
  · intro r
    rw [Role.Holds, ← Text.occursIn_iff]
    exact List.mem_mergeSort.trans List.mem_filter
  · exact (List.mergeSort_perm holding le).nodup_iff.mpr hholding
  · rw [List.pairwise_iff_forall_sublist] at hsorted ⊢
    intro r s h
    have hle : r.name ≤ s.name := of_decide_eq_true (hsorted h)
    by_cases heq : r.name = s.name
    · have hback : le s r = true := decide_eq_true (heq ▸ String.le_refl r.name)
      have hpair := pair_sublist_of_mergeSort htrans htotal hholding hback h
      exact .inr ⟨heq, hpair.trans List.filter_sublist⟩
    · exact .inl (Std.lt_of_le_of_ne hle heq)

end Store.Tables

/-! ### Windows and pages -/

theorem Store.window_eq {α : Type} (offset limit : Nat) (xs : List α) :
    window offset (offset + limit) xs = (xs.drop offset).take limit := by
  have hposition (n : Nat) : window.position xs n = n := by
    rw [window.position, if_neg (by omega), Int.toNat_natCast]
  rw [window, ← Int.natCast_add, hposition, hposition, List.take_drop]

namespace Role

theorem run_search {t : Tables} {w : World} (hw : w.Stores t) (key : String) (offset limit : Nat) :
    (search key offset limit).run w =
      (.ok (((t.matchingRoles key).drop offset).take limit), w) := by
  have hworld : { w with ledger := (⟨t, .none⟩ : Ledger) } = w := by rw [← hw]
  have hanswer : w.answer (.store (.rolesLike key offset limit)) =
      (.ok (window offset (offset + limit) (t.matchingRoles key)), w) := by
    have hcall := Ledger.call_none t (.rolesLike key offset limit)
    simp only [World.answer, show w.ledger = ⟨t, .none⟩ from hw, hcall]
    rw [← hworld]
    rfl
  have hcall : (call (.rolesLike key offset limit)).run w =
      (.ok (((t.matchingRoles key).drop offset).take limit), w) := by
    rw [call, run_bind, run_perform, hanswer, window_eq]
    rfl
  rw [search, storing, run_bind, run_attempt, hcall]
  rfl

/-- What is read page by page, from an offset on, up to the first page that is empty. -/
inductive Pages (key : String) (size : Nat) : World → Nat → List Role → World → Prop where
  | last {w v : World} {offset : Nat} (h : (search key offset size).run w = (.ok [], v)) :
    Pages key size w offset [] v
  | page {u v w : World} {offset : Nat} {roles rest : List Role}
    (h : (search key offset size).run w = (.ok roles, u)) (hne : roles ≠ [])
    (hrest : Pages key size u (offset + size) rest v) : Pages key size w offset (roles ++ rest) v

section

variable {t : Tables} {w : World} {key : String} {size : Nat}

theorem Pages.eq (hw : w.Stores t) (hsize : 0 < size) {v : World} {offset : Nat} {found : List Role}
    (h : Pages key size w offset found v) : found = (t.matchingRoles key).drop offset ∧ v = w := by
  induction h with
  | last h =>
    rw [run_search hw] at h
    obtain ⟨hnil, hworld⟩ := Prod.ext_iff.mp h
    have hempty := Except.ok.inj hnil
    rw [List.take_eq_nil_iff] at hempty
    exact ⟨(hempty.resolve_left (Nat.ne_of_gt hsize)).symm, hworld.symm⟩
  | @page u v w offset roles rest h hne hrest ih =>
    rw [run_search hw] at h
    obtain ⟨hroles, rfl⟩ := Prod.ext_iff.mp h
    obtain ⟨hfound, hworld⟩ := ih hw
    have hpage := Except.ok.inj hroles
    refine ⟨?_, hworld⟩
    rw [← hpage, hfound, ← List.drop_drop, List.take_append_drop]

theorem exists_pages (hw : w.Stores t) (hsize : 0 < size) (key : String) (offset : Nat) :
    ∃ found, Pages key size w offset found w := by
  by_cases hend : (t.matchingRoles key).length ≤ offset
  · have hempty : ((t.matchingRoles key).drop offset).take size = [] := by
      rw [List.drop_eq_nil_of_le hend, List.take_nil]
    exact ⟨[], .last (hempty ▸ run_search hw key offset size)⟩
  · -- a page that is not empty leaves less of the list
    obtain ⟨rest, hrest⟩ := exists_pages hw hsize key (offset + size)
    refine ⟨_, .page (run_search hw key offset size) ?_ hrest⟩
    rw [ne_eq, List.take_eq_nil_iff, List.drop_eq_nil_iff]
    omega
termination_by (t.matchingRoles key).length - offset

end

/-- A key finds one list, whatever the window is, and the pages of any size make it up. -/
theorem pages_partition {t : Tables} {w : World} (hw : w.Stores t) (key : String) :
    ∃ found, t.IsFound key found ∧ (∀ others, t.IsFound key others → others = found) ∧
      (∀ offset limit : Nat, (search key offset limit).run w =
        (.ok ((found.drop offset).take limit), w)) ∧
      ∀ size, 0 < size → ∀ pages v, Pages key size w 0 pages v ↔ pages = found ∧ v = w := by
  have hfound := t.isFound_matchingRoles key
  refine ⟨t.matchingRoles key, hfound, fun others => hfound.unique, run_search hw key, ?_⟩
  intro size hsize pages v
  constructor
  · exact fun h => h.eq hw hsize
  · rintro ⟨rfl, rfl⟩
    obtain ⟨pages, hpages⟩ := exists_pages hw hsize key 0
    obtain ⟨rfl, -⟩ := hpages.eq hw hsize
    exact hpages

def staff : Tables where
  roles := ⟨[("r1", "Proof editors"), ("r2", "Editors"), ("r3", "Authors"), ("r4", "Editors"),
    ("r5", "EDITORS")].map fun (id, name) => ⟨id, name, "", .ofSeconds 0, .ofSeconds 0⟩, by decide⟩
  memberships := .empty
  entitlements := .empty
  roleRulesets := .empty
  accountRulesets := .empty

def office : World :=
  { World.initial .info none { path := "" } with ledger := ⟨staff, .none⟩ }

theorem pages_partition_staff : office.Stores staff ∧ ∃ found, staff.IsFound "eDit" found ∧
    ∀ pages v, Pages "eDit" 3 office 0 pages v ↔ pages = found ∧ v = office := by
  have hstores : office.Stores staff := rfl
  obtain ⟨found, hfound, -, -, hpages⟩ := pages_partition hstores "eDit"
  exact ⟨hstores, found, hfound, hpages 3 (by decide)⟩

end Role

end AccessControl
