import AccessControl.Entitlements.Listing
import AccessControl.Proofs.Text.Order
import AccessControl.Proofs.Text.Quoting

/-!
The generated list, read line by line. It has a line for every name, group and feature, and is
determined by what it lists.
-/

namespace AccessControl.Entitlements.Listing

/-! The values that are listed. -/

/-- The values with a property, each once, in order. -/
structure IsCensus (P : String → Prop) (values : List String) : Prop where
  increasing : values.Pairwise (· < ·)
  complete : ∀ s, s ∈ values ↔ P s

theorem isCensus_members (values : List String) : IsCensus (· ∈ values) (Text.members values) := by
  have hsorted : (Text.members values).Pairwise fun a b => decide (a ≤ b) = true := by
    refine List.pairwise_mergeSort ?_ ?_ (Text.distinct values)
    · intro a b c hab hbc
      exact decide_eq_true (String.le_trans (of_decide_eq_true hab) (of_decide_eq_true hbc))
    · intro a b
      simpa using String.le_total a b
  constructor
  · refine List.Pairwise.imp ?_ (hsorted.and (Text.nodup_members values))
    rintro a b ⟨hle, hne⟩
    exact Std.lt_of_le_of_ne (of_decide_eq_true hle) hne
  · exact fun s => Text.mem_members

theorem IsCensus.unique {P : String → Prop} {values others : List String}
    (h : IsCensus P values) (h' : IsCensus P others) : values = others := by
  have hnodup {vs : List String} (hvs : vs.Pairwise (· < ·)) : vs.Nodup :=
    hvs.imp fun {_ _} hlt => String.ne_of_lt hlt
  have hperm : values.Perm others := by
    rw [List.perm_ext_iff_of_nodup (hnodup h.increasing) (hnodup h'.increasing)]
    intro s
    rw [h.complete, h'.complete]
  refine List.Perm.eq_of_pairwise ?_ h.increasing h'.increasing hperm
  intro a b _ _ hab hba
  exact absurd (String.lt_trans hab hba) (String.lt_irrefl a)

theorem members_eq_iff {values others : List String} :
    Text.members values = Text.members others ↔ ∀ s, s ∈ values ↔ s ∈ others := by
  constructor
  · intro h s
    rw [← Text.mem_members, h, Text.mem_members]
  · intro h
    have hvalues := isCensus_members values
    refine hvalues.unique ⟨(isCensus_members others).increasing, fun s => ?_⟩
    rw [h s, Text.mem_members]

/-! The lines. -/

def item (value : String) : String :=
  "    " ++ Text.quoted value ++ ","

def paragraph (title : String) (values : List String) : List String :=
  if values.isEmpty then [title ++ " = str"]
  else (title ++ " = Literal[") :: (values.map item ++ ["]"])

def headline : String := "# Generated by service_permissions.app.catalog; do not edit."

def lines (names groups features : List String) : List String :=
  [headline, "", "from typing import Literal", ""] ++ paragraph "EntitlementName" names ++ [""] ++
    paragraph "EntitlementGroup" groups ++ [""] ++ paragraph "Feature" features

def written (lines : List String) : String :=
  String.join (lines.map (· ++ "\n"))

theorem written_append (ls more : List String) : written (ls ++ more) = written ls ++ written more := by
  simp [written]

theorem written_cons (l : String) (ls : List String) : written (l :: ls) = l ++ "\n" ++ written ls := by
  simp [written]

theorem splitOn_written (ls : List String) (h : ∀ l ∈ ls, '\n' ∉ l.toList) :
    (written ls).toList.splitOn '\n' = ls.map String.toList ++ [[]] := by
  induction ls with
  | nil => rfl
  | cons l ls ih =>
    obtain ⟨hl, hls⟩ := List.forall_mem_cons.mp h
    have hchars : (written (l :: ls)).toList = l.toList ++ '\n' :: (written ls).toList := by
      simp [written_cons]
    have hplain : ∀ c ∈ l.toList, (c == '\n') = false := by
      intro c hc
      rw [beq_eq_false_iff_ne]
      rintro rfl
      exact hl hc
    have hfirst :=
      List.splitOnP_append_cons_of_forall_mem hplain '\n' (by decide) (written ls).toList
    rw [hchars, List.map_cons, List.cons_append, ← ih hls]
    exact hfirst

theorem written_paragraph (title : String) (values : List String) :
    written (paragraph title values) =
      title ++ " = " ++ alternatives (values.map Text.quoted) ++ "\n" := by
  rw [paragraph, alternatives, List.isEmpty_map]
  by_cases hempty : values.isEmpty = true
  · rw [if_pos hempty, if_pos hempty]
    have hstr : " = str" = " = " ++ "str" := by decide +kernel
    simp [written, hstr, String.append_assoc]
  · rw [if_neg hempty, if_neg hempty]
    have hopen : " = Literal[" ++ "\n" = " = " ++ "Literal[\n" := by decide +kernel
    have hend : ",\n" = "," ++ "\n" := by decide +kernel
    have hitems : written (values.map item) =
        String.join ((values.map Text.quoted).map fun v => "    " ++ v ++ ",\n") := by
      simp [written, item, hend, String.append_assoc, Function.comp_def]
    have hlast : written ["]"] = "]" ++ "\n" := by simp [written]
    calc written ((title ++ " = Literal[") :: (values.map item ++ ["]"]))
        = title ++ (" = Literal[" ++ "\n") ++ (written (values.map item) ++ written ["]"]) := by
          rw [written_cons, written_append]
          simp only [String.append_assoc]
      _ = _ := by
          rw [hitems, hlast, hopen]
          simp only [String.append_assoc]

theorem render_eq_written (es : List Entitlement) :
    render es = written (lines (names es) (groups es) (features es)) := by
  have hheader : header = headline ++ "\n" := by decide +kernel
  have himport : "\nfrom typing import Literal\n\n" =
      "\n" ++ "from typing import Literal" ++ "\n" ++ "\n" := by
    decide +kernel
  have hnames : "EntitlementName = " = "EntitlementName" ++ " = " := by decide +kernel
  have hgroups : "EntitlementGroup = " = "EntitlementGroup" ++ " = " := by decide +kernel
  have hfeatures : "Feature = " = "Feature" ++ " = " := by decide +kernel
  have hgap : "\n\n" = "\n" ++ "\n" := by decide +kernel
  have hnone : written [] = "" := rfl
  rw [render, text, hheader, himport, hnames, hgroups, hfeatures, hgap]
  simp only [lines, written_append, written_cons, written_paragraph, hnone, String.append_empty,
    String.empty_append, String.append_assoc]

theorem newline_notMem_item (value : String) : '\n' ∉ (item value).toList := by
  intro h
  simp only [item, String.toList_append, List.mem_append] at h
  rcases h with (h | h) | h
  · revert h
    decide
  · have hprintable := Text.isPrintable_of_mem_quoted h
    rw [Text.not_isPrintable_newline] at hprintable
    cases hprintable
  · revert h
    decide

theorem newline_notMem_paragraph (title : String) (htitle : '\n' ∉ title.toList)
    (values : List String) : ∀ l ∈ paragraph title values, '\n' ∉ l.toList := by
  intro l hl
  rw [paragraph] at hl
  split at hl
  · obtain rfl := List.mem_singleton.mp hl
    simpa using htitle
  · rcases List.mem_cons.mp hl with rfl | hl
    · simpa using htitle
    rcases List.mem_append.mp hl with hl | hl
    · obtain ⟨v, -, rfl⟩ := List.mem_map.mp hl
      exact newline_notMem_item v
    · obtain rfl := List.mem_singleton.mp hl
      decide

theorem newline_notMem_lines (names groups features : List String) :
    ∀ l ∈ lines names groups features, '\n' ∉ l.toList := by
  have hnames := newline_notMem_paragraph "EntitlementName" (by decide) names
  have hgroups := newline_notMem_paragraph "EntitlementGroup" (by decide) groups
  have hfeatures := newline_notMem_paragraph "Feature" (by decide) features
  have hempty : ∀ l ∈ [""], '\n' ∉ l.toList := by decide
  have hfront : ∀ l ∈ [headline, "", "from typing import Literal", ""], '\n' ∉ l.toList := by
    decide +kernel
  simp only [lines, List.forall_mem_append]
  exact ⟨⟨⟨⟨⟨hfront, hnames⟩, hempty⟩, hgroups⟩, hempty⟩, hfeatures⟩

/-! Lines are read in one way only. -/

theorem item_injective {v w : String} (h : item v = item w) : v = w := by
  have hfront := (String.append_left_inj _).mp h
  exact Text.quoted_injective ((String.append_right_inj _).mp hfront)

theorem item_ne_end (v : String) : item v ≠ "]" := by
  intro h
  have hchars := congrArg (fun s : String => s.toList.head?) h
  simp [item] at hchars

theorem items_inj {values others rest more : List String}
    (h : values.map item ++ "]" :: rest = others.map item ++ "]" :: more) :
    values = others ∧ rest = more := by
  induction values generalizing others with
  | nil =>
    cases others with
    | nil => exact ⟨rfl, (List.cons.inj h).2⟩
    | cons w others => exact absurd (List.cons.inj h).1.symm (item_ne_end w)
  | cons v values ih =>
    cases others with
    | nil => exact absurd (List.cons.inj h).1 (item_ne_end v)
    | cons w others =>
      obtain ⟨hitem, hrest⟩ := List.cons.inj h
      obtain ⟨rfl, rfl⟩ := ih hrest
      exact ⟨by rw [item_injective hitem], rfl⟩

theorem paragraph_inj {title : String} {values others rest more : List String}
    (h : paragraph title values ++ rest = paragraph title others ++ more) :
    values = others ∧ rest = more := by
  have hheads : title ++ " = str" ≠ title ++ " = Literal[" := by
    intro heq
    have hends := (String.append_right_inj title).mp heq
    revert hends
    decide
  cases values with
  | nil =>
    cases others with
    | nil => exact ⟨rfl, (List.cons.inj h).2⟩
    | cons w others => exact absurd (List.cons.inj h).1 hheads
  | cons v values =>
    cases others with
    | nil => exact absurd (List.cons.inj h).1.symm hheads
    | cons w others =>
      have hitems : (v :: values).map item ++ "]" :: rest =
          (w :: others).map item ++ "]" :: more := by
        simpa [paragraph] using h
      exact items_inj hitems

theorem lines_inj {names names' groups groups' features features' : List String}
    (h : lines names groups features = lines names' groups' features') :
    names = names' ∧ groups = groups' ∧ features = features' := by
  simp only [lines, List.append_assoc] at h
  obtain ⟨hnames, h⟩ := paragraph_inj (List.append_cancel_left h)
  obtain ⟨hgroups, h⟩ := paragraph_inj (List.append_cancel_left h)
  have hlast := List.append_cancel_left h
  rw [← List.append_nil (paragraph _ features), ← List.append_nil (paragraph _ features')] at hlast
  exact ⟨hnames, hgroups, (paragraph_inj hlast).1⟩

theorem splitOn_render (es : List Entitlement) :
    (render es).toList.splitOn '\n' =
      (lines (names es) (groups es) (features es)).map String.toList ++ [[]] := by
  rw [render_eq_written]
  exact splitOn_written _ (newline_notMem_lines _ _ _)

theorem render_eq_iff_members (es es' : List Entitlement) :
    render es = render es' ↔ names es = names es' ∧ groups es = groups es' ∧
      features es = features es' := by
  constructor
  · intro h
    have hsplit := splitOn_render es
    rw [h, splitOn_render es'] at hsplit
    have hlines := List.append_cancel_right hsplit
    have htexts := (List.map_injective_iff.mpr fun _ _ => String.toList_inj.mp) hlines
    exact lines_inj htexts.symm
  · rintro ⟨hnames, hgroups, hfeatures⟩
    rw [render, hnames, hgroups, hfeatures, ← render]

/-- The list of some entitlements has a line for each name, group and feature, in order and each
once. A literal is read back from its line as the value, whatever follows, and all of its characters
show. Two lists are the same just when they list the same values. -/
theorem render_canonical (es : List Entitlement) :
    IsCensus (∃ e ∈ es, e.name = ·) (names es) ∧ IsCensus (∃ e ∈ es, e.group = ·) (groups es) ∧
      IsCensus (fun f => ∃ e ∈ es, f ∈ e.features) (features es) ∧
      (render es).toList.splitOn '\n' =
        (lines (names es) (groups es) (features es)).map String.toList ++ [[]] ∧
      (∀ (value : String) (rest : List Char),
        Text.literal? ((Text.quoted value).toList ++ rest) = some (value.toList, rest) ∧
          ∀ c ∈ (Text.quoted value).toList, Text.isPrintable c = true) ∧
      ∀ es' : List Entitlement, render es = render es' ↔
        (∀ s, (∃ e ∈ es, e.name = s) ↔ ∃ e ∈ es', e.name = s) ∧
        (∀ s, (∃ e ∈ es, e.group = s) ↔ ∃ e ∈ es', e.group = s) ∧
        ∀ f, (∃ e ∈ es, f ∈ e.features) ↔ ∃ e ∈ es', f ∈ e.features := by
  have hnames := isCensus_members (es.map Entitlement.name)
  have hgroups := isCensus_members (es.map Entitlement.group)
  have hfeatures := isCensus_members (es.flatMap Entitlement.features)
  simp only [List.mem_map] at hnames hgroups
  simp only [List.mem_flatMap] at hfeatures
  refine ⟨hnames, hgroups, hfeatures, splitOn_render es, fun value rest => ?_, fun es' => ?_⟩
  · exact ⟨Text.literal?_quoted value rest, fun c => Text.isPrintable_of_mem_quoted⟩
  · rw [render_eq_iff_members, names, names, members_eq_iff, groups, groups, members_eq_iff,
      features, features, members_eq_iff]
    simp only [List.mem_map, List.mem_flatMap]

end AccessControl.Entitlements.Listing
