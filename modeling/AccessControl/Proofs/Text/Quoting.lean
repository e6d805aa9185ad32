import AccessControl.Text.Quoted
import Mathlib.Algebra.Group.Nat.Defs
import Mathlib.Tactic.SplitIfs

/-!
Reading quoted text. A literal is read from the front of a text up to the mark that ends it, and what
is read is what was quoted, whatever stands behind.
-/

namespace AccessControl.Text

/-! Hexadecimal digits. -/

def digitValue (c : Char) : Nat :=
  if c.toNat < 0x61 then c.toNat - 0x30 else c.toNat - 0x61 + 10

def unhex (digits : List Char) : Nat :=
  digits.foldl (fun n d => 16 * n + digitValue d) 0

theorem digitValue_hexDigit : ∀ n < 16, digitValue (hexDigit n) = n := by
  decide

theorem length_hex (width n : Nat) : (hex width n).length = width := by
  induction width generalizing n with
  | zero => rfl
  | succ width ih => rw [hex, List.length_append, ih, List.length_singleton]

theorem unhex_hex (width n : Nat) (h : n < 16 ^ width) : unhex (hex width n) = n := by
  induction width generalizing n with
  | zero =>
    have hn : n = 0 := by omega
    rw [hn]
    rfl
  | succ width ih =>
    have hfront : n / 16 < 16 ^ width := by omega
    have hlast := digitValue_hexDigit (n % 16) (Nat.mod_lt n (by omega))
    have hread : unhex (hex width (n / 16) ++ [hexDigit (n % 16)]) =
        16 * unhex (hex width (n / 16)) + digitValue (hexDigit (n % 16)) := by
      simp only [unhex, List.foldl_append, List.foldl_cons, List.foldl_nil]
    rw [hex, hread, ih _ hfront, hlast]
    omega

theorem mem_hex {width n : Nat} {c : Char} (h : c ∈ hex width n) : ∃ d < 16, c = hexDigit d := by
  induction width generalizing n with
  | zero => cases h
  | succ width ih =>
    rcases List.mem_append.mp h with h | h
    · exact ih h
    · exact ⟨n % 16, Nat.mod_lt n (by omega), List.mem_singleton.mp h⟩

/-! Characters. -/

def named? (c : Char) : Option Char :=
  if c = 'n' then some '\n' else if c = 'r' then some '\r' else if c = 't' then some '\t' else none

def width? (c : Char) : Option Nat :=
  if c = 'x' then some 2 else if c = 'u' then some 4 else if c = 'U' then some 8 else none

def escaped? : List Char → Option (Char × List Char)
  | [] => none
  | k :: rest =>
    match named? k, width? k with
    | some c, _ => some (c, rest)
    | none, some width => some (Char.ofNat (unhex (rest.take width)), rest.drop width)
    | none, none => some (k, rest)

def character? : List Char → Option (Char × List Char)
  | [] => none
  | c :: rest => if c = backslash then escaped? rest else some (c, rest)

/-- How a character is spelled between two marks. -/
inductive Spells (mark c : Char) : List Char → Prop where
  | plain (hmark : c ≠ mark) (hbackslash : c ≠ backslash) (h : isPrintable c = true) :
    Spells mark c [c]
  | guarded (h : c = mark ∨ c = backslash) : Spells mark c [backslash, c]
  | named {k : Char} (h : named? k = some c) : Spells mark c [backslash, k]
  | coded {k : Char} {width : Nat} (hnamed : named? k = none) (hwidth : width? k = some width)
    (h : c.toNat < 16 ^ width) : Spells mark c (backslash :: k :: hex width c.toNat)

theorem spells_escape (mark c : Char) : Spells mark c (escape mark c) := by
  rw [escape]
  by_cases hguarded : c = mark ∨ c = backslash
  · rw [if_pos hguarded]
    exact .guarded hguarded
  rw [if_neg hguarded]
  split_ifs with hn hr ht hprintable hx hu
  · exact .named (hn ▸ rfl)
  · exact .named (hr ▸ rfl)
  · exact .named (ht ▸ rfl)
  · exact .plain (fun h => hguarded (.inl h)) (fun h => hguarded (.inr h)) hprintable
  · exact .coded rfl rfl hx
  · exact .coded rfl rfl hu
  · have hvalid : c.toNat < 0x110000 := by
      have h := c.valid
      simp only [UInt32.isValidChar, Nat.isValidChar] at h
      change c.val.toNat < _
      omega
    exact .coded rfl rfl (by omega)

def IsMark (c : Char) : Prop :=
  c = apostrophe ∨ c = quotation

instance : DecidablePred IsMark := fun c =>
  inferInstanceAs (Decidable (c = apostrophe ∨ c = quotation))

theorem isMark_mark (s : List Char) : IsMark (mark s) := by
  rw [mark]
  split_ifs
  · exact .inr rfl
  · exact .inl rfl

section

variable {m c : Char} {cs : List Char}

theorem named?_guarded (hm : IsMark m) (h : c = m ∨ c = backslash) :
    named? c = none ∧ width? c = none := by
  rcases h with rfl | rfl
  · rcases hm with rfl | rfl <;> decide
  · decide

theorem Spells.character? (hm : IsMark m) (h : Spells m c cs) (rest : List Char) :
    character? (cs ++ rest) = some (c, rest) := by
  cases h with
  | plain _ hbackslash _ => exact if_neg hbackslash
  | guarded h =>
    obtain ⟨hnamed, hwidth⟩ := named?_guarded hm h
    simp [Text.character?, escaped?, hnamed, hwidth]
  | named h => simp [Text.character?, escaped?, h]
  | @coded k width hnamed hwidth h =>
    have htake : (hex width c.toNat ++ rest).take width = hex width c.toNat :=
      List.take_left' (length_hex width c.toNat)
    have hdrop : (hex width c.toNat ++ rest).drop width = rest :=
      List.drop_left' (length_hex width c.toNat)
    simp [Text.character?, escaped?, hnamed, hwidth, htake, hdrop, unhex_hex width c.toNat h]

theorem Spells.exists_head (hm : IsMark m) (h : Spells m c cs) :
    ∃ x more, cs = x :: more ∧ x ≠ m := by
  have hbackslash : backslash ≠ m := by
    rcases hm with rfl | rfl <;> decide
  cases h with
  | plain hmark _ _ => exact ⟨c, [], rfl, hmark⟩
  | guarded | named | coded => exact ⟨backslash, _, rfl, hbackslash⟩

theorem isPrintable_ascii (h : 32 ≤ c.toNat ∧ c.toNat ≤ 126) : isPrintable c = true := by
  have hranges : ∀ r ∈ unprintableRanges, r.2 < 32 ∨ 126 < r.1 := by
    decide +kernel
  have habsent : unprintableRanges.contains c = false := by
    rw [Ranges.contains, List.any_eq_false]
    intro r hr
    have hends := hranges r hr
    simp
    omega
  rw [isPrintable, habsent]
  rfl

theorem isPrintable_letter : ∀ k ∈ ['n', 'r', 't', 'x', 'u', 'U'], isPrintable k = true := by
  intro k hk
  apply isPrintable_ascii
  simp only [List.mem_cons, List.not_mem_nil, or_false] at hk
  rcases hk with rfl | rfl | rfl | rfl | rfl | rfl <;> decide

theorem isPrintable_of_named? {k : Char} (h : named? k = some c) : isPrintable k = true := by
  apply isPrintable_letter
  rw [named?] at h
  split_ifs at h with hn hr ht
  · simp [hn]
  · simp [hr]
  · simp [ht]

theorem isPrintable_of_width? {k : Char} {width : Nat} (h : width? k = some width) :
    isPrintable k = true := by
  apply isPrintable_letter
  rw [width?] at h
  split_ifs at h with hx hu hU
  · simp [hx]
  · simp [hu]
  · simp [hU]

theorem isPrintable_hexDigit : ∀ d < 16, isPrintable (hexDigit d) = true := by
  have hdigits : ∀ d < 16, 32 ≤ (hexDigit d).toNat ∧ (hexDigit d).toNat ≤ 126 := by
    decide +kernel
  exact fun d hd => isPrintable_ascii (hdigits d hd)

theorem isPrintable_backslash : isPrintable backslash = true :=
  isPrintable_ascii (by decide)

theorem isPrintable_mark (hm : IsMark m) : isPrintable m = true := by
  apply isPrintable_ascii
  rcases hm with rfl | rfl <;> decide

theorem Spells.isPrintable (hm : IsMark m) (h : Spells m c cs) : ∀ x ∈ cs, isPrintable x = true := by
  cases h with
  | plain _ _ h => simpa using h
  | guarded h =>
    have hc : Text.isPrintable c = true := by
      rcases h with rfl | rfl
      · exact isPrintable_mark hm
      · exact isPrintable_backslash
    simp [isPrintable_backslash, hc]
  | named h => simp [isPrintable_backslash, isPrintable_of_named? h]
  | coded _ hwidth _ =>
    intro x hx
    rcases List.mem_cons.mp hx with rfl | hx
    · exact isPrintable_backslash
    rcases List.mem_cons.mp hx with rfl | hx
    · exact isPrintable_of_width? hwidth
    · obtain ⟨d, hd, rfl⟩ := mem_hex hx
      exact isPrintable_hexDigit d hd

end

/-! Literals. -/

theorem length_of_escaped? {cs rest : List Char} {c : Char} (h : escaped? cs = some (c, rest)) :
    rest.length < cs.length := by
  cases cs with
  | nil => cases h
  | cons k more =>
    rw [escaped?] at h
    split at h <;> cases h
    · simp
    · simp only [List.length_drop, List.length_cons]
      omega
    · simp

theorem length_of_character? {cs rest : List Char} {c : Char} (h : character? cs = some (c, rest)) :
    rest.length < cs.length := by
  cases cs with
  | nil => cases h
  | cons x more =>
    rw [character?] at h
    split_ifs at h
    · have hmore := length_of_escaped? h
      rw [List.length_cons]
      omega
    · cases h
      simp

def enclosed? (m : Char) (cs : List Char) : Option (List Char × List Char) :=
  match cs with
  | [] => none
  | c :: rest =>
    if c = m then some ([], rest)
    else match _h : character? (c :: rest) with
      | none => none
      | some (x, more) => (enclosed? m more).map fun (s, behind) => (x :: s, behind)
termination_by cs.length
decreasing_by exact length_of_character? (by assumption)

def literal? : List Char → Option (List Char × List Char)
  | [] => none
  | m :: rest => if IsMark m then enclosed? m rest else none

theorem enclosed?_escape {m : Char} (hm : IsMark m) (s rest : List Char) :
    enclosed? m (s.flatMap (escape m) ++ m :: rest) = some (s, rest) := by
  induction s with
  | nil =>
    rw [List.flatMap_nil, List.nil_append, enclosed?, if_pos rfl]
  | cons c s ih =>
    have hspells := spells_escape m c
    have hread := hspells.character? hm (s.flatMap (escape m) ++ m :: rest)
    obtain ⟨x, more, hcs, hx⟩ := hspells.exists_head hm
    rw [List.flatMap_cons, List.append_assoc]
    rw [hcs, List.cons_append] at hread ⊢
    rw [enclosed?, if_neg hx]
    split
    · next h => rw [hread] at h; cases h
    · next y behind h =>
      rw [hread] at h
      cases h
      rw [ih]
      rfl

theorem literal?_quoteChars (s rest : List Char) :
    literal? (quoteChars s ++ rest) = some (s, rest) := by
  have hmark := isMark_mark s
  have hchars : quoteChars s ++ rest =
      mark s :: (s.flatMap (escape (mark s)) ++ mark s :: rest) := by
    simp [quoteChars]
  rw [hchars, literal?, if_pos hmark]
  exact enclosed?_escape hmark s rest

theorem literal?_quoted (s : String) (rest : List Char) :
    literal? ((quoted s).toList ++ rest) = some (s.toList, rest) := by
  rw [quoted, String.toList_ofList]
  exact literal?_quoteChars s.toList rest

theorem quoted_injective {s t : String} (h : quoted s = quoted t) : s = t := by
  have hs := literal?_quoted s []
  rw [h, literal?_quoted t []] at hs
  have hchars : t.toList = s.toList := congrArg Prod.fst (Option.some.inj hs)
  exact (String.toList_inj.mp hchars).symm

theorem isPrintable_of_mem_quoted {s : String} {c : Char} (h : c ∈ (quoted s).toList) :
    isPrintable c = true := by
  have hmark := isMark_mark s.toList
  rw [quoted, String.toList_ofList, quoteChars] at h
  rcases List.mem_append.mp h with h | h
  · rcases List.mem_cons.mp h with rfl | h
    · exact isPrintable_mark hmark
    · obtain ⟨x, -, hx⟩ := List.mem_flatMap.mp h
      exact (spells_escape _ x).isPrintable hmark c hx
  · rw [List.mem_singleton.mp h]
    exact isPrintable_mark hmark

theorem not_isPrintable_newline : isPrintable '\n' = false := by
  decide +kernel

end AccessControl.Text
