import AccessControl.Proofs.Administration.Searching
import AccessControl.Proofs.Program.Accesses
import AccessControl.Store.Sql

/-!
Searches for roles in a database and in tables. A database gets a key inside a pattern, where some
characters are signs; tables are searched for the key itself. Both go alike for the keys without
such signs, and for no others.
-/

namespace AccessControl

/-! ### Lower case of ASCII -/

namespace Text

def IsAscii (s : List Char) : Prop := ∀ c ∈ s, c.toNat < 128

-- named, because the characters are finitely many and could all be gone through as well
instance : DecidablePred IsAscii := List.decidableBAll _

theorem isAscii_cons {c : Char} {s : List Char} : IsAscii (c :: s) ↔ c.toNat < 128 ∧ IsAscii s :=
  List.forall_mem_cons

theorem isAscii_append {s t : List Char} : IsAscii (s ++ t) ↔ IsAscii s ∧ IsAscii t :=
  List.forall_mem_append

theorem not_moves_ascii {c : Char} (h : c.toNat < 128) : ∀ s ∈ lowerShifts.tail, ¬ s.moves c := by
  have hfirst : ∀ s ∈ lowerShifts.tail, 128 ≤ s.first := by decide +kernel
  intro s hs hmoves
  have hle := hfirst s hs
  simp only [Shift.moves, Bool.and_eq_true, decide_eq_true_eq] at hmoves
  omega

theorem toNat_toLower_of_capital {c : Char} (h : 65 ≤ c.toNat ∧ c.toNat ≤ 90) :
    c.toLower.toNat = c.toNat + 32 := by
  have hcapital : c.val ≥ 'A'.val ∧ c.val ≤ 'Z'.val :=
    ⟨UInt32.le_iff_toNat_le.mpr h.1, UInt32.le_iff_toNat_le.mpr h.2⟩
  rw [show c.toLower = _ from dif_pos hcapital]
  change (c.val + 32).toNat = c.val.toNat + 32
  have hle : c.val.toNat ≤ 90 := h.2
  rw [UInt32.toNat_add]
  change (c.val.toNat + 32) % 2 ^ 32 = c.val.toNat + 32
  omega

theorem toLower_of_not_capital {c : Char} (h : ¬ (65 ≤ c.toNat ∧ c.toNat ≤ 90)) :
    c.toLower = c := by
  refine dif_neg fun hcapital => h ?_
  exact ⟨UInt32.le_iff_toNat_le.mp hcapital.1, UInt32.le_iff_toNat_le.mp hcapital.2⟩

theorem lowerChar_ascii {c : Char} (h : c.toNat < 128) : lowerChar c = [c.toLower] := by
  have hdotted : c ≠ capitalDottedI := by
    rintro rfl
    exact absurd h (by decide)
  have hnone := List.find?_eq_none.mpr (not_moves_ascii h)
  rw [lowerChar, if_neg hdotted, show lowerShifts = ⟨65, 90, 1, 32⟩ :: lowerShifts.tail from rfl,
    List.find?_cons, hnone]
  by_cases hcapital : 65 ≤ c.toNat ∧ c.toNat ≤ 90
  · have hmoves : (⟨65, 90, 1, 32⟩ : Shift).moves c = true := by
      simp [Shift.moves, hcapital, Nat.mod_one]
    rw [hmoves, ← Char.ofNat_toNat c.toLower, toNat_toLower_of_capital hcapital]
    rfl
  · have hstays : (⟨65, 90, 1, 32⟩ : Shift).moves c = false := by
      simp [Shift.moves]
      omega
    rw [hstays, toLower_of_not_capital hcapital]

theorem lowerAfter_ascii {s : List Char} (hs : IsAscii s) (before : List Char) :
    lowerAfter before s = s.map Char.toLower := by
  induction s generalizing before with
  | nil => rfl
  | cons c s ih =>
    obtain ⟨hc, hs⟩ := isAscii_cons.mp hs
    have hsigma : c ≠ capitalSigma := by
      rintro rfl
      exact absurd hc (by decide)
    rw [lowerAfter, if_neg hsigma, lowerChar_ascii hc, ih hs, List.map_cons, List.singleton_append]

theorem toList_lower {s : String} (hs : IsAscii s.toList) :
    (lower s).toList = s.toList.map Char.toLower := by
  rw [lower, String.toList_ofList, lowerAfter_ascii hs]

theorem toLower_eq_percent {c : Char} (h : c.toLower = '%') : c = '%' := by
  by_cases hcapital : 65 ≤ c.toNat ∧ c.toNat ≤ 90
  · have hnat := toNat_toLower_of_capital hcapital
    rw [h, show '%'.toNat = 37 from rfl] at hnat
    omega
  · rwa [toLower_of_not_capital hcapital] at h

end Text

namespace Store.Sql

open Program Text

/-! ### Patterns -/

def signs : List Char := ['%', '_', '\\']

/-- What a database says of its operator `ILIKE`, as far as ASCII goes. Nothing is said of a pattern
that ends with a backslash that quotes nothing. -/
structure IsLike (like : List Char → List Char → Prop) : Prop where
  nil {s : List Char} : like [] s ↔ s = []
  any {p s : List Char} (hp : IsAscii p) (hs : IsAscii s) :
    like ('%' :: p) s ↔ ∃ skipped rest, s = skipped ++ rest ∧ like p rest
  one {p s : List Char} (hp : IsAscii p) (hs : IsAscii s) :
    like ('_' :: p) s ↔ ∃ c rest, s = c :: rest ∧ like p rest
  quoted {c : Char} {p s : List Char} (hp : IsAscii (c :: p)) (hs : IsAscii s) :
    like ('\\' :: c :: p) s ↔ ∃ d rest, s = d :: rest ∧ d.toLower = c.toLower ∧ like p rest
  plain {c : Char} {p s : List Char} (hc : c ∉ signs) (hp : IsAscii (c :: p)) (hs : IsAscii s) :
    like (c :: p) s ↔ ∃ d rest, s = d :: rest ∧ d.toLower = c.toLower ∧ like p rest

def starts (accepts : Char → Bool) (next : List Char → Bool) : List Char → Bool
  | [] => false
  | d :: rest => accepts d && next rest

theorem starts_iff {accepts : Char → Bool} {next : List Char → Bool} {s : List Char} :
    starts accepts next s = true ↔ ∃ d rest, s = d :: rest ∧ accepts d = true ∧ next rest = true := by
  cases s with
  | nil => simp [starts]
  | cons d rest => simp [starts]

theorem starts_append {accepts : Char → Bool} {next first last : List Char → Bool}
    (h : ∀ s, next s = true ↔ ∃ v w, s = v ++ w ∧ first v = true ∧ last w = true) {s : List Char} :
    starts accepts next s = true ↔
      ∃ v w, s = v ++ w ∧ starts accepts first v = true ∧ last w = true := by
  rw [starts_iff]
  constructor
  · rintro ⟨d, rest, rfl, hd, hrest⟩
    obtain ⟨v, w, rfl, hv, hw⟩ := (h rest).mp hrest
    exact ⟨d :: v, w, rfl, starts_iff.mpr ⟨d, v, rfl, hd, hv⟩, hw⟩
  · rintro ⟨_, w, rfl, hstarts, hw⟩
    obtain ⟨d, v, rfl, hd, hv⟩ := starts_iff.mp hstarts
    exact ⟨d, v ++ w, rfl, hd, (h _).mpr ⟨v, w, rfl, hv, hw⟩⟩

def isSameLetter (c d : Char) : Bool := d.toLower = c.toLower

def fits : List Char → List Char → Bool
  | [] => List.isEmpty
  | '%' :: p => fun s => s.tails.any (fits p)
  | '_' :: p => starts (fun _ => true) (fits p)
  | '\\' :: c :: p => starts (isSameLetter c) (fits p)
  | c :: p => starts (isSameLetter c) (fits p)

theorem fits_nil {s : List Char} : fits [] s = true ↔ s = [] :=
  List.isEmpty_iff

theorem fits_any {p s : List Char} :
    fits ('%' :: p) s = true ↔ ∃ skipped rest, s = skipped ++ rest ∧ fits p rest = true := by
  simp only [fits, List.any_eq_true, List.mem_tails]
  constructor
  · rintro ⟨rest, ⟨skipped, rfl⟩, hrest⟩
    exact ⟨skipped, rest, rfl, hrest⟩
  · rintro ⟨skipped, rest, rfl, hrest⟩
    exact ⟨rest, List.suffix_append skipped rest, hrest⟩

theorem fits_one {p s : List Char} :
    fits ('_' :: p) s = true ↔ ∃ c rest, s = c :: rest ∧ fits p rest = true := by
  simp [fits, starts_iff]

theorem fits_quoted {c : Char} {p s : List Char} : fits ('\\' :: c :: p) s = true ↔
    ∃ d rest, s = d :: rest ∧ d.toLower = c.toLower ∧ fits p rest = true := by
  simp [fits, starts_iff, isSameLetter]

theorem fits_of_not_sign {c : Char} (hc : c ∉ signs) (p : List Char) :
    fits (c :: p) = starts (isSameLetter c) (fits p) := by
  simp only [signs, List.mem_cons, List.not_mem_nil, or_false, not_or] at hc
  cases p <;> simp [fits, hc]

theorem fits_plain {c : Char} {p s : List Char} (hc : c ∉ signs) : fits (c :: p) s = true ↔
    ∃ d rest, s = d :: rest ∧ d.toLower = c.toLower ∧ fits p rest = true := by
  simp [fits_of_not_sign hc, starts_iff, isSameLetter]

theorem isLike_fits : IsLike fun p s => fits p s = true where
  nil := fits_nil
  any _ _ := fits_any
  one _ _ := fits_one
  quoted _ _ := fits_quoted
  plain hc _ _ := fits_plain hc

/-- Every backslash in a pattern quotes a character. -/
inductive IsClosed : List Char → Prop where
  | nil : IsClosed []
  | any {p : List Char} (hp : IsClosed p) : IsClosed ('%' :: p)
  | one {p : List Char} (hp : IsClosed p) : IsClosed ('_' :: p)
  | quoted (c : Char) {p : List Char} (hp : IsClosed p) : IsClosed ('\\' :: c :: p)
  | plain {c : Char} (hc : c ∉ signs) {p : List Char} (hp : IsClosed p) : IsClosed (c :: p)

theorem IsClosed.cons {c : Char} (hc : c ≠ '\\') {p : List Char} (hp : IsClosed p) :
    IsClosed (c :: p) := by
  by_cases hany : c = '%'
  · exact hany ▸ hp.any
  by_cases hone : c = '_'
  · exact hone ▸ hp.one
  · exact .plain (by simp [signs, hany, hone, hc]) hp

theorem isClosed_or_open (p : List Char) : IsClosed p ∨ ∃ q, IsClosed q ∧ p = q ++ ['\\'] := by
  match p with
  | [] => exact .inl .nil
  | c :: p =>
    by_cases hc : c = '\\'
    · subst hc
      match p with
      | [] => exact .inr ⟨[], .nil, rfl⟩
      | d :: p =>
        obtain hp | ⟨q, hq, rfl⟩ := isClosed_or_open p
        · exact .inl (hp.quoted d)
        · exact .inr ⟨'\\' :: d :: q, hq.quoted d, rfl⟩
    · obtain hp | ⟨q, hq, rfl⟩ := isClosed_or_open p
      · exact .inl (hp.cons hc)
      · exact .inr ⟨c :: q, hq.cons hc, rfl⟩

theorem IsClosed.append {p q : List Char} (hp : IsClosed p) (hq : IsClosed q) :
    IsClosed (p ++ q) := by
  induction hp with
  | nil => exact hq
  | any _ ih => exact ih.any
  | one _ ih => exact ih.one
  | quoted c _ ih => exact ih.quoted c
  | plain hc _ ih => exact ih.plain hc

theorem IsLike.iff_fits {like : List Char → List Char → Prop} (h : IsLike like) {p s : List Char}
    (hclosed : IsClosed p) (hp : IsAscii p) (hs : IsAscii s) : like p s ↔ fits p s = true := by
  induction hclosed generalizing s with
  | nil => exact h.nil.trans fits_nil.symm
  | any _ ih =>
    have hp := (isAscii_cons.mp hp).2
    rw [h.any hp hs, fits_any]
    refine exists₂_congr fun skipped rest => and_congr_right ?_
    rintro rfl
    exact ih hp (isAscii_append.mp hs).2
  | one _ ih =>
    have hp := (isAscii_cons.mp hp).2
    rw [h.one hp hs, fits_one]
    refine exists₂_congr fun d rest => and_congr_right ?_
    rintro rfl
    exact ih hp (isAscii_cons.mp hs).2
  | quoted c _ ih =>
    have hp := (isAscii_cons.mp hp).2
    rw [h.quoted hp hs, fits_quoted]
    refine exists₂_congr fun d rest => and_congr_right ?_
    rintro rfl
    exact and_congr_right fun _ => ih (isAscii_cons.mp hp).2 (isAscii_cons.mp hs).2
  | plain hc _ ih =>
    rw [h.plain hc hp hs, fits_plain hc]
    refine exists₂_congr fun d rest => and_congr_right ?_
    rintro rfl
    exact and_congr_right fun _ => ih (isAscii_cons.mp hp).2 (isAscii_cons.mp hs).2

theorem IsClosed.fits_append {p q s : List Char} (hp : IsClosed p) : fits (p ++ q) s = true ↔
    ∃ v w, s = v ++ w ∧ fits p v = true ∧ fits q w = true := by
  induction hp generalizing s with
  | nil => simp [fits_nil]
  | @any p _ ih =>
    rw [List.cons_append, fits_any]
    constructor
    · rintro ⟨skipped, rest, rfl, hrest⟩
      obtain ⟨v, w, rfl, hv, hw⟩ := ih.mp hrest
      exact ⟨skipped ++ v, w, (List.append_assoc ..).symm, fits_any.mpr ⟨skipped, v, rfl, hv⟩, hw⟩
    · rintro ⟨_, w, rfl, hfits, hw⟩
      obtain ⟨skipped, v, rfl, hv⟩ := fits_any.mp hfits
      exact ⟨skipped, v ++ w, List.append_assoc .., ih.mpr ⟨v, w, rfl, hv, hw⟩⟩
  | one _ ih => exact starts_append fun _ => ih
  | quoted c _ ih => exact starts_append fun _ => ih
  | plain hc _ ih =>
    rw [List.cons_append, fits_of_not_sign hc, fits_of_not_sign hc]
    exact starts_append fun _ => ih

theorem fits_iff_of_not_signs {p s : List Char} (hp : ∀ c ∈ p, c ∉ signs) :
    fits p s = true ↔ s.map Char.toLower = p.map Char.toLower := by
  induction p generalizing s with
  | nil => rw [fits_nil, List.map_nil, List.map_eq_nil_iff]
  | cons c p ih =>
    obtain ⟨hc, hp⟩ := List.forall_mem_cons.mp hp
    rw [fits_plain hc, List.map_cons, List.map_eq_cons_iff]
    exact exists₂_congr fun d rest => and_congr_right fun _ => and_congr_right fun _ => ih hp

theorem isClosed_of_not_signs {p : List Char} (hp : ∀ c ∈ p, c ∉ signs) : IsClosed p := by
  induction p with
  | nil => exact .nil
  | cons c p ih =>
    obtain ⟨hc, hp⟩ := List.forall_mem_cons.mp hp
    exact .plain hc (ih hp)

theorem IsClosed.exists_fits {p : List Char} (hclosed : IsClosed p) (hp : IsAscii p) :
    ∃ s, IsAscii s ∧ fits p s = true ∧ s.length ≤ p.length ∧
      (s.map Char.toLower = p.map Char.toLower → ∀ c ∈ p, c ∉ signs) := by
  -- where the pattern has a sign, the text is shorter or has another letter there
  induction hclosed with
  | nil => exact ⟨[], hp, rfl, le_rfl, fun _ _ h => nomatch h⟩
  | any _ ih =>
    obtain ⟨s, hs, hfits, hle, -⟩ := ih (isAscii_cons.mp hp).2
    refine ⟨s, hs, fits_any.mpr ⟨[], s, rfl, hfits⟩, Nat.le_succ_of_le hle, fun heq => ?_⟩
    have hlength := congrArg List.length heq
    simp only [List.length_map, List.length_cons] at hlength
    omega
  | one _ ih =>
    obtain ⟨s, hs, hfits, hle, -⟩ := ih (isAscii_cons.mp hp).2
    refine ⟨'a' :: s, isAscii_cons.mpr ⟨by decide, hs⟩, fits_one.mpr ⟨'a', s, rfl, hfits⟩,
      Nat.succ_le_succ hle, fun heq => ?_⟩
    exact absurd (List.cons.inj heq).1 (by decide)
  | quoted c _ ih =>
    obtain ⟨hc, hp⟩ := isAscii_cons.mp (isAscii_cons.mp hp).2
    obtain ⟨s, hs, hfits, hle, -⟩ := ih hp
    refine ⟨c :: s, isAscii_cons.mpr ⟨hc, hs⟩, fits_quoted.mpr ⟨c, s, rfl, rfl, hfits⟩,
      Nat.le_succ_of_le (Nat.succ_le_succ hle), fun heq => ?_⟩
    have hlength := congrArg List.length heq
    simp only [List.length_map, List.length_cons] at hlength
    omega
  | @plain c hsign _ _ ih =>
    obtain ⟨hc, hp⟩ := isAscii_cons.mp hp
    obtain ⟨s, hs, hfits, hle, hsigns⟩ := ih hp
    refine ⟨c :: s, isAscii_cons.mpr ⟨hc, hs⟩, (fits_plain hsign).mpr ⟨c, s, rfl, rfl, hfits⟩,
      Nat.succ_le_succ hle, fun heq => ?_⟩
    exact List.forall_mem_cons.mpr ⟨hsign, hsigns (List.cons.inj heq).2⟩

/-! ### What the pattern of a key stands for -/

theorem toList_pattern (key : String) : (pattern key).toList = '%' :: (key.toList ++ ['%']) := by
  simp [pattern]

theorem isAscii_pattern {key : String} (h : IsAscii key.toList) :
    IsAscii (pattern key).toList := by
  rw [toList_pattern]
  exact isAscii_cons.mpr ⟨by decide, isAscii_append.mpr ⟨h, by decide⟩⟩

theorem isClosed_pattern (key : String) : IsClosed (pattern key).toList := by
  rw [toList_pattern]
  apply IsClosed.any
  obtain h | ⟨q, hq, hkey⟩ := isClosed_or_open key.toList
  · exact h.append (.any .nil)
  · rw [hkey, List.append_assoc]
    exact hq.append (.quoted '%' .nil)

theorem fits_percent (s : List Char) : fits ['%'] s = true :=
  fits_any.mpr ⟨s, [], (List.append_nil s).symm, rfl⟩

theorem fits_quoted_percent {s : List Char} : fits ['\\', '%'] s = true ↔ s = ['%'] := by
  rw [fits_quoted]
  constructor
  · rintro ⟨d, rest, rfl, hd, hrest⟩
    rw [fits_nil.mp hrest, toLower_eq_percent hd]
  · rintro rfl
    exact ⟨'%', [], rfl, rfl, rfl⟩

theorem fits_pattern {key : String} (hkey : IsClosed key.toList) {s : List Char} :
    fits (pattern key).toList s = true ↔ ∃ found, found <:+: s ∧ fits key.toList found = true := by
  rw [toList_pattern, fits_any]
  constructor
  · rintro ⟨skipped, _, rfl, h⟩
    obtain ⟨found, rest, rfl, hfound, -⟩ := hkey.fits_append.mp h
    exact ⟨found, ⟨skipped, rest, List.append_assoc ..⟩, hfound⟩
  · rintro ⟨found, ⟨skipped, rest, rfl⟩, hfound⟩
    refine ⟨skipped, found ++ rest, List.append_assoc .., ?_⟩
    exact hkey.fits_append.mpr ⟨found, rest, rfl, hfound, fits_percent rest⟩

theorem fits_pattern_open {key : String} {q : List Char} (hq : IsClosed q)
    (hkey : key.toList = q ++ ['\\']) {s : List Char} : fits (pattern key).toList s = true ↔
      ∃ found, found ++ ['%'] <:+ s ∧ fits q found = true := by
  rw [toList_pattern, hkey, List.append_assoc, fits_any]
  constructor
  · rintro ⟨skipped, _, rfl, h⟩
    obtain ⟨found, rest, rfl, hfound, hrest⟩ := hq.fits_append.mp h
    rw [fits_quoted_percent.mp hrest]
    exact ⟨found, List.suffix_append .., hfound⟩
  · rintro ⟨found, ⟨skipped, rfl⟩, hfound⟩
    refine ⟨skipped, found ++ ['%'], rfl, ?_⟩
    exact hq.fits_append.mpr ⟨found, ['%'], rfl, hfound, fits_quoted_percent.mpr rfl⟩

/-- Some name fits the pattern of a key that has signs, and does not hold the key. -/
theorem exists_fits_pattern {key : String} (hkey : IsAscii key.toList) :
    ∃ name, IsAscii name ∧ fits (pattern key).toList name = true ∧
      (key.toList.map Char.toLower <:+: name.map Char.toLower → ∀ c ∈ key.toList, c ∉ signs) := by
  obtain hclosed | ⟨q, hq, heq⟩ := isClosed_or_open key.toList
  · obtain ⟨s, hs, hfits, hle, hsigns⟩ := hclosed.exists_fits hkey
    refine ⟨s, hs, (fits_pattern hclosed).mpr ⟨s, List.infix_rfl, hfits⟩, fun hholds => ?_⟩
    exact hsigns (hholds.eq_of_length_le (by simpa using hle)).symm
  · rw [heq] at hkey
    obtain ⟨s, hs, hfits, hle, -⟩ := hq.exists_fits (isAscii_append.mp hkey).1
    refine ⟨s ++ ['%'], isAscii_append.mpr ⟨hs, by decide⟩,
      (fits_pattern_open hq heq).mpr ⟨s, List.suffix_rfl, hfits⟩, fun hholds => ?_⟩
    rw [heq] at hholds
    have hmaps := hholds.eq_of_length_le (by simpa using hle)
    rw [List.map_append, List.map_append] at hmaps
    exact absurd (List.append_inj_right' hmaps rfl) (by decide)

/-- Of any roles a search of tables finds those whose names fit the pattern of the key. -/
def IsSearchedAlike (like : List Char → List Char → Prop) (key : String) : Prop :=
  ∀ (t : Tables) (r : Role), r ∈ t.roles.rows → IsAscii r.name.toList →
    (like (pattern key).toList r.name.toList ↔ r ∈ t.matchingRoles key)

theorem trace_bind_ofExcept {α β : Type} (p : Program α) (f : α → Except Error β) (w : World) :
    (p >>= fun a => ofExcept (f a)).trace w = p.trace w := by
  have hnone (x : Except Error β) (v : World) : (ofExcept x).trace v = [] := by cases x <;> rfl
  rw [trace_bind]
  rcases p.run w with ⟨e | a, v⟩
  · exact List.append_nil _
  · exact (congrArg _ (hnone (f a) v)).trans (List.append_nil _)

theorem trace_connected {α : Type} (p : Program α) {w : World}
    (hw : w.database.connected = true) :
    (connected p).trace w = .database .acquire ::
      (p.trace (w.answer (.database .acquire)).2 ++ [.database .release]) := by
  have hacquired : (w.answer (.database .acquire)).1 = .ok () := if_pos hw
  change .database .acquire :: Program.trace (ofExcept (w.answer (.database .acquire)).1 >>= _) _ = _
  rw [hacquired]
  change _ :: (p.attempt >>= fun outcome => Program.perform _ >>= fun _ => ofExcept outcome).trace _ = _
  rw [trace_bind, trace_attempt, run_attempt]
  exact congrArg (fun rest => _ :: (_ ++ rest)) (trace_bind_ofExcept (Program.perform _) _ _)

theorem trace_rolesLike (key : String) (offset limit : Int) {w : World}
    (hw : w.database.connected = true) :
    (call (.rolesLike key offset limit)).trace w =
      [.database .acquire,
       .database (.rows ⟨"SELECT * FROM role WHERE name ILIKE $1 ORDER BY name OFFSET $2 LIMIT $3",
         [.text (pattern key), .int offset, .int limit]⟩),
       .database .release] := by
  refine (trace_bind_ofExcept (connected _) _ w).trans ((trace_connected _ hw).trans ?_)
  rw [trace_bind_ofExcept]
  rfl

section

variable {like : List Char → List Char → Prop} {key : String}

theorem matchingRoles_iff (hkey : IsAscii key.toList) {t : Tables} {r : Role}
    (hr : r ∈ t.roles.rows) (hname : IsAscii r.name.toList) : r ∈ t.matchingRoles key ↔
      key.toList.map Char.toLower <:+: r.name.toList.map Char.toLower := by
  rw [(t.isFound_matchingRoles key).complete, Role.Holds, toList_lower hkey, toList_lower hname]
  exact and_iff_right hr

theorem isSearchedAlike_of_not_signs (hlike : IsLike like) (hkey : IsAscii key.toList)
    (hsigns : ∀ c ∈ key.toList, c ∉ signs) : IsSearchedAlike like key := by
  intro t r hr hname
  rw [hlike.iff_fits (isClosed_pattern key) (isAscii_pattern hkey) hname,
    fits_pattern (isClosed_of_not_signs hsigns), matchingRoles_iff hkey hr hname,
    List.infix_map_iff]
  refine exists_congr fun found => and_congr_right fun _ => ?_
  rw [fits_iff_of_not_signs hsigns]
  exact eq_comm

theorem IsSearchedAlike.not_signs (h : IsSearchedAlike like key) (hlike : IsLike like)
    (hkey : IsAscii key.toList) : ∀ c ∈ key.toList, c ∉ signs := by
  obtain ⟨name, hname, hfits, hsigns⟩ := exists_fits_pattern hkey
  let role : Role := ⟨"r1", String.ofList name, "", .ofSeconds 0, .ofSeconds 0⟩
  let t : Tables := { Tables.empty with roles := ⟨[role], List.nodup_singleton _⟩ }
  have hrole : role ∈ t.roles.rows := List.mem_singleton_self role
  have hnamed : role.name.toList = name := String.toList_ofList
  have hlikes : like (pattern key).toList name :=
    (hlike.iff_fits (isClosed_pattern key) (isAscii_pattern hkey) hname).mpr hfits
  rw [← hnamed] at hname hlikes hsigns
  exact hsigns ((matchingRoles_iff hkey hrole hname).mp ((h t role hrole hname).mp hlikes))

/-- A search of the database hands over the pattern of its key, and by what is said of the operator
it finds the names that hold a text that the key stands for; a backslash that ends the key takes the
last percent sign of the pattern, so that the names must end with it. It goes like a search of
tables if and only if no sign is in the key. -/
theorem searches_alike_iff (hlike : IsLike like) (hkey : IsAscii key.toList) :
    (∀ (w : World) (offset limit : Int), w.database.connected = true →
      (call (.rolesLike key offset limit)).trace w =
        [.database .acquire,
         .database
          (.rows ⟨"SELECT * FROM role WHERE name ILIKE $1 ORDER BY name OFFSET $2 LIMIT $3",
            [.text (pattern key), .int offset, .int limit]⟩),
         .database .release]) ∧
    (∀ (t : Tables) (r : Role), r ∈ t.matchingRoles key ↔ r ∈ t.roles.rows ∧ r.Holds key) ∧
    (IsSearchedAlike like key ↔ ∀ c ∈ key.toList, c ∉ signs) ∧
    (IsClosed key.toList → ∀ name, IsAscii name →
      (like (pattern key).toList name ↔ ∃ found, found <:+: name ∧ like key.toList found)) ∧
    ∀ p, IsClosed p → key.toList = p ++ ['\\'] → ∀ name, IsAscii name →
      (like (pattern key).toList name ↔ ∃ found, found ++ ['%'] <:+ name ∧ like p found) := by
  refine ⟨fun w offset limit => trace_rolesLike key offset limit,
    fun t => (t.isFound_matchingRoles key).complete, ?_, ?_, ?_⟩
  · exact ⟨fun h => h.not_signs hlike hkey, isSearchedAlike_of_not_signs hlike hkey⟩
  · intro hclosed name hname
    rw [hlike.iff_fits (isClosed_pattern key) (isAscii_pattern hkey) hname, fits_pattern hclosed]
    refine exists_congr fun found => and_congr_right fun hpart => ?_
    have hfound : IsAscii found := fun c hc => hname c (hpart.subset hc)
    exact (hlike.iff_fits hclosed hkey hfound).symm
  · intro p hp heq name hname
    rw [hlike.iff_fits (isClosed_pattern key) (isAscii_pattern hkey) hname,
      fits_pattern_open hp heq]
    refine exists_congr fun found => and_congr_right fun hsuffix => ?_
    have hfound : IsAscii found := fun c hc => hname c (hsuffix.subset (List.mem_append_left _ hc))
    rw [heq] at hkey
    exact (hlike.iff_fits hp (isAscii_append.mp hkey).1 hfound).symm

end

theorem searches_alike_iff_underscore :
    IsLike (fun p s => fits p s = true) ∧ IsAscii "a_b".toList ∧
      fits (pattern "a_b").toList "OAXBY".toList = true ∧
      ¬ IsSearchedAlike (fun p s => fits p s = true) "a_b" := by
  have hkey : IsAscii "a_b".toList := by decide
  refine ⟨isLike_fits, hkey, by decide, fun h => ?_⟩
  have hsigns := (searches_alike_iff isLike_fits hkey).2.2.1.mp h
  exact hsigns '_' (by decide) (by decide)

example : fits ['%', 'a', '\\', '%'] ['a', '\\'] = false ∧
    fits ['%', 'a', '\\', '%'] ['A', '%'] = true := by decide

end Store.Sql

end AccessControl
