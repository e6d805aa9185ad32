import AccessControl.Proofs.Once.Visits

/-!
One resolution at a time. Whatever callers do, all who join a resolution are told its ending, a value
lasts, and a failure is given up by those who are told of it, who spare any resolution that was
started since.
-/

namespace AccessControl.Once

variable {κ α : Type} [DecidableEq κ] {m : Once κ α} {n : Nat} {c d : κ} {x : Ending α}

/-! A resolution that is held. -/

theorem ending?_make (h : m.ending? n = some x) (move : Move κ α) :
    (m.make move).ending? n = some x := by
  cases move with
  | get c =>
    rw [make, get]
    split
    · rw [join]
      split <;> exact h
    · rw [join]
      split <;> exact h
  | finish y =>
    rw [make, finish]
    split
    · exact ending?_append h y
    · exact h
  | cancel c =>
    rw [make, cancel]
    split <;> exact h
  | wake c =>
    rw [make, wake]
    split
    · exact h
    · split <;> exact h

theorem calls_make (h : m.held = some n) (move : Move κ α) : (m.make move).calls = m.calls := by
  cases move with
  | get c =>
    rw [make, get_held h, join]
    split <;> rfl
  | finish y =>
    rw [make, finish]
    split <;> rfl
  | cancel c =>
    rw [make, cancel]
    split <;> rfl
  | wake c =>
    rw [make, wake]
    split
    · rfl
    · split <;> rfl

theorem held_make (h : m.held = some n) (move : Move κ α) :
    (m.make move).held = some n ∨ (m.make move).held = none ∧ ∃ e c,
      m.ending? n = some (.error e) ∧ move.caller? = some c ∧
        (m.make move).toldOf c = m.toldOf c ++ [.error e] := by
  -- only who is told of a failure empties what is held, at once or when it wakes
  have htell (m' : Once κ α) {k : Nat} {x : Ending α} (hheld : m'.held = some n)
      (hx : m.ending? k = some x) (c : κ) : (m'.tell c k x).held = some n ∨
        (m'.tell c k x).held = none ∧ ∃ e, m.ending? n = some (.error e) ∧ x = .error e := by
    rcases held_tell m' c k x with heq | ⟨hnone, hk, e, rfl⟩
    · exact .inl (heq.trans hheld)
    · obtain rfl := Option.some.inj (hk.symm.trans hheld)
      exact .inr ⟨hnone, e, hx, rfl⟩
  cases move with
  | get c =>
    rw [make, get_held h]
    cases hn : m.ending? n with
    | none =>
      rw [join_inFlight hn]
      exact .inl h
    | some x =>
      rw [join_ended hn]
      refine (htell m h hn c).imp_right ?_
      rintro ⟨hnone, e, he, rfl⟩
      exact ⟨hnone, e, c, hn.symm.trans he, rfl, toldOf_tell_self m c n (.error e)⟩
  | finish y =>
    rw [make, finish]
    split <;> exact .inl h
  | cancel c =>
    rw [make, cancel]
    split <;> exact .inl h
  | wake c =>
    rw [make, wake]
    cases hfind : m.waiting.find? (·.1 = c) with
    | none => exact .inl h
    | some w =>
      cases hx : m.ending? w.2 with
      | none =>
        simp only [hx]
        exact .inl h
      | some x =>
        simp only [hx]
        refine (htell (m.left c) h hx c).imp_right ?_
        rintro ⟨hnone, e, he, rfl⟩
        exact ⟨hnone, e, c, he, rfl, toldOf_tell_self (m.left c) c w.2 (.error e)⟩

theorem held_makeAll_of_ne_error (hheld : m.held = some n) (hn : m.ending? n = some x)
    (hx : ∀ e, x ≠ .error e) (moves : List (Move κ α)) :
    (m.makeAll moves).held = some n ∧ (m.makeAll moves).ending? n = some x ∧
      (m.makeAll moves).calls = m.calls := by
  induction moves generalizing m with
  | nil => exact ⟨hheld, hn, rfl⟩
  | cons move moves ih =>
    have hnext : (m.make move).held = some n := by
      rcases held_make hheld move with hnext | ⟨-, e, -, he, -⟩
      · exact hnext
      · exact absurd (Option.some.inj (hn.symm.trans he)) (hx e)
    obtain ⟨h₁, h₂, h₃⟩ := ih hnext (ending?_make hn move)
    exact ⟨h₁, h₂, h₃.trans (calls_make hheld move)⟩

theorem held_makeAll {a : α} (hheld : m.held = some n) (hn : m.ending? n = some (.value a))
    (moves : List (Move κ α)) :
    (m.makeAll moves).held = some n ∧ (m.makeAll moves).ending? n = some (.value a) ∧
      (m.makeAll moves).calls = m.calls :=
  held_makeAll_of_ne_error hheld hn (by simp) moves

/-! What is left of a run without one of its callers. -/

def without (m : Once κ α) (c : κ) : Once κ α :=
  { m with
    waiting := m.waiting.filter (·.1 ≠ c)
    told := m.told.filter (·.1 ≠ c) }

theorem without_tell (h : d ≠ c) (n : Nat) (x : Ending α) :
    (m.tell d n x).without c = (m.without c).tell d n x := by
  simp [without, tell, h]

theorem without_join (h : d ≠ c) (n : Nat) :
    (m.join d n).without c = (m.without c).join d n := by
  cases hn : m.ending? n with
  | none =>
    rw [join_inFlight hn, join_inFlight (m := m.without c) hn]
    simp [without, h]
  | some x =>
    rw [join_ended hn, join_ended (m := m.without c) hn]
    exact without_tell h n x

theorem find?_without (h : d ≠ c) :
    (m.without c).waiting.find? (·.1 = d) = m.waiting.find? (·.1 = d) := by
  rw [without, List.find?_filter]
  congr 1
  funext w
  by_cases hw : w.1 = d <;> simp [hw, h]

theorem any_without (h : d ≠ c) :
    (m.without c).waiting.any (·.1 = d) = m.waiting.any (·.1 = d) := by
  rw [without, List.any_filter]
  congr 1
  funext w
  by_cases hw : w.1 = d <;> simp [hw, h]

theorem without_left (m : Once κ α) (c d : κ) :
    (m.left d).without c = (m.without c).left d := by
  simp only [without, left, List.filter_filter, Bool.and_comm]

theorem without_make {move : Move κ α} (h : move.caller? ≠ some c) :
    (m.make move).without c = (m.without c).make move := by
  cases move with
  | get d =>
    have hd : d ≠ c := by simpa [Move.caller?] using h
    cases hheld : m.held with
    | none =>
      rw [make, make, get, get, hheld, show (m.without c).held = none from hheld]
      exact without_join hd m.calls
    | some n =>
      rw [make, make, get_held hheld, get_held (m := m.without c) hheld]
      exact without_join hd n
  | finish x =>
    rw [make, make, finish, finish, show (m.without c).inFlight = m.inFlight from rfl]
    split <;> rfl
  | cancel d =>
    have hd : d ≠ c := by simpa [Move.caller?] using h
    rw [make, make, cancel, cancel, any_without hd]
    split
    · simp [without, hd, Bool.and_comm]
    · rfl
  | wake d =>
    have hd : d ≠ c := by simpa [Move.caller?] using h
    rw [make, make, wake, wake, find?_without hd]
    cases hfind : m.waiting.find? (·.1 = d) with
    | none => rfl
    | some w =>
      simp only [show (m.without c).ending? w.2 = m.ending? w.2 from rfl]
      cases hx : m.ending? w.2 with
      | none => rfl
      | some x =>
        simp only
        exact (without_tell (m := m.left d) hd w.2 x).trans
          (congrArg (Once.tell · d w.2 x) (without_left m c d))

theorem without_makeAll {moves : List (Move κ α)} (h : ∀ move ∈ moves, move.caller? ≠ some c) :
    (m.makeAll moves).without c = (m.without c).makeAll moves := by
  induction moves generalizing m with
  | nil => rfl
  | cons move moves ih =>
    have hrest := ih (m := m.make move) fun move' h' => h move' (List.mem_cons_of_mem _ h')
    rw [without_make (h move List.mem_cons_self)] at hrest
    exact hrest

theorem without_cancel (m : Once κ α) (c : κ) : (m.cancel c).without c = m.without c := by
  by_cases h : c ∈ m.waiting.map Prod.fst
  · rw [cancel_waiting h]
    simp [without, left, List.filter_filter]
  · rw [cancel_absent h]

/-! A resolution that failed. -/

theorem held_wake_free (h : m.held = none) (c : κ) : (m.wake c).held = none := by
  rw [wake]
  split
  · exact h
  · split
    · exact h
    · rename_i x _
      rcases held_tell (m.left c) c _ x with heq | ⟨hnone, -⟩
      · exact heq.trans h
      · exact hnone

theorem Visit.IsSound.held_wakeAll {v : Visit κ α} (h : v.IsSound) {e : Error}
    (hw : (c, n) ∈ v.once.waiting) (hheld : v.once.held = some n)
    (hn : v.once.ending? n = some (.error e)) {ws : List (κ × Nat)} (hc : c ∈ ws.map Prod.fst) :
    (ws.foldl (fun m w => m.wake w.1) v.once).held = none := by
  have hfree {m : Once κ α} (hm : m.held = none) (ws : List (κ × Nat)) :
      (ws.foldl (fun m w => m.wake w.1) m).held = none := by
    induction ws generalizing m with
    | nil => exact hm
    | cons w ws ih => exact ih (held_wake_free hm w.1)
  -- a caller that wakes earlier leaves what is held, or empties it itself
  induction ws generalizing v with
  | nil => cases hc
  | cons w ws ih =>
    rw [List.foldl_cons]
    by_cases hwc : w.1 = c
    · apply hfree
      rw [hwc, wake_ended hw (h.waiting hw).2.1 hn, held_tell_error]
      exact if_pos hheld
    · have hnext := h.take_wake w.1
      rcases held_make hheld (.wake w.1) with hkept | ⟨hnone, -⟩
      · have hwaits : (c, n) ∈ (v.once.wake w.1).waiting := by
          by_cases hmem : w.1 ∈ v.once.waiting.map Prod.fst
          · obtain ⟨⟨d, k⟩, hd, hdw⟩ := List.mem_map.mp hmem
            obtain rfl : d = w.1 := hdw
            have hone := (h.waiting hd).2.1
            cases hk : v.once.ending? k with
            | none =>
              rw [wake_inFlight hd hone hk]
              exact hw
            | some x =>
              rw [wake_ended hd hone hk]
              exact mem_waiting_left.mpr ⟨hw, Ne.symm hwc⟩
          · rw [wake_absent hmem]
            exact hw
        refine ih hnext hwaits hkept (ending?_make hn (.wake w.1)) ?_
        rcases List.mem_cons.mp hc with heq | hc
        · exact absurd heq.symm hwc
        · exact hc
      · exact hfree hnone ws

/-! The whole. -/

/-- A resolution that was started and has not ended. -/
def Flies (m : Once κ α) (n : Nat) : Prop :=
  n < m.calls ∧ m.ending? n = none

structure Visit.IsSingleFlight (v : Visit κ α) : Prop where
  alone : ∀ n k, v.once.Flies n → v.once.Flies k → n = k
  /-- The resolutions are those that callers have joined, and as many as were counted. -/
  counted : ∀ n, n < v.once.calls ↔ ∃ c, (c, n) ∈ v.joined
  spared : (∃ n, v.once.Flies n) ∨ (∃ a, .value a ∈ v.once.endings) →
    ∀ c, (v.once.get c).calls = v.once.calls
  joinsOne : ∀ c n k, (c, n) ∈ v.joined → (c, k) ∈ v.joined → n = k
  /-- Who has not given up is told the ending of its resolution and nothing else: at the latest when
  it is woken. -/
  told : ∀ c n, (c, n) ∈ v.joined → c ∉ v.cancelled →
    v.once.toldOf c <+: (v.once.ending? n).toList ∧
      (v.once.wake c).toldOf c = (v.once.ending? n).toList
  gaveUp : ∀ c ∈ v.cancelled, v.once.toldOf c = [.cancelled]
  /-- When one gives up, all goes on for the others as if it still waited. -/
  undisturbed : ∀ c moves, (∀ move ∈ moves, Move.caller? move ≠ some c) →
    ((v.once.cancel c).makeAll moves).without c = (v.once.makeAll moves).without c
  lasting : ∀ a, .value a ∈ v.once.endings → ∀ moves, (v.once.makeAll moves).resolved = true ∧
    (v.once.makeAll moves).calls = v.once.calls ∧
    ∀ c, ((v.once.makeAll moves).get c).toldOf c = (v.once.makeAll moves).toldOf c ++ [.value a]
  /-- A caller who is told of a failure empties what is held, unless that is newer. -/
  cleared : ∀ c n e, (c, n) ∈ v.once.waiting → v.once.ending? n = some (.error e) →
    (v.once.wake c).held = if v.once.held = some n then none else v.once.held
  settled : ∀ c n e, (c, n) ∈ v.once.waiting → v.once.ending? n = some (.error e) →
    v.once.held = some n → v.once.settle.held = none
  emptied : ∀ c n e, (c, n) ∈ v.joined → c ∉ v.cancelled → v.once.toldOf c = [.error e] →
    v.once.held ≠ some n
  /-- Nothing else empties it. -/
  guarded : ∀ n, v.once.held = some n → ∀ move, (v.once.make move).held = some n ∨
    (v.once.make move).held = none ∧ ∃ e c, v.once.ending? n = some (.error e) ∧
      move.caller? = some c ∧ (v.once.make move).toldOf c = v.once.toldOf c ++ [.error e]

namespace Visit.IsSound

variable {v : Visit κ α}

theorem held_of_flies (h : v.IsSound) (hn : v.once.Flies n) :
    v.once.held = some n ∧ v.once.endings.length = n := by
  have hlength : v.once.endings.length ≤ n := by
    have := hn.2
    rwa [ending?, List.getElem?_eq_none_iff] at this
  have halone := h.alone
  have hcalls := hn.1
  cases hheld : v.once.held with
  | none =>
    have := h.free hheld
    omega
  | some k =>
    have := h.held k hheld
    exact ⟨congrArg some (by omega), by omega⟩

theorem held_of_value (h : v.IsSound) {a : α} (ha : .value a ∈ v.once.endings) :
    ∃ n, v.once.held = some n ∧ v.once.ending? n = some (.value a) := by
  obtain ⟨n, hn⟩ := List.mem_iff_getElem?.mp ha
  refine ⟨n, ?_, hn⟩
  by_contra hne
  obtain ⟨e, he⟩ := h.failed n (lt_of_ending? hn) hne
  cases hn.symm.trans he

theorem told_eq (h : v.IsSound) (hc : (c, n) ∈ v.joined) (hnot : c ∉ v.cancelled) :
    v.once.toldOf c <+: (v.once.ending? n).toList ∧
      (v.once.wake c).toldOf c = (v.once.ending? n).toList := by
  cases h.stands c n hc with
  | waiting hw hone ht =>
    refine ⟨ht ▸ List.nil_prefix, ?_⟩
    cases hn : v.once.ending? n with
    | none =>
      rw [wake_inFlight hw hone hn]
      exact ht
    | some x =>
      rw [wake_ended hw hone hn, toldOf_tell_self]
      exact congrArg (· ++ [x]) ht
  | told hw ht hx =>
    have habsent : c ∉ v.once.waiting.map Prod.fst := by
      intro hmem
      obtain ⟨⟨d, k⟩, hk, rfl⟩ := List.mem_map.mp hmem
      exact hw k hk
    rw [wake_absent habsent, ht, hx]
    exact ⟨List.prefix_rfl, rfl⟩
  | cancelled _ _ hn => exact absurd hn hnot

theorem told_cancelled (h : v.IsSound) (hc : c ∈ v.cancelled) :
    v.once.toldOf c = [.cancelled] := by
  by_cases hmem : c ∈ v.joined.map Prod.fst
  · obtain ⟨⟨c, n⟩, hn, rfl⟩ := List.mem_map.mp hmem
    cases h.stands c n hn with
    | waiting _ _ _ hnot => exact absurd hc hnot
    | told _ _ _ _ hnot => exact absurd hc hnot
    | cancelled _ ht _ => exact ht
  · exact absurd hc (h.absent c hmem).cancelled

end Visit.IsSound

/-- In every run there is one resolution at a time. -/
theorem Visited.single_flight {v : Visit κ α} (hv : Visited v) : v.IsSingleFlight := by
  have h := hv.isSound
  refine ⟨?_, ?_, ?_, ?_, ?_, ?_, ?_, ?_, ?_, ?_, ?_, ?_⟩
  · intro n k hn hk
    exact (h.held_of_flies hn).2.symm.trans (h.held_of_flies hk).2
  · intro n
    rw [h.joined n, List.mem_map]
    constructor
    · rintro ⟨⟨c, k⟩, hc, rfl⟩
      exact ⟨c, hc⟩
    · rintro ⟨c, hc⟩
      exact ⟨(c, n), hc, rfl⟩
  · intro hbusy c
    obtain ⟨n, hheld⟩ : ∃ n, v.once.held = some n := by
      rcases hbusy with ⟨n, hn⟩ | ⟨a, ha⟩
      · exact ⟨n, (h.held_of_flies hn).1⟩
      · obtain ⟨n, hheld, -⟩ := h.held_of_value ha
        exact ⟨n, hheld⟩
    exact calls_make hheld (.get c)
  · intro c n k hn hk
    exact h.eq_of_joined hk hn
  · intro c n hc hnot
    exact h.told_eq hc hnot
  · intro c hc
    exact h.told_cancelled hc
  · intro c moves hmoves
    rw [without_makeAll hmoves, without_makeAll hmoves, without_cancel]
  · intro a ha moves
    obtain ⟨n, hheld, hn⟩ := h.held_of_value ha
    obtain ⟨hkept, hvalue, hcalls⟩ := held_makeAll hheld hn moves
    refine ⟨?_, hcalls, ?_⟩
    · simp [resolved, outcome?, hkept, hvalue]
    · intro c
      rw [get_held hkept, join_ended hvalue, toldOf_tell_self]
  · intro c n e hw hn
    rw [wake_ended hw (h.waiting hw).2.1 hn, held_tell_error]
    rfl
  · intro c n e hw hn hheld
    exact h.held_wakeAll hw hheld hn (List.mem_map.mpr ⟨(c, n), hw, rfl⟩)
  · intro c n e hc hnot ht
    cases h.stands c n hc with
    | waiting _ _ hnone => cases ht.symm.trans hnone
    | told _ hx _ hheld _ =>
      have he := List.singleton_inj.mp (ht.symm.trans hx)
      exact hheld e he.symm
    | cancelled _ _ hn => exact absurd hn hnot
  · intro n hheld move
    exact held_make hheld move

def overtaken : Visit Nat Nat :=
  [.get 0, .get 1, .cancel 0, .finish (.error .notConnected), .get 2, .get 3, .wake 1,
    .finish (.value 7)].foldl Visit.take {}

theorem visited_overtaken : Visited overtaken := by
  refine .take (.take (.take (.take (.take (.take (.take (.take .start ?_) ?_) ?_) ?_) ?_) ?_) ?_) ?_
  all_goals first | trivial | (simp only [Move.IsOpen]; decide)

theorem single_flight_overtaken : Visited overtaken ∧ overtaken.once.calls = 2 ∧
    overtaken.once.held = some 1 ∧ overtaken.once.resolved = true ∧
    overtaken.once.toldOf 1 = [.error .notConnected] ∧ (3, 1) ∈ overtaken.once.waiting ∧
    overtaken.IsSingleFlight :=
  ⟨visited_overtaken, by decide, by decide, by decide, by decide, by decide,
    visited_overtaken.single_flight⟩

end AccessControl.Once
