import AccessControl.Proofs.Once.Flight

/-!
When the next caller starts over. A resolution is given up by those who are told that it failed, and
by nobody else: when all of its callers had given up before it failed, the next caller is still told
of that failure, and a resolution that was cancelled is told for ever.
-/

namespace AccessControl.Once

variable {κ α : Type} [DecidableEq κ] {m : Once κ α} {n : Nat} {c d : κ} {x : Ending α}

/-- The latest resolution failed and somebody was told so. It counts as told where none was started. -/
def Visit.IsHeard (v : Visit κ α) : Prop :=
  ∀ n, n + 1 = v.once.calls → ∃ c e, (c, n) ∈ v.joined ∧ v.once.toldOf c = [.error e]

inductive Visit.Later (v : Visit κ α) : Visit κ α → Prop where
  | now : v.Later v
  | take {w : Visit κ α} (h : v.Later w) {move : Move κ α} (hmove : move.IsOpen w) :
    v.Later (w.take move)

theorem Visited.later {v w : Visit κ α} (hv : Visited v) (h : v.Later w) : Visited w := by
  induction h with
  | now => exact hv
  | take _ hmove ih => exact ih.take hmove

theorem Visit.joined_take {v : Visit κ α} (h : (c, n) ∈ v.joined) (move : Move κ α) :
    (c, n) ∈ (v.take move).joined := by
  cases move with
  | get d => exact List.mem_append_left _ h
  | finish y => exact h
  | cancel d => exact h
  | wake d => exact h

theorem Visit.Later.joined {v w : Visit κ α} (h : v.Later w) (hc : (c, n) ∈ v.joined) :
    (c, n) ∈ w.joined := by
  induction h with
  | now => exact hc
  | @take w _ move _ ih => exact w.joined_take ih move

/-! Nothing that was told is taken back. -/

omit [DecidableEq κ] in
theorem told_join (m : Once κ α) (c : κ) (n : Nat) : m.told <+: (m.join c n).told := by
  rw [join]
  split
  · exact List.prefix_append _ _
  · exact List.prefix_rfl

theorem told_make (m : Once κ α) (move : Move κ α) : m.told <+: (m.make move).told := by
  cases move with
  | get c =>
    rw [make, get]
    split
    · exact told_join m c _
    · exact told_join { m with calls := m.calls + 1, held := some m.calls } c m.calls
  | finish y =>
    rw [make, finish]
    split <;> exact List.prefix_rfl
  | cancel c =>
    rw [make, cancel]
    split
    · exact List.prefix_append _ _
    · exact List.prefix_rfl
  | wake c =>
    rw [make, wake]
    split
    · exact List.prefix_rfl
    · split
      · exact List.prefix_rfl
      · exact List.prefix_append _ _

theorem toldOf_make (m : Once κ α) (move : Move κ α) (c : κ) :
    m.toldOf c <+: (m.make move).toldOf c :=
  ((told_make m move).filter _).map _

namespace Visit

variable {v : Visit κ α}

theorem IsSound.length_toldOf (h : v.IsSound) (c : κ) : (v.once.toldOf c).length ≤ 1 := by
  by_cases hc : c ∈ v.joined.map Prod.fst
  · obtain ⟨⟨c, n⟩, hn, rfl⟩ := List.mem_map.mp hc
    cases h.stands c n hn with
    | waiting _ _ ht => simp [ht]
    | told _ ht => simp [ht]
    | cancelled _ ht => simp [ht]
  · simp [(h.absent c hc).told]

theorem IsSound.toldOf_take {move : Move κ α} (hnext : (v.take move).IsSound)
    (ht : v.once.toldOf c = [x]) : (v.take move).once.toldOf c = [x] := by
  obtain ⟨rest, hrest⟩ := toldOf_make v.once move c
  have hlength := hnext.length_toldOf c
  change ((v.once.make move).toldOf c).length ≤ 1 at hlength
  change (v.once.make move).toldOf c = [x]
  rw [← hrest, ht] at hlength ⊢
  simpa using hlength

theorem IsSound.emptied (h : v.IsSound) {move : Move κ α} (hmove : move.IsOpen v)
    (hheld : v.once.held = some n) (hnone : (v.once.make move).held ≠ some n) :
    ∃ c e, (c, n) ∈ (v.take move).joined ∧ (v.once.make move).toldOf c = [.error e] := by
  have htell {m : Once κ α} {k : Nat} {c : κ} {x : Ending α} (hm : m.held = some n)
      (ht : m.toldOf c = []) (hne : (m.tell c k x).held ≠ some n) :
      k = n ∧ ∃ e, (m.tell c k x).toldOf c = [.error e] := by
    rcases held_tell m c k x with heq | ⟨-, hk, e, rfl⟩
    · exact absurd (heq.trans hm) hne
    · exact ⟨Option.some.inj (hk.symm.trans hm), e, by rw [toldOf_tell_self, ht, List.nil_append]⟩
  -- only a caller that joins or wakes is told anything
  cases move with
  | get c =>
    rw [make, get_held hheld] at hnone ⊢
    cases hn : v.once.ending? n with
    | none =>
      rw [join_inFlight hn] at hnone
      exact absurd hheld hnone
    | some x =>
      rw [join_ended hn] at hnone ⊢
      obtain ⟨-, e, he⟩ := htell hheld (h.absent c hmove).told hnone
      refine ⟨c, e, ?_, he⟩
      simp [take, hheld]
  | finish y =>
    rw [make, finish] at hnone
    split at hnone <;> exact absurd hheld hnone
  | cancel c =>
    rw [make, cancel] at hnone
    split at hnone <;> exact absurd hheld hnone
  | wake c =>
    by_cases hc : c ∈ v.once.waiting.map Prod.fst
    · obtain ⟨⟨c, k⟩, hw, rfl⟩ := List.mem_map.mp hc
      obtain ⟨hjoined, hone, ht, -⟩ := h.waiting hw
      change (v.once.wake c).held ≠ some n at hnone
      change ∃ d e, (d, n) ∈ v.joined ∧ (v.once.wake c).toldOf d = [.error e]
      cases hk : v.once.ending? k with
      | none =>
        rw [wake_inFlight hw hone hk] at hnone
        exact absurd hheld hnone
      | some x =>
        rw [wake_ended hw hone hk] at hnone ⊢
        obtain ⟨rfl, e, he⟩ := htell (m := v.once.left c) hheld ht hnone
        exact ⟨c, e, hjoined, he⟩
    · rw [make, wake_absent hc] at hnone
      exact absurd hheld hnone

end Visit

/-- What is no longer held has failed, and one of its callers was told so. -/
theorem Visited.let_go {v : Visit κ α} (hv : Visited v) (hn : n < v.once.calls)
    (hheld : v.once.held ≠ some n) :
    ∃ c e, (c, n) ∈ v.joined ∧ v.once.toldOf c = [.error e] := by
  induction hv generalizing n with
  | start => exact absurd hn (Nat.not_lt_zero n)
  | @take v hv move hmove ih =>
    have h := hv.isSound
    have hnext := (hv.take hmove).isSound
    by_cases hold : n < v.once.calls
    · by_cases hwas : v.once.held = some n
      · exact h.emptied hmove hwas hheld
      · obtain ⟨c, e, hc, ht⟩ := ih hold hwas
        exact ⟨c, e, v.joined_take hc move, hnext.toldOf_take ht⟩
    · -- only a caller who finds nothing to join starts a resolution, and it is held
      have hjoined := (hnext.joined n).mp hn
      cases move with
      | get c =>
        cases hfree : v.once.held with
        | some k => exact absurd (calls_make hfree (.get c) ▸ hn) hold
        | none =>
          change n < (v.once.get c).calls at hn
          change (v.once.get c).held ≠ some n at hheld
          rw [get_free hfree (h.free hfree)] at hn hheld
          obtain rfl : v.once.calls = n := Nat.le_antisymm (Nat.le_of_not_lt hold) (Nat.le_of_lt_succ hn)
          exact absurd rfl hheld
      | finish y => exact absurd ((h.joined n).mpr hjoined) hold
      | cancel c => exact absurd ((h.joined n).mpr hjoined) hold
      | wake c => exact absurd ((h.joined n).mpr hjoined) hold

/-! The next caller. -/

/-- Nothing is in flight, and no value was found. -/
structure Visit.IsBare (v : Visit κ α) : Prop where
  idle : ∀ n, ¬ v.once.Flies n
  unknown : ∀ a, .value a ∉ v.once.endings

/-- A caller starts a resolution, and is told nothing but how that one ends. -/
structure Visit.StartsOver (v : Visit κ α) (c : κ) : Prop where
  calls : (v.once.get c).calls = v.once.calls + 1
  flies : (v.once.get c).Flies v.once.calls
  told : ∀ w, (v.take (.get c)).Later w → c ∉ w.cancelled →
    w.once.toldOf c <+: (w.once.ending? v.once.calls).toList ∧
      (w.once.wake c).toldOf c = (w.once.ending? v.once.calls).toList

/-- A caller is told how the latest resolution ended. After a failure the one who comes next starts
over; after a cancellation nobody ever does. -/
structure Visit.Repeats (v : Visit κ α) (c : κ) (x : Ending α) : Prop where
  latest : ∃ n, n + 1 = v.once.calls ∧ v.once.ending? n = some x
  calls : (v.once.get c).calls = v.once.calls
  told : (v.once.get c).toldOf c = [x]
  failure : ∀ e, x = .error e → ∀ d, d ∉ (v.take (.get c)).joined.map Prod.fst →
    (v.take (.get c)).StartsOver d
  cancellation : x = .cancelled → ∀ moves, (v.once.makeAll moves).calls = v.once.calls ∧
    ∀ d, ((v.once.makeAll moves).get d).toldOf d =
      (v.once.makeAll moves).toldOf d ++ [.cancelled]

namespace Visit

variable {v : Visit κ α}

theorem isHeard_of_free (hv : Visited v) (hfree : v.once.held = none) : v.IsHeard := by
  intro n hn
  exact hv.let_go (by omega) (by simp [hfree])

theorem IsHeard.free (h : v.IsHeard) (hv : Visited v) : v.once.held = none := by
  cases hheld : v.once.held with
  | none => rfl
  | some n =>
    obtain ⟨c, e, hc, ht⟩ := h n (hv.isSound.held n hheld)
    cases hv.isSound.stands c n hc with
    | waiting _ _ hnone => cases ht.symm.trans hnone
    | told _ hx _ hlet =>
      have he := List.singleton_inj.mp (ht.symm.trans hx)
      exact absurd hheld (hlet e he.symm)
    | cancelled _ hx => cases ht.symm.trans hx

theorem startsOver_of_free (hv : Visited v) (hfree : v.once.held = none)
    (hc : c ∉ v.joined.map Prod.fst) : v.StartsOver c := by
  have hget := get_free hfree (hv.isSound.free hfree) c
  refine ⟨by rw [hget], ?_, ?_⟩
  · rw [hget]
    refine ⟨Nat.lt_succ_self _, ?_⟩
    rw [ending?, List.getElem?_eq_none_iff]
    exact Nat.le_of_eq (hv.isSound.free hfree)
  · intro w hw hnot
    have hnext : Visited (v.take (.get c)) := hv.take hc
    have hjoined : (c, v.once.calls) ∈ (v.take (.get c)).joined := by
      simp [take, hfree]
    exact (hnext.later hw).isSound.told_eq (hw.joined hjoined) hnot

theorem repeats_of_held (hv : Visited v) (hheld : v.once.held = some n)
    (hn : v.once.ending? n = some x) (hc : c ∉ v.joined.map Prod.fst) : v.Repeats c x := by
  have hget : v.once.get c = v.once.tell c n x := by
    rw [get_held hheld, join_ended hn]
  refine ⟨⟨n, hv.isSound.held n hheld, hn⟩, by rw [hget]; rfl, ?_, ?_, ?_⟩
  · rw [hget, toldOf_tell_self, (hv.isSound.absent c hc).told, List.nil_append]
  · rintro e rfl d hd
    have hnext : Visited (v.take (.get c)) := hv.take hc
    refine startsOver_of_free hnext ?_ hd
    change (v.once.get c).held = none
    rw [hget, held_tell_error, if_pos hheld]
  · rintro rfl moves
    obtain ⟨hkept, hended, hcalls⟩ := held_makeAll_of_ne_error hheld hn (by simp) moves
    refine ⟨hcalls, ?_⟩
    intro d
    rw [get_held hkept, join_ended hended, toldOf_tell_self]

theorem isHeard_iff_of_settled (hv : Visited v) (hsettled : v.once.waiting = []) :
    v.IsHeard ↔ ∀ n, n + 1 = v.once.calls → (∃ e, v.once.ending? n = some (.error e)) ∧
      ∃ c, (c, n) ∈ v.joined ∧ c ∉ v.cancelled := by
  have h := hv.isSound
  constructor
  · intro hheard n hn
    obtain ⟨c, e, hc, ht⟩ := hheard n hn
    cases h.stands c n hc with
    | waiting _ _ hnone => cases ht.symm.trans hnone
    | told _ hx hend _ hnot =>
      obtain rfl := List.singleton_inj.mp (ht.symm.trans hx)
      exact ⟨⟨e, hend⟩, c, hc, hnot⟩
    | cancelled _ hx => cases ht.symm.trans hx
  · intro hfailed n hn
    obtain ⟨⟨e, he⟩, c, hc, hnot⟩ := hfailed n hn
    cases h.stands c n hc with
    | waiting hw => simp [hsettled] at hw
    | told _ hx hend =>
      obtain rfl := Option.some.inj (he.symm.trans hend)
      exact ⟨c, e, hc, hx⟩
    | cancelled _ _ hcancelled => exact absurd hcancelled hnot

end Visit

/-- With nothing in flight and no value found, the next caller starts over just when somebody was
told that the latest resolution failed; any other is told how that one ended. -/
theorem Visited.starts_over_iff_heard {v : Visit κ α} (hv : Visited v) (hbare : v.IsBare)
    (hc : c ∉ v.joined.map Prod.fst) :
    ((v.once.get c).calls = v.once.calls + 1 ↔ v.IsHeard) ∧
    (v.IsHeard → v.StartsOver c) ∧
    (¬ v.IsHeard → ∃ x, v.Repeats c x) ∧
    (v.once.waiting = [] → (v.IsHeard ↔ ∀ n, n + 1 = v.once.calls →
      (∃ e, v.once.ending? n = some (.error e)) ∧ ∃ d, (d, n) ∈ v.joined ∧ d ∉ v.cancelled)) := by
  have hstarts : v.IsHeard → v.StartsOver c := fun hheard =>
    Visit.startsOver_of_free hv (hheard.free hv) hc
  have hrepeats : ¬ v.IsHeard → ∃ x, v.Repeats c x := by
    intro hnot
    cases hheld : v.once.held with
    | none => exact absurd (Visit.isHeard_of_free hv hheld) hnot
    | some n =>
      have hcalls := hv.isSound.held n hheld
      cases hn : v.once.ending? n with
      | none => exact absurd ⟨by omega, hn⟩ (hbare.idle n)
      | some x => exact ⟨x, Visit.repeats_of_held hv hheld hn hc⟩
  refine ⟨⟨?_, fun hheard => (hstarts hheard).calls⟩, hstarts, hrepeats,
    Visit.isHeard_iff_of_settled hv⟩
  intro hcalls
  by_contra hnot
  obtain ⟨x, hx⟩ := hrepeats hnot
  have := hx.calls
  omega

def abandoned : Visit Nat Nat :=
  [.get 0, .cancel 0, .finish (.error .notConnected)].foldl Visit.take {}

theorem isBare_abandoned : abandoned.IsBare := by
  refine ⟨?_, ?_⟩
  · rintro n ⟨hn, hflies⟩
    have hcalls : abandoned.once.calls = 1 := by decide
    obtain rfl : n = 0 := by omega
    exact absurd hflies (by decide)
  · intro a ha
    have hendings : abandoned.once.endings = [.error .notConnected] := by decide
    simp [hendings] at ha

theorem starts_over_iff_heard_abandoned : Visited abandoned ∧ abandoned.IsBare ∧
    1 ∉ abandoned.joined.map Prod.fst ∧ ¬ abandoned.IsHeard ∧ ∃ x, abandoned.Repeats 1 x := by
  have hv : Visited abandoned := by
    refine .take (.take (.take .start ?_) ?_) ?_
    all_goals first | trivial | (simp only [Move.IsOpen]; decide)
  have hc : 1 ∉ abandoned.joined.map Prod.fst := by decide
  obtain ⟨hcalls, -, hrepeats, -⟩ := hv.starts_over_iff_heard isBare_abandoned hc
  have hnot : ¬ abandoned.IsHeard := fun hheard => absurd (hcalls.mpr hheard) (by decide)
  exact ⟨hv, isBare_abandoned, hc, hnot, hrepeats hnot⟩

end AccessControl.Once
