import AccessControl.Once
import Mathlib.Data.List.Nodup

/-!
Runs of calls, cancellations and endings, in any order. What holds after each of them: who waits for
which resolution, who was told what, and which resolution the next caller joins.
-/

namespace AccessControl.Once

variable {κ α : Type}

inductive Move (κ α : Type) where
  | get (caller : κ)
  | finish (ending : Ending α)
  | cancel (caller : κ)
  | wake (caller : κ)

def Move.caller? : Move κ α → Option κ
  | .get c | .cancel c | .wake c => some c
  | .finish _ => none

structure Visit (κ α : Type) where
  once : Once κ α := {}
  /-- The callers, each with the resolution that it joined. -/
  joined : List (κ × Nat) := []
  cancelled : List κ := []

/-- Every call has a caller of its own, and only who waits can give up. -/
def Move.IsOpen (v : Visit κ α) : Move κ α → Prop
  | .get c => c ∉ v.joined.map Prod.fst
  | .cancel c => c ∈ v.once.waiting.map Prod.fst
  | _ => True

theorem ne_of_joined {joined : List (κ × Nat)} {c d : κ} {n : Nat} (hc : (c, n) ∈ joined)
    (hd : d ∉ joined.map Prod.fst) : d ≠ c := by
  rintro rfl
  exact hd (List.mem_map.mpr ⟨(d, n), hc, rfl⟩)

/-! What single moves do. -/

section Moves

variable {m : Once κ α} {n : Nat} {x : Ending α}

theorem held_tell (m : Once κ α) (c : κ) (n : Nat) (x : Ending α) :
    (m.tell c n x).held = m.held ∨
      (m.tell c n x).held = none ∧ m.held = some n ∧ ∃ e, x = .error e := by
  cases x with
  | error e =>
    by_cases h : m.held = some n
    · exact .inr ⟨if_pos h, h, e, rfl⟩
    · exact .inl (if_neg h)
  | value a => exact .inl rfl
  | cancelled => exact .inl rfl

theorem held_tell_error (m : Once κ α) (c : κ) (n : Nat) (e : Error) :
    (m.tell c n (.error e)).held = if m.held = some n then none else m.held :=
  rfl

theorem held_tell_error_ne (m : Once κ α) (c : κ) (n : Nat) (e : Error) :
    (m.tell c n (.error e)).held ≠ some n := by
  rw [held_tell_error]
  split <;> simp_all

theorem get_held (h : m.held = some n) (c : κ) : m.get c = m.join c n := by
  rw [get, h]

theorem join_ended (h : m.ending? n = some x) (c : κ) : m.join c n = m.tell c n x := by
  rw [join, h]

theorem join_inFlight (h : m.ending? n = none) (c : κ) :
    m.join c n = { m with waiting := m.waiting ++ [(c, n)] } := by
  rw [join, h]

theorem get_free (h : m.held = none) (hn : m.endings.length = m.calls) (c : κ) :
    m.get c = { m with
      calls := m.calls + 1
      held := some m.calls
      waiting := m.waiting ++ [(c, m.calls)] } := by
  rw [get, h]
  apply join_inFlight
  rw [ending?, List.getElem?_eq_none_iff]
  exact Nat.le_of_eq hn

theorem finish_inFlight (h : m.held = some n) (hn : m.ending? n = none) (x : Ending α) :
    m.finish x = { m with endings := m.endings ++ [x] } := by
  rw [finish, if_pos]
  simp [inFlight, h, hn]

theorem finish_of_not_inFlight (h : ∀ n, m.held = some n → m.ending? n ≠ none)
    (x : Ending α) : m.finish x = m := by
  rw [finish, if_neg]
  cases hheld : m.held with
  | none => simp [inFlight, hheld]
  | some n => simpa [inFlight, hheld] using h n hheld

theorem ending?_append (h : m.ending? n = some x) (y : Ending α) :
    ({ m with endings := m.endings ++ [y] } : Once κ α).ending? n = some x := by
  obtain ⟨hn, -⟩ := List.getElem?_eq_some_iff.mp h
  rw [ending?, List.getElem?_append_left hn]
  exact h

theorem lt_of_ending? (h : m.ending? n = some x) : n < m.endings.length :=
  (List.getElem?_eq_some_iff.mp h).1

end Moves

variable [DecidableEq κ]

def make (m : Once κ α) : Move κ α → Once κ α
  | .get c => m.get c
  | .finish ending => m.finish ending
  | .cancel c => m.cancel c
  | .wake c => m.wake c

def makeAll (m : Once κ α) (moves : List (Move κ α)) : Once κ α :=
  moves.foldl make m

def toldOf (m : Once κ α) (c : κ) : List (Ending α) :=
  (m.told.filter (·.1 = c)).map Prod.snd

def Visit.take (v : Visit κ α) (move : Move κ α) : Visit κ α where
  once := v.once.make move
  joined := match move with
    | .get c => v.joined ++ [(c, v.once.held.getD v.once.calls)]
    | _ => v.joined
  cancelled := match move with
    | .cancel c => c :: v.cancelled
    | _ => v.cancelled

inductive Visited : Visit κ α → Prop where
  | start : Visited {}
  | take {v : Visit κ α} (h : Visited v) {move : Move κ α} (hmove : move.IsOpen v) :
    Visited (v.take move)

section Moves

variable {m : Once κ α} {c d : κ} {n : Nat} {x : Ending α}

theorem toldOf_told_self (m : Once κ α) (c : κ) (x : Ending α) :
    ({ m with told := m.told ++ [(c, x)] } : Once κ α).toldOf c = m.toldOf c ++ [x] := by
  simp [toldOf]

theorem toldOf_told_ne (h : d ≠ c) (x : Ending α) :
    ({ m with told := m.told ++ [(c, x)] } : Once κ α).toldOf d = m.toldOf d := by
  simp [toldOf, h.symm]

theorem toldOf_tell_self (m : Once κ α) (c : κ) (n : Nat) (x : Ending α) :
    (m.tell c n x).toldOf c = m.toldOf c ++ [x] :=
  toldOf_told_self m c x

theorem toldOf_tell_ne (h : d ≠ c) (n : Nat) (x : Ending α) :
    (m.tell c n x).toldOf d = m.toldOf d :=
  toldOf_told_ne h x

def left (m : Once κ α) (c : κ) : Once κ α :=
  { m with waiting := m.waiting.filter (·.1 ≠ c) }

theorem mem_waiting_left {k : Nat} :
    (d, k) ∈ (m.left c).waiting ↔ (d, k) ∈ m.waiting ∧ d ≠ c := by
  simp [left]

theorem cancel_waiting (h : c ∈ m.waiting.map Prod.fst) :
    m.cancel c = { m.left c with told := m.told ++ [(c, .cancelled)] } := by
  rw [cancel, if_pos]
  · rfl
  · simpa using h

theorem cancel_absent (h : c ∉ m.waiting.map Prod.fst) : m.cancel c = m := by
  rw [cancel, if_neg]
  simpa using h

theorem wake_absent (h : c ∉ m.waiting.map Prod.fst) : m.wake c = m := by
  have hfind : m.waiting.find? (·.1 = c) = none := by
    simp only [List.find?_eq_none, decide_eq_true_eq]
    intro w hw hc
    exact h (List.mem_map.mpr ⟨w, hw, hc⟩)
  rw [wake, hfind]

theorem find?_waiting (h : (c, n) ∈ m.waiting) (hone : ∀ k, (c, k) ∈ m.waiting → k = n) :
    m.waiting.find? (·.1 = c) = some (c, n) := by
  cases hfind : m.waiting.find? (·.1 = c) with
  | none => simpa using List.find?_eq_none.mp hfind _ h
  | some w =>
    obtain ⟨d, k⟩ := w
    obtain rfl : d = c := by simpa using List.find?_some hfind
    rw [hone k (List.mem_of_find?_eq_some hfind)]

theorem wake_inFlight (h : (c, n) ∈ m.waiting) (hone : ∀ k, (c, k) ∈ m.waiting → k = n)
    (hn : m.ending? n = none) : m.wake c = m := by
  rw [wake, find?_waiting h hone]
  simp only [hn]

theorem wake_ended (h : (c, n) ∈ m.waiting) (hone : ∀ k, (c, k) ∈ m.waiting → k = n)
    (hn : m.ending? n = some x) : m.wake c = (m.left c).tell c n x := by
  rw [wake, find?_waiting h hone]
  simp only [hn]
  rfl

end Moves

/-! Where a caller stands. -/

/-- A caller that joined a resolution waits for it, was told its ending, or has given up. Who was
told of a failure has seen to it that nobody joins that resolution any more. -/
inductive Stands (m : Once κ α) (cancelled : List κ) (c : κ) (n : Nat) : Prop where
  | waiting (hw : (c, n) ∈ m.waiting) (hone : ∀ k, (c, k) ∈ m.waiting → k = n)
    (ht : m.toldOf c = []) (hc : c ∉ cancelled)
  | told {x : Ending α} (hw : ∀ k, (c, k) ∉ m.waiting) (ht : m.toldOf c = [x])
    (hx : m.ending? n = some x) (hheld : ∀ e, x = .error e → m.held ≠ some n) (hc : c ∉ cancelled)
  | cancelled (hw : ∀ k, (c, k) ∉ m.waiting) (ht : m.toldOf c = [.cancelled]) (hc : c ∈ cancelled)

structure Absent (m : Once κ α) (cancelled : List κ) (c : κ) : Prop where
  waiting : ∀ k, (c, k) ∉ m.waiting
  told : m.toldOf c = []
  cancelled : c ∉ cancelled

/-- A move of others: it takes no ending back, and nobody joins a resolution again that was
given up. -/
structure Spares (c : κ) (n : Nat) (m m' : Once κ α) : Prop where
  waiting : ∀ k, (c, k) ∈ m'.waiting ↔ (c, k) ∈ m.waiting
  told : m'.toldOf c = m.toldOf c
  ending : ∀ x, m.ending? n = some x → m'.ending? n = some x
  held : m'.held = some n → m.held = some n

section Stands

variable {m m' : Once κ α} {cancelled cancelled' : List κ} {c d : κ} {n : Nat} {x : Ending α}

theorem Stands.frame (h : Stands m cancelled c n) (hm : Spares c n m m')
    (hc : c ∈ cancelled' ↔ c ∈ cancelled) : Stands m' cancelled' c n := by
  cases h with
  | waiting hw hone ht hn =>
    refine .waiting ((hm.waiting n).mpr hw) ?_ (hm.told.trans ht) (fun h => hn (hc.mp h))
    intro k hk
    exact hone k ((hm.waiting k).mp hk)
  | told hw ht hx hheld hn =>
    refine .told ?_ (hm.told.trans ht) (hm.ending _ hx) ?_ (fun h => hn (hc.mp h))
    · intro k hk
      exact hw k ((hm.waiting k).mp hk)
    · intro e he h
      exact hheld e he (hm.held h)
  | cancelled hw ht hn =>
    refine .cancelled ?_ (hm.told.trans ht) (hc.mpr hn)
    intro k hk
    exact hw k ((hm.waiting k).mp hk)

theorem Absent.frame (h : Absent m cancelled c) (hm : Spares c n m m')
    (hc : c ∈ cancelled' ↔ c ∈ cancelled) : Absent m' cancelled' c where
  waiting k hk := h.waiting k ((hm.waiting k).mp hk)
  told := hm.told.trans h.told
  cancelled hn := h.cancelled (hc.mp hn)

theorem Absent.left_eq (h : Absent m cancelled c) : m.left c = m := by
  have hfilter : m.waiting.filter (·.1 ≠ c) = m.waiting := by
    rw [List.filter_eq_self]
    intro w hw
    rw [decide_eq_true_eq]
    rintro rfl
    exact h.waiting w.2 hw
  rw [left, hfilter]

theorem Absent.stands (h : Absent m cancelled c) (n : Nat) :
    Stands { m with waiting := m.waiting ++ [(c, n)] } cancelled c n := by
  refine .waiting (by simp) ?_ h.told h.cancelled
  intro k hk
  rcases List.mem_append.mp hk with hk | hk
  · exact absurd hk (h.waiting k)
  · simpa using hk

theorem Spares.trans {m'' : Once κ α} (h : Spares c n m m') (h' : Spares c n m' m'') :
    Spares c n m m'' where
  waiting k := (h'.waiting k).trans (h.waiting k)
  told := h'.told.trans h.told
  ending x hx := h'.ending x (h.ending x hx)
  held hn := h.held (h'.held hn)

theorem spares_tell (h : d ≠ c) (k n : Nat) (x : Ending α) : Spares d n m (m.tell c k x) where
  waiting _ := Iff.rfl
  told := toldOf_tell_ne h k x
  ending _ := id
  held hn := by
    rcases held_tell m c k x with heq | ⟨hnone, -⟩
    · rwa [heq] at hn
    · rw [hnone] at hn
      cases hn

theorem spares_left (h : d ≠ c) (n : Nat) : Spares d n m (m.left c) where
  waiting k := by simp [mem_waiting_left, h]
  told := rfl
  ending _ := id
  held := id

theorem spares_told (h : d ≠ c) (n : Nat) (x : Ending α) :
    Spares d n m { m with told := m.told ++ [(c, x)] } where
  waiting _ := Iff.rfl
  told := toldOf_told_ne h x
  ending _ := id
  held := id

theorem spares_wait (h : d ≠ c) (n k : Nat) :
    Spares d n m { m with waiting := m.waiting ++ [(c, k)] } where
  waiting j := by simp [h]
  told := rfl
  ending _ := id
  held := id

theorem spares_finish (c : κ) (n : Nat) (x : Ending α) :
    Spares c n m { m with endings := m.endings ++ [x] } where
  waiting _ := Iff.rfl
  told := rfl
  ending _ hy := ending?_append hy x
  held := id

theorem spares_start (c : κ) (h : n < m.calls) :
    Spares c n m { m with calls := m.calls + 1, held := some m.calls } where
  waiting _ := Iff.rfl
  told := rfl
  ending _ := id
  held hn := by
    have := Option.some.inj hn
    omega

end Stands

/-! What holds all along. -/

structure Visit.IsSound (v : Visit κ α) : Prop where
  callers : (v.joined.map Prod.fst).Nodup
  joined : ∀ n, n < v.once.calls ↔ n ∈ v.joined.map Prod.snd
  ended : v.once.endings.length ≤ v.once.calls
  alone : v.once.calls ≤ v.once.endings.length + 1
  held : ∀ n, v.once.held = some n → n + 1 = v.once.calls
  free : v.once.held = none → v.once.endings.length = v.once.calls
  failed : ∀ n, n < v.once.endings.length → v.once.held ≠ some n →
    ∃ e, v.once.ending? n = some (.error e)
  stands : ∀ c n, (c, n) ∈ v.joined → Stands v.once v.cancelled c n
  absent : ∀ c, c ∉ v.joined.map Prod.fst → Absent v.once v.cancelled c

namespace Visit.IsSound

variable {v : Visit κ α} {c : κ} {n : Nat} {x : Ending α}

theorem lt_calls (h : v.IsSound) (hc : (c, n) ∈ v.joined) : n < v.once.calls :=
  (h.joined n).mpr (List.mem_map.mpr ⟨_, hc, rfl⟩)

theorem waiting (h : v.IsSound) (hc : (c, n) ∈ v.once.waiting) :
    (c, n) ∈ v.joined ∧ (∀ k, (c, k) ∈ v.once.waiting → k = n) ∧ v.once.toldOf c = [] ∧
      c ∉ v.cancelled := by
  by_cases hmem : c ∈ v.joined.map Prod.fst
  · obtain ⟨⟨c, k⟩, hk, rfl⟩ := List.mem_map.mp hmem
    cases h.stands c k hk with
    | waiting hw hone ht hn =>
      obtain rfl := hone n hc
      exact ⟨hk, hone, ht, hn⟩
    | told hw => exact absurd hc (hw n)
    | cancelled hw => exact absurd hc (hw n)
  · exact absurd hc ((h.absent c hmem).waiting n)

theorem eq_of_joined (h : v.IsSound) {k : Nat} (hn : (c, n) ∈ v.joined) (hk : (c, k) ∈ v.joined) :
    k = n :=
  congrArg Prod.snd (List.inj_on_of_nodup_map h.callers hk hn rfl)

theorem ending?_eq_none_iff (h : v.IsSound) (hheld : v.once.held = some n) :
    v.once.ending? n = none ↔ v.once.endings.length = n := by
  have := h.held n hheld
  have := h.ended
  have := h.alone
  rw [ending?, List.getElem?_eq_none_iff]
  omega

theorem take_finish (h : v.IsSound) (x : Ending α) : (v.take (.finish x)).IsSound := by
  change Visit.IsSound { v with once := v.once.finish x }
  -- an ending is of no effect when nothing is in flight
  by_cases hflight : ∃ n, v.once.held = some n ∧ v.once.ending? n = none
  · obtain ⟨n, hheld, hn⟩ := hflight
    have hlength := (h.ending?_eq_none_iff hheld).mp hn
    have hcalls := h.held n hheld
    rw [finish_inFlight hheld hn]
    refine { h with ended := ?_, alone := ?_, free := ?_, failed := ?_, stands := ?_, absent := ?_ }
    · simp only [List.length_append, List.length_singleton]
      omega
    · simp only [List.length_append, List.length_singleton]
      omega
    · intro hnone
      exact absurd (hheld.symm.trans hnone) (by simp)
    · intro k hk hne
      have hkn : k ≠ n := fun heq => hne (heq ▸ hheld)
      simp only [List.length_append, List.length_singleton] at hk
      obtain ⟨e, he⟩ := h.failed k (by omega) hne
      exact ⟨e, ending?_append he x⟩
    · intro c k hc
      exact (h.stands c k hc).frame (spares_finish c k x) Iff.rfl
    · intro c hc
      exact (h.absent c hc).frame (spares_finish c n x) Iff.rfl
  · rw [finish_of_not_inFlight]
    · exact h
    · intro n hheld hn
      exact hflight ⟨n, hheld, hn⟩

theorem tell (h : v.IsSound) (hw : (c, n) ∈ v.once.waiting) (hx : v.once.ending? n = some x) :
    Visit.IsSound { v with once := (v.once.left c).tell c n x } := by
  obtain ⟨hjoined, -, ht, hc⟩ := h.waiting hw
  have hspares {d : κ} (hd : d ≠ c) (k : Nat) : Spares d k v.once ((v.once.left c).tell c n x) :=
    (spares_left hd k).trans (spares_tell hd n k x)
  refine { h with held := ?_, free := ?_, failed := ?_, stands := ?_, absent := ?_ }
  · intro k hk
    rcases held_tell (v.once.left c) c n x with heq | ⟨hnone, -⟩
    · exact h.held k (heq.symm.trans hk)
    · rw [hnone] at hk
      cases hk
  · intro hnone
    rcases held_tell (v.once.left c) c n x with heq | ⟨-, hn, -⟩
    · exact h.free (heq.symm.trans hnone)
    · have hcalls := h.held n hn
      have hended := h.ended
      have hlt := lt_of_ending? hx
      change v.once.endings.length = v.once.calls
      omega
  · intro k hk hne
    rcases held_tell (v.once.left c) c n x with heq | ⟨-, hn, e, rfl⟩
    · rw [heq] at hne
      exact h.failed k hk hne
    · by_cases hkn : k = n
      · exact ⟨e, hkn ▸ hx⟩
      · refine h.failed k hk fun hheld => hkn ?_
        exact Option.some.inj (hheld.symm.trans hn)
  · intro d k hd
    -- the caller has joined one resolution only; all others are spared
    by_cases hdc : d = c
    · subst d
      obtain rfl := h.eq_of_joined hjoined hd
      refine .told ?_ ?_ hx ?_ hc
      · intro j hj
        exact (mem_waiting_left.mp hj).2 rfl
      · rw [toldOf_tell_self]
        change v.once.toldOf c ++ [x] = [x]
        rw [ht, List.nil_append]
      · rintro e rfl
        exact held_tell_error_ne _ c k e
    · exact (h.stands d k hd).frame (hspares hdc k) Iff.rfl
  · intro d hd
    have hdc := ne_of_joined hjoined hd
    exact (h.absent d hd).frame (hspares hdc n) Iff.rfl

theorem take_wake (h : v.IsSound) (c : κ) : (v.take (.wake c)).IsSound := by
  change Visit.IsSound { v with once := v.once.wake c }
  by_cases hc : c ∈ v.once.waiting.map Prod.fst
  · obtain ⟨⟨c, n⟩, hw, rfl⟩ := List.mem_map.mp hc
    obtain ⟨-, hone, -⟩ := h.waiting hw
    cases hn : v.once.ending? n with
    | none =>
      rw [wake_inFlight hw hone hn]
      exact h
    | some x =>
      rw [wake_ended hw hone hn]
      exact h.tell hw hn
  · rw [wake_absent hc]
    exact h

theorem take_cancel (h : v.IsSound) (hc : c ∈ v.once.waiting.map Prod.fst) :
    (v.take (.cancel c)).IsSound := by
  change Visit.IsSound { v with once := v.once.cancel c, cancelled := c :: v.cancelled }
  obtain ⟨⟨c, n⟩, hw, rfl⟩ := List.mem_map.mp hc
  obtain ⟨hjoined, -, ht, -⟩ := h.waiting hw
  have hspares {d : κ} (hd : d ≠ c) (k : Nat) :
      Spares d k v.once { v.once.left c with told := v.once.told ++ [(c, .cancelled)] } :=
    (spares_left hd k).trans (spares_told (m := v.once.left c) hd k .cancelled)
  have hcancelled {d : κ} (hd : d ≠ c) : d ∈ c :: v.cancelled ↔ d ∈ v.cancelled := by simp [hd]
  rw [cancel_waiting hc]
  refine { h with stands := ?_, absent := ?_ }
  · intro d k hd
    by_cases hdc : d = c
    · subst d
      refine .cancelled ?_ ?_ List.mem_cons_self
      · intro j hj
        exact (mem_waiting_left.mp hj).2 rfl
      · exact (toldOf_told_self (v.once.left c) c .cancelled).trans (by
          change v.once.toldOf c ++ _ = _
          rw [ht, List.nil_append])
    · exact (h.stands d k hd).frame (hspares hdc k) (hcancelled hdc)
  · intro d hd
    have hdc := ne_of_joined hjoined hd
    exact (h.absent d hd).frame (hspares hdc n) (hcancelled hdc)

theorem wait (h : v.IsSound) (hc : c ∉ v.joined.map Prod.fst) (hheld : v.once.held = some n) :
    Visit.IsSound { v with
      once := { v.once with waiting := v.once.waiting ++ [(c, n)] }
      joined := v.joined ++ [(c, n)] } := by
  refine { h with callers := ?_, joined := ?_, stands := ?_, absent := ?_ }
  · rw [List.map_append]
    exact h.callers.append (List.nodup_singleton c) (by simpa using hc)
  · intro k
    have hcalls := h.held n hheld
    simp only [List.map_append, List.mem_append, ← h.joined k, List.map_cons, List.map_nil,
      List.mem_singleton]
    omega
  · intro d k hd
    rcases List.mem_append.mp hd with hd | hd
    · have hdc := (ne_of_joined hd hc).symm
      exact (h.stands d k hd).frame (spares_wait hdc k n) Iff.rfl
    · obtain ⟨rfl, rfl⟩ : d = c ∧ k = n := by simpa using hd
      exact (h.absent d hc).stands k
  · intro d hd
    simp only [List.map_append, List.mem_append, List.map_cons, List.map_nil, List.mem_singleton,
      not_or] at hd
    exact (h.absent d hd.1).frame (spares_wait hd.2 n n) Iff.rfl

theorem begin (h : v.IsSound) (hc : c ∉ v.joined.map Prod.fst) (hheld : v.once.held = none) :
    Visit.IsSound { v with
      once := { v.once with
        calls := v.once.calls + 1
        held := some v.once.calls
        waiting := v.once.waiting ++ [(c, v.once.calls)] }
      joined := v.joined ++ [(c, v.once.calls)] } := by
  have hlength := h.free hheld
  have hspares {d : κ} {k : Nat} (hd : d ≠ c) (hk : k < v.once.calls) :
      Spares d k v.once { v.once with
        calls := v.once.calls + 1
        held := some v.once.calls
        waiting := v.once.waiting ++ [(c, v.once.calls)] } :=
    (spares_start d hk).trans (spares_wait hd k v.once.calls)
  refine ⟨?_, ?_, ?_, ?_, ?_, ?_, ?_, ?_, ?_⟩
  · rw [List.map_append]
    exact h.callers.append (List.nodup_singleton c) (by simpa using hc)
  · intro k
    simp only [List.map_append, List.mem_append, ← h.joined k, List.map_cons, List.map_nil,
      List.mem_singleton]
    omega
  · exact Nat.le_succ_of_le h.ended
  · exact Nat.succ_le_succ (Nat.le_of_eq hlength.symm)
  · intro k hk
    rw [← Option.some.inj hk]
  · simp
  · intro k hk _
    exact h.failed k hk (by simp [hheld])
  · intro d k hd
    rcases List.mem_append.mp hd with hd | hd
    · have hdc := (ne_of_joined hd hc).symm
      exact (h.stands d k hd).frame (hspares hdc (h.lt_calls hd)) Iff.rfl
    · obtain ⟨rfl, rfl⟩ : d = c ∧ k = v.once.calls := by simpa using hd
      have habsent := h.absent d hc
      exact Absent.stands (m := { v.once with
        calls := v.once.calls + 1
        held := some v.once.calls }) ⟨habsent.waiting, habsent.told, habsent.cancelled⟩ v.once.calls
  · intro d hd
    simp only [List.map_append, List.mem_append, List.map_cons, List.map_nil, List.mem_singleton,
      not_or] at hd
    have habsent := h.absent d hd.1
    refine ⟨?_, habsent.told, habsent.cancelled⟩
    intro k hk
    rcases List.mem_append.mp hk with hk | hk
    · exact habsent.waiting k hk
    · exact hd.2 (by simpa using congrArg Prod.fst (List.mem_singleton.mp hk))

theorem take_get (h : v.IsSound) (hc : c ∉ v.joined.map Prod.fst) :
    (v.take (.get c)).IsSound := by
  change Visit.IsSound { v with
    once := v.once.get c
    joined := v.joined ++ [(c, v.once.held.getD v.once.calls)] }
  cases hheld : v.once.held with
  | none =>
    rw [get_free hheld (h.free hheld)]
    exact h.begin hc hheld
  | some n =>
    rw [get_held hheld, Option.getD_some]
    cases hn : v.once.ending? n with
    | none =>
      rw [join_inFlight hn]
      exact h.wait hc hheld
    | some x =>
      -- to be told at once is to wait and to be told then
      have htold := (h.wait hc hheld).tell (c := c) (n := n) (x := x) (by simp) hn
      have hleft : ({ v.once with waiting := v.once.waiting ++ [(c, n)] } : Once κ α).left c =
          v.once := by
        conv_rhs => rw [← (h.absent c hc).left_eq]
        simp [left]
      rw [hleft] at htold
      rw [join_ended hn]
      exact htold

end Visit.IsSound

theorem Visited.isSound {v : Visit κ α} (h : Visited v) : v.IsSound := by
  induction h with
  | start =>
    refine ⟨List.nodup_nil, by simp, Nat.le_refl _, Nat.zero_le _, by simp, by simp, by simp, by simp, ?_⟩
    intro c _
    exact ⟨by simp, rfl, by simp⟩
  | @take v _ move hmove ih =>
    cases move with
    | get c => exact ih.take_get hmove
    | finish x => exact ih.take_finish x
    | cancel c => exact ih.take_cancel hmove
    | wake c => exact ih.take_wake c

end AccessControl.Once
