import AccessControl.Proofs.Administration.Slots
import AccessControl.Proofs.Program.Interleaving

/-!
What a history says of how many rows are about the same, when a row is added only after a look that
has found none. One is raced when it is added after a look that is outdated: another one was added
since, and has not been removed.
-/

namespace AccessControl

open Concurrent Store

def Sometime (P : List Access → Access → List Access → Prop) (h : List Access) : Prop :=
  ∃ before a after, h = before ++ a :: after ∧ P before a after

theorem sometime_concat {P : List Access → Access → List Access → Prop} {h : List Access}
    {a : Access} : Sometime P (h ++ [a]) ↔
      P h a [] ∨ Sometime (fun before b after => P before b (after ++ [a])) h := by
  constructor
  · rintro ⟨before, b, after, heq, hP⟩
    obtain rfl | ⟨rest, c, rfl⟩ := List.eq_nil_or_concat' after
    · obtain ⟨rfl, hlast⟩ := List.append_inj' heq rfl
      obtain rfl : a = b := List.singleton_inj.1 hlast
      exact .inl hP
    · rw [← List.cons_append, ← List.append_assoc] at heq
      obtain ⟨rfl, hlast⟩ := List.append_inj' heq rfl
      obtain rfl : a = c := List.singleton_inj.1 hlast
      exact .inr ⟨before, b, rest, rfl, hP⟩
  · rintro (hP | ⟨before, b, after, rfl, hP⟩)
    · exact ⟨h, a, [], rfl, hP⟩
    · exact ⟨before, b, after ++ [a], by simp, hP⟩

def Operation.slotAt? (ops : List Operation) (n : Nat) : Option Slot :=
  ops[n]?.bind Operation.slot?

namespace Access

def misses (s : Slot) : Access → Bool
  | ⟨_, .store c, .ok r⟩ => c.seeks? = some s && c.misses r
  | _ => false

def adds (s : Slot) : Access → Bool
  | ⟨_, .store c, .ok _⟩ => c.adds?.any (·.1 = s)
  | _ => false

def removes (ops : List Operation) (s : Slot) : Access → Bool
  | ⟨n, .store (.dropMembership _), .ok true⟩ => Operation.slotAt? ops n = some s
  | _ => false

variable {s : Slot} {a : Access}

theorem only_adds (ops : List Operation) (h : a.adds s = true) :
    a.misses s = false ∧ a.removes ops s = false := by
  obtain ⟨n, e, r⟩ := a
  cases e with
  | store c =>
    cases r with
    | error e => cases h
    | ok r => cases c <;> first | cases h | exact ⟨rfl, rfl⟩
  | _ => cases h

end Access

namespace Slot

variable (ops : List Operation) (s : Slot)

/-- A row was added, and none has been removed since. -/
def IsTaken : List Access → Prop :=
  Sometime fun _ a after => a.adds s = true ∧ ∀ b ∈ after, b.removes ops s = false

/-- The task has found no row, and one was added since that is still there. -/
def IsOutdated (n : Nat) : List Access → Prop :=
  Sometime fun _ a after => a.task = n ∧ a.misses s = true ∧ s.IsTaken ops after

/-- A row was added by a task whose look for it was outdated. -/
def IsRaced : List Access → Prop :=
  Sometime fun before a _ => a.adds s = true ∧ s.IsOutdated ops a.task before

variable {ops s} {h : List Access} {a : Access} {n : Nat}

theorem isTaken_concat :
    s.IsTaken ops (h ++ [a]) ↔
      a.adds s = true ∨ s.IsTaken ops h ∧ a.removes ops s = false := by
  rw [IsTaken, sometime_concat]
  constructor
  · rintro (⟨hadds, -⟩ | ⟨before, b, after, rfl, hadds, hkept⟩)
    · exact .inl hadds
    · refine .inr ⟨⟨before, b, after, rfl, hadds, fun c hc => ?_⟩, ?_⟩
      · exact hkept c (List.mem_append_left _ hc)
      · exact hkept a (List.mem_append_right _ List.mem_cons_self)
  · rintro (hadds | ⟨⟨before, b, after, rfl, hadds, hkept⟩, hremoves⟩)
    · exact .inl ⟨hadds, fun _ hc => absurd hc List.not_mem_nil⟩
    · refine .inr ⟨before, b, after, rfl, hadds, fun c hc => ?_⟩
      obtain hc | hc := List.mem_append.1 hc
      · exact hkept c hc
      · rwa [List.mem_singleton.1 hc]

theorem IsOutdated.isTaken (ho : s.IsOutdated ops n h) : s.IsTaken ops h := by
  obtain ⟨before, a, after, rfl, -, -, earlier, b, later, rfl, hadds, hkept⟩ := ho
  exact ⟨before ++ a :: earlier, b, later, by simp, hadds, hkept⟩

theorem IsOutdated.concat (ho : s.IsOutdated ops n h) (ha : a.removes ops s = false) :
    s.IsOutdated ops n (h ++ [a]) := by
  obtain ⟨before, b, after, rfl, htask, hmisses, htaken⟩ := ho
  refine sometime_concat.2 (.inr ⟨before, b, after, rfl, htask, hmisses, ?_⟩)
  exact isTaken_concat.2 (.inr ⟨htaken, ha⟩)

theorem isOutdated_of_adds {b : Access} (hb : b ∈ h) (hmisses : b.misses s = true)
    (ha : a.adds s = true) : s.IsOutdated ops b.task (h ++ [a]) := by
  obtain ⟨before, after, rfl⟩ := List.append_of_mem hb
  refine sometime_concat.2 (.inr ⟨before, b, after, rfl, rfl, hmisses, ?_⟩)
  exact isTaken_concat.2 (.inl ha)

theorem isRaced_concat : s.IsRaced ops (h ++ [a]) ↔
    a.adds s = true ∧ s.IsOutdated ops a.task h ∨ s.IsRaced ops h :=
  sometime_concat

theorem IsRaced.append (hr : s.IsRaced ops h) (more : List Access) :
    s.IsRaced ops (h ++ more) := by
  obtain ⟨before, a, after, rfl, hraced⟩ := hr
  exact ⟨before, a, after ++ more, by simp, hraced⟩

theorem IsRaced.of_goes {x y : Watched Unit} {move : Move} (hgo : x.Goes move y)
    (hr : s.IsRaced ops y.history) : s.IsRaced ops x.history ∨
      ∃ a, y.history = x.history ++ [a] ∧ a.adds s = true ∧ s.IsOutdated ops a.task x.history := by
  cases hgo with
  | tick | wait => exact .inl hr
  | access htask hrest hadmits =>
    obtain ⟨hadds, houtdated⟩ | hr := isRaced_concat.1 hr
    · exact .inr ⟨_, rfl, hadds, houtdated⟩
    · exact .inl hr

end Slot

/-! What the history says of how many rows are about a slot. -/

structure Access.Shifts (ops : List Operation) (s : Slot) (a : Access) (k k' : Nat) : Prop where
  count : (k' + if a.removes ops s then 1 else 0) = k + if a.adds s then 1 else 0
  vacant : a.misses s = true → k = 0

/-- A row is added only by a task that has found none. -/
inductive Course (ops : List Operation) (s : Slot) (start : Nat) : List Access → Nat → Prop where
  | start : Course ops s start [] start
  | concat {h : List Access} {a : Access} {k k' : Nat} (hc : Course ops s start h k)
    (ha : a.Shifts ops s k k')
    (hlooked : a.adds s = true → ∃ b ∈ h, b.task = a.task ∧ b.misses s = true) :
    Course ops s start (h ++ [a]) k'

namespace Course

variable {ops : List Operation} {s : Slot} {start k : Nat} {h : List Access}

theorem count (hc : Course ops s start h k) :
    k + h.countP (·.removes ops s) = start + h.countP (·.adds s) := by
  induction hc with
  | start => rfl
  | @concat h a k k' hc ha _ ih =>
    have hcount := ha.count
    rw [List.countP_append, List.countP_append, List.countP_singleton, List.countP_singleton]
    omega

theorem pos_of_isTaken (hc : Course ops s start h k) (ht : s.IsTaken ops h) : 0 < k := by
  induction hc with
  | start =>
    obtain ⟨before, a, after, hnil, -⟩ := ht
    simp at hnil
  | @concat h a k k' hc ha _ ih =>
    have hcount := ha.count
    obtain hadds | ⟨ht, hremoves⟩ := Slot.isTaken_concat.1 ht
    · rw [if_pos hadds, if_neg (by simp [(Access.only_adds ops hadds).2])] at hcount
      omega
    · rw [if_neg (by simp [hremoves])] at hcount
      have hpos := ih ht
      omega

theorem of_not_isRaced (hc : Course ops s start h k) (hstart : start ≤ 1)
    (hraced : ¬ s.IsRaced ops h) :
    k ≤ 1 ∧ (0 < k → ∀ b ∈ h, b.misses s = true → s.IsOutdated ops b.task h) := by
  induction hc with
  | start => exact ⟨hstart, fun _ _ hb => absurd hb List.not_mem_nil⟩
  | @concat h a k k' hc ha hlooked ih =>
    rw [Slot.isRaced_concat, not_or] at hraced
    obtain ⟨hone, houtdated⟩ := ih hraced.2
    cases hadds : a.adds s with
    | true =>
      obtain ⟨hmisses, hremoves⟩ := Access.only_adds ops hadds
      -- the task has looked before, so there was no row yet
      obtain ⟨b, hb, htask, hvacant⟩ := hlooked hadds
      have hnone : k = 0 := by
        by_contra hk
        exact hraced.1 ⟨hadds, htask ▸ houtdated (Nat.pos_of_ne_zero hk) b hb hvacant⟩
      have hcount : k' = 1 := by simpa [hadds, hremoves, hnone] using ha.count
      refine ⟨hcount.le, fun _ b hb hvacant => ?_⟩
      obtain hb | hb := List.mem_append.1 hb
      · exact Slot.isOutdated_of_adds hb hvacant hadds
      · rw [List.mem_singleton.1 hb, hmisses] at hvacant
        cases hvacant
    | false =>
      cases hremoves : a.removes ops s with
      | true =>
        have hcount : k' + 1 = k := by simpa [hadds, hremoves] using ha.count
        exact ⟨by omega, by omega⟩
      | false =>
        obtain rfl : k' = k := by simpa [hadds, hremoves] using ha.count
        refine ⟨hone, fun hpos b hb hvacant => ?_⟩
        obtain hb | hb := List.mem_append.1 hb
        · exact (houtdated hpos b hb hvacant).concat hremoves
        · rw [List.mem_singleton.1 hb] at hvacant
          exact absurd (ha.vacant hvacant) hpos.ne'

theorem one_lt {a : Access} (hc : Course ops s start (h ++ [a]) k) (hadds : a.adds s = true)
    (ho : s.IsOutdated ops a.task h) : 1 < k := by
  generalize heq : h ++ [a] = whole at hc
  cases hc with
  | start => simp at heq
  | concat hc ha _ =>
    obtain ⟨rfl, hlast⟩ := List.append_inj' heq rfl
    obtain rfl := List.singleton_inj.1 hlast
    have hpos := hc.pos_of_isTaken ho.isTaken
    have hcount := ha.count
    rw [if_pos hadds, if_neg (by simp [(Access.only_adds ops hadds).2])] at hcount
    omega

end Course

end AccessControl
