import AccessControl.Proofs.Program.Accesses

/-!
What a run leaves in the counters follows from what the program asks for.
-/

namespace AccessControl

open Counters (Series)

def Effect.counts (s : Series) : Effect → Bool
  | .count t => t = s
  | _ => false

namespace Counters

variable {m : Counters} {s t : Series}

theorem lookup_cons (c : Series × Nat) (counts : List (Series × Nat)) :
    (c :: counts).lookup t = if t = c.1 then some c.2 else counts.lookup t := by
  rw [List.lookup_cons]
  by_cases h : t = c.1
  · rw [if_pos h, beq_iff_eq.mpr h]
  · rw [if_neg h, beq_false_of_ne h]

theorem lookup_put (n : Nat) (counts : List (Series × Nat)) :
    (put s n counts).lookup t = if t = s then some n else counts.lookup t := by
  induction counts with
  | nil => exact lookup_cons (s, n) []
  | cons c counts ih =>
    obtain ⟨u, k⟩ := c
    rw [put]
    by_cases hu : u = s
    · subst hu
      rw [if_pos rfl, lookup_cons, lookup_cons]
      by_cases ht : t = u <;> simp [ht]
    · rw [if_neg hu, lookup_cons, lookup_cons, ih]
      by_cases ht : t = u <;> simp [ht, hu]

theorem units_set (n : Nat) : (m.set s n).units t = if t = s then n else m.units t := by
  rw [units, units, set, lookup_put]
  by_cases h : t = s
  · rw [if_pos h, if_pos h, Option.getD_some]
  · rw [if_neg h, if_neg h]

theorem units_increment :
    (m.increment s).units t = m.units t + if s = t then Binary64.one else 0 := by
  rw [increment, units_set]
  by_cases h : t = s
  · simp [h]
  · simp [h, Ne.symm h]

end Counters

namespace World

theorem units_answer {w : World} {m : Counters} (hm : w.counters = some m) (e : Effect) :
    ∃ m', (w.answer e).2.counters = some m' ∧
      ∀ s, m'.units s = m.units s + if e.counts s then Binary64.one else 0 := by
  cases e with
  | count t =>
    have hcounters : (w.answer (.count t)).2.counters = some (m.increment t) :=
      congrArg (Option.map fun c : Counters => c.increment t) hm
    refine ⟨_, hcounters, fun s => ?_⟩
    simp only [Counters.units_increment, Effect.counts, decide_eq_true_eq]
  | timed =>
    have hcounters : (w.answer .timed).2.counters = some m.timed :=
      congrArg (Option.map Counters.timed) hm
    exact ⟨_, hcounters, fun s => rfl⟩
  | _ => exact ⟨m, hm, fun s => rfl⟩

end World

theorem Program.units_run {α : Type} (p : Program α) {w : World} {m : Counters}
    (hm : w.counters = some m) :
    ∃ m', (p.run w).2.counters = some m' ∧
      ∀ s, m'.units s = m.units s + (p.trace w).countP (Effect.counts s) * Binary64.one := by
  induction p generalizing w m with
  | done a => exact ⟨m, hm, fun s => by simp [trace]⟩
  | fail e => exact ⟨m, hm, fun s => by simp [trace]⟩
  | ask e next ih =>
    obtain ⟨m₁, hm₁, hunits₁⟩ := World.units_answer hm e
    obtain ⟨m₂, hm₂, hunits₂⟩ := ih _ hm₁
    refine ⟨m₂, hm₂, fun s => ?_⟩
    rw [hunits₂, hunits₁, trace, List.countP_cons, Nat.add_mul]
    cases e.counts s with
    | true => simp; omega
    | false => simp

end AccessControl
