import AccessControl.Proofs.Program.Interpretation

/-!
Failures of the store that come from outside the engine. Where they strike is one thing, and what
they are is another.
-/

namespace AccessControl

namespace Faults

variable {κ ε : Type} [DecidableEq κ]

theorem snd_take (f : Faults κ ε) {ks : List κ} {l : κ} (h : l ∉ ks) : (f.take ks).2 l = f l := by
  induction ks generalizing f with
  | nil => rfl
  | cons k ks ih =>
    rw [List.mem_cons, not_or] at h
    have hskip : f.skip k l = f l := funext fun n => if_neg h.1
    rw [take]
    cases f k 0 with
    | some e => exact hskip
    | none => exact (ih _ h.2).trans hskip

theorem fst_take_congr {f g : Faults κ ε} {ks : List κ} (h : ∀ k ∈ ks, f k = g k) :
    (f.take ks).1 = (g.take ks).1 := by
  induction ks generalizing f g with
  | nil => rfl
  | cons k ks ih =>
    have hk := h k List.mem_cons_self
    rw [take, take, hk]
    cases g k 0 with
    | some e => rfl
    | none =>
      refine ih fun l hl => funext fun n => ?_
      simp only [skip, h l (List.mem_cons_of_mem _ hl)]

theorem fst_take_singleton (f : Faults κ ε) (k : κ) : (f.take [k]).1 = f k 0 := by
  rw [take]
  cases f k 0 <;> rfl

end Faults

namespace Error

inductive Shown (kind : Error → Prop) {α : Type} : Except Error α → Except Error α → Prop where
  | value (a : α) : Shown kind (.ok a) (.ok a)
  | error {e : Error} (h : kind e) : Shown kind (.error e) (.error e)

inductive Hidden (kind : Error → Prop) {α : Type} : Except Error α → Except Error α → Prop where
  | shown {r r' : Except Error α} (h : Shown kind r r') : Hidden kind r r'
  | outside {e e' : Error} (h : e.isOwn = false) (h' : e'.isOwn = false) :
    Hidden kind (.error e) (.error e')

variable {kind kind' : Error → Prop} {α : Type} {r r' : Except Error α}

theorem Shown.eq (h : Shown kind r r') : r = r' := by
  cases h <;> rfl

theorem Shown.of_error {e : Error} (h : Shown kind (.error e) r') : kind e := by
  cases h with
  | error h => exact h

theorem Shown.mono (h : Shown kind r r') (hkind : ∀ e, kind e → kind' e) : Shown kind' r r' := by
  cases h with
  | value a => exact .value a
  | error h => exact .error (hkind _ h)

theorem Hidden.mono (h : Hidden kind r r') (hkind : ∀ e, kind e → kind' e) :
    Hidden kind' r r' := by
  cases h with
  | shown h => exact .shown (h.mono hkind)
  | outside h h' => exact .outside h h'

theorem Hidden.error {β : Type} {e e' : Error}
    (h : Hidden kind (.error e : Except Error α) (.error e')) :
    Hidden kind (.error e : Except Error β) (.error e') := by
  cases h with
  | shown h =>
    cases h with
    | error h => exact .shown (.error h)
  | outside h h' => exact .outside h h'

end Error

namespace Faults

variable {κ : Type} {f g : Faults κ Error}

/-- Every failure comes from outside. To be cancelled is not to fail. -/
def AreOutside (f : Faults κ Error) : Prop :=
  ∀ k n, ∀ e ∈ f k n, e.isOwn = false ∧ e ≠ .cancelled

/-- Failures from outside that strike at the same calls. -/
structure Masks (f g : Faults κ Error) : Prop where
  left : f.AreOutside
  right : g.AreOutside
  places : ∀ k n, (f k n).isSome = (g k n).isSome

theorem AreOutside.masks (h : f.AreOutside) : f.Masks f :=
  ⟨h, h, fun _ _ => rfl⟩

variable [DecidableEq κ]

theorem Masks.skip (h : f.Masks g) (k : κ) : (f.skip k).Masks (g.skip k) where
  left l n := by
    rw [Faults.skip]
    split <;> exact h.left l _
  right l n := by
    rw [Faults.skip]
    split <;> exact h.right l _
  places l n := by
    rw [Faults.skip, Faults.skip]
    split <;> exact h.places l _

theorem Masks.take (h : f.Masks g) (ks : List κ) :
    ((f.take ks).1 = .none ∧ (g.take ks).1 = .none ∨
        ∃ e e', (f.take ks).1 = some e ∧ (g.take ks).1 = some e' ∧
          e.isOwn = false ∧ e'.isOwn = false) ∧
      (f.take ks).2.Masks (g.take ks).2 := by
  induction ks generalizing f g with
  | nil => exact ⟨.inl ⟨rfl, rfl⟩, h⟩
  | cons k ks ih =>
    -- both plans fail here, or neither does
    have hplace := h.places k 0
    rw [Faults.take, Faults.take]
    cases hf : f k 0 with
    | none =>
      rw [hf] at hplace
      have hg : g k 0 = .none :=
        Option.isNone_iff_eq_none.1 (Option.isSome_eq_false_iff.1 hplace.symm)
      rw [hg]
      exact ih (h.skip k)
    | some e =>
      rw [hf] at hplace
      obtain ⟨e', hg⟩ := Option.isSome_iff_exists.1 hplace.symm
      rw [hg]
      exact ⟨.inr ⟨e, e', rfl, rfl, (h.left k 0 e hf).1, (h.right k 0 e' hg).1⟩, h.skip k⟩

theorem AreOutside.plan (h : f.AreOutside) {e : Error} (he : e.isOwn = false ∧ e ≠ .cancelled)
    (k : κ) (times : Option Nat) : (f.plan k e times).AreOutside := by
  intro l n e' he'
  rw [Option.mem_def, Faults.plan] at he'
  split at he'
  · split at he'
    · obtain rfl := Option.some.inj he'
      exact he
    · cases he'
  · exact h l n e' he'

theorem AreOutside.masks_plan (h : f.AreOutside) {e e' : Error}
    (he : e.isOwn = false ∧ e ≠ .cancelled) (he' : e'.isOwn = false ∧ e' ≠ .cancelled) (k : κ)
    (times : Option Nat) : (f.plan k e times).Masks (f.plan k e' times) where
  left := h.plan he k times
  right := h.plan he' k times
  places l n := by
    rw [Faults.plan, Faults.plan]
    split
    · split <;> rfl
    · rfl

end Faults

namespace Store

theorem Ledger.call_outside {m : Ledger} (h : m.faults.AreOutside) {c : Call}
    (hc : m.tables.after c = m.tables) :
    ((m.call c).1 = .ok (m.tables.reply c) ∨ ∃ e, (m.call c).1 = .error e) ∧
      (m.call c).2.tables = m.tables ∧ (m.call c).2.faults.AreOutside := by
  have hleft := (h.masks.take c.methods).2.left
  rw [call]
  revert hleft
  rcases m.faults.take c.methods with ⟨_ | e, faults⟩
  · exact fun hleft => ⟨.inl rfl, hc, hleft⟩
  · exact fun hleft => ⟨.inr ⟨e, rfl⟩, rfl, hleft⟩

theorem Ledger.call_masks {t : Tables} {f g : Faults Method Error} (h : f.Masks g) (c : Call) :
    Error.Hidden (fun _ => False) ((⟨t, f⟩ : Ledger).call c).1 ((⟨t, g⟩ : Ledger).call c).1 ∧
      ((⟨t, f⟩ : Ledger).call c).2.tables = ((⟨t, g⟩ : Ledger).call c).2.tables ∧
      ((⟨t, f⟩ : Ledger).call c).2.faults.Masks ((⟨t, g⟩ : Ledger).call c).2.faults := by
  obtain ⟨hstrikes, hleft⟩ := h.take c.methods
  rw [call, call]
  revert hstrikes hleft
  rcases f.take c.methods with ⟨_ | e, f'⟩ <;> rcases g.take c.methods with ⟨_ | e', g'⟩
  · exact fun _ hleft => ⟨.shown (.value _), rfl, hleft⟩
  · rintro (⟨-, h⟩ | ⟨_, _, h, -⟩) <;> cases h
  · rintro (⟨h, -⟩ | ⟨_, _, -, h, -⟩) <;> cases h
  · rintro (⟨h, -⟩ | ⟨_, _, ⟨⟩, ⟨⟩, he, he'⟩) hleft
    · cases h
    · exact ⟨.outside he he', rfl, hleft⟩

end Store

end AccessControl
