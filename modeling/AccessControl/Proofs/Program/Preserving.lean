import AccessControl.Proofs.Program.Accesses
import AccessControl.Proofs.Program.Outcomes
import AccessControl.Stateful

/-!
Programs over a state of their own that preserve an invariant of what surrounds them, and a condition
on that state.
-/

namespace AccessControl

open Program (Attains returns_true)

namespace Program

variable {ω α : Type} {ι : Interpreter ω} {I : ω → Prop}

theorem Keeps.attains {p : Program α} (hp : Keeps ι I p) : Attains ι I p (fun _ => I) I := by
  intro w hw
  have h := (hp.run hw).2
  revert h
  rcases p.runBy ι w with ⟨e | a, v⟩ <;> exact id

end Program

namespace Stateful

variable {ω σ τ α β γ : Type} {ι : Interpreter ω} {I : ω → Prop} {J : σ → Prop}

/-- Whatever the outcome is, the invariant `I` and the condition `J` hold after it. -/
def Preserves (ι : Interpreter ω) (I : ω → Prop) (J : σ → Prop) (p : Stateful σ α) : Prop :=
  ∀ s, J s → Attains ι I (p s) (fun r w => J r.2 ∧ I w) I

theorem preserves_pure (a : α) : Preserves ι I J (pure a) :=
  fun _ hs _ hw => ⟨hs, hw⟩

theorem preserves_get : Preserves ι I J (get : Stateful σ σ) :=
  fun _ hs _ hw => ⟨hs, hw⟩

theorem preserves_set {s : σ} (h : J s) : Preserves ι I J (set s : Stateful σ PUnit) :=
  fun _ _ _ hw => ⟨h, hw⟩

theorem preserves_modify {f : σ → σ} (h : ∀ s, J s → J (f s)) :
    Preserves ι I J (modify f : Stateful σ PUnit) :=
  fun s hs _ hw => ⟨h s hs, hw⟩

theorem preserves_ofExcept (x : Except Error α) : Preserves ι I J (Stateful.ofExcept x) :=
  fun _ hs _ hw => ⟨hs, hw⟩

theorem preserves_lift {p : Program α} (hp : Attains ι I p (fun _ => I) I) :
    Preserves ι I J (liftM p) := by
  intro s hs
  refine Program.Ensures.bind hp.attempt (fun x => Program.attains_pure ?_) ?_
  · rintro w ⟨y, hy, h⟩
    obtain rfl := Except.ok.inj hy
    cases x <;> exact ⟨hs, h⟩
  · rintro e w ⟨y, hy, -⟩
    cases hy

theorem Preserves.bind {p : Stateful σ α} {f : α → Stateful σ β} (hp : Preserves ι I J p)
    (hf : ∀ a, Preserves ι I J (f a)) : Preserves ι I J (p >>= f) := by
  intro s hs
  refine Program.Attains.bind (hp s hs) fun r => ?_
  rcases r with ⟨e | a, s'⟩
  · exact Program.attains_pure fun w hw => hw
  · rintro w ⟨hs', hw⟩
    exact hf a s' hs' w hw

theorem preserves_forM {f : γ → Stateful σ PUnit} {xs : List γ}
    (h : ∀ x ∈ xs, Preserves ι I J (f x)) : Preserves ι I J (xs.forM f) := by
  induction xs with
  | nil => exact preserves_pure ()
  | cons x xs ih =>
    exact (h x List.mem_cons_self).bind fun _ => ih fun y hy => h y (List.mem_cons_of_mem _ hy)

theorem Preserves.zoom {K : τ → Prop} {p : Stateful τ α} {part : σ → τ} {put : σ → τ → σ}
    (hp : Preserves ι I K p) (hpart : ∀ s, J s → K (part s))
    (hput : ∀ s t, J s → K t → J (put s t)) : Preserves ι I J (Stateful.zoom part put p) := by
  intro s hs
  refine Program.Attains.bind (hp (part s) (hpart s hs)) fun r => Program.attains_pure fun w hw => ?_
  exact ⟨hput s r.2 hs hw.1, hw.2⟩

/-! Conditions on the state alone, whatever surrounds a program. -/

/-- What holds of the state before a program, and of its outcome with the state after it. -/
def Leads (P : σ → Prop) (p : Stateful σ α) (Q : Except Error α → σ → Prop) : Prop :=
  ∀ s, P s → (p s).Returns fun r => Q r.1 r.2

variable {P : σ → Prop} {Q : Except Error α → σ → Prop}

theorem leads_pure {a : α} (h : ∀ s, P s → Q (.ok a) s) : Leads P (pure a) Q :=
  h

theorem leads_get {Q : Except Error σ → σ → Prop} (h : ∀ s, P s → Q (.ok s) s) :
    Leads P (get : Stateful σ σ) Q :=
  h

theorem leads_modify {f : σ → σ} {Q : Except Error PUnit → σ → Prop}
    (h : ∀ s, P s → Q (.ok ()) (f s)) : Leads P (modify f : Stateful σ PUnit) Q :=
  h

theorem leads_ofExcept {x : Except Error α} (h : ∀ s, P s → Q x s) :
    Leads P (Stateful.ofExcept x) Q :=
  h

theorem leads_lift {p : Program α} (h : ∀ x s, P s → Q x s) : Leads P (liftM p) Q :=
  fun s hs => (returns_true p.attempt).bind fun x _ => h x s hs

theorem Leads.bind {p : Stateful σ α} {f : α → Stateful σ β} {R : Except Error β → σ → Prop}
    (hp : Leads P p Q) (hf : ∀ a, Leads (Q (.ok a)) (f a) R)
    (he : ∀ e s, Q (.error e) s → R (.error e) s) : Leads P (p >>= f) R := by
  intro s hs
  refine (hp s hs).bind fun r hr => ?_
  rcases r with ⟨x, s'⟩
  cases x with
  | ok a => exact hf a s' hr
  | error e => exact he e s' hr

theorem Leads.mono {Q' : Except Error α → σ → Prop} {p : Stateful σ α} (hp : Leads P p Q)
    (h : ∀ x s, Q x s → Q' x s) : Leads P p Q' :=
  fun s hs => (hp s hs).mono fun r hr => h r.1 r.2 hr

end Stateful

end AccessControl
