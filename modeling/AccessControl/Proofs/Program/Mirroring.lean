import AccessControl.Proofs.Program.Accesses
import AccessControl.Stateful

/-!
Two programs under two interpretations, one beside the other: from related states they come to
matching outcomes and to related states.
-/

namespace AccessControl

namespace Program

variable {σ τ α β γ δ : Type} {ι : Interpreter σ} {κ : Interpreter τ}

/-- Both outcomes are values, and `A` holds of them and the states, or both are the same failure,
and `E` holds of the states. -/
inductive Mirrored (A : α → β → σ → τ → Prop) (E : σ → τ → Prop) :
    Except Error α → Except Error β → σ → τ → Prop where
  | value {a : α} {b : β} {s : σ} {t : τ} (h : A a b s t) : Mirrored A E (.ok a) (.ok b) s t
  | failure {e : Error} {s : σ} {t : τ} (h : E s t) : Mirrored A E (.error e) (.error e) s t

def Mirrors (ι : Interpreter σ) (κ : Interpreter τ) (P : σ → τ → Prop) (p : Program α)
    (q : Program β) (A : α → β → σ → τ → Prop) (E : σ → τ → Prop) : Prop :=
  ∀ s t, P s t → Mirrored A E (p.runBy ι s).1 (q.runBy κ t).1 (p.runBy ι s).2 (q.runBy κ t).2

variable {P P' E E' : σ → τ → Prop} {A A' : α → β → σ → τ → Prop} {B : γ → δ → σ → τ → Prop}

theorem Mirrored.mono {x : Except Error α} {y : Except Error β} {s : σ} {t : τ}
    (h : Mirrored A E x y s t) (hA : ∀ a b s t, A a b s t → A' a b s t)
    (hE : ∀ s t, E s t → E' s t) : Mirrored A' E' x y s t := by
  cases h with
  | value h => exact .value (hA _ _ s t h)
  | failure h => exact .failure (hE s t h)

theorem Mirrors.mono {p : Program α} {q : Program β} (h : Mirrors ι κ P p q A E)
    (hP : ∀ s t, P' s t → P s t) (hA : ∀ a b s t, A a b s t → A' a b s t)
    (hE : ∀ s t, E s t → E' s t) : Mirrors ι κ P' p q A' E' :=
  fun s t hs => (h s t (hP s t hs)).mono hA hE

theorem mirrors_pure {a : α} {b : β} (h : ∀ s t, P s t → A a b s t) :
    Mirrors ι κ P (pure a) (pure b) A E :=
  fun s t hs => .value (h s t hs)

theorem mirrors_fail {e : Error} (h : ∀ s t, P s t → E s t) :
    Mirrors ι κ P (fail e) (fail e) A E :=
  fun s t hs => .failure (h s t hs)

theorem Mirrors.bind {p : Program α} {q : Program β} {f : α → Program γ} {g : β → Program δ}
    (hp : Mirrors ι κ P p q A E) (hf : ∀ a b, Mirrors ι κ (A a b) (f a) (g b) B E) :
    Mirrors ι κ P (p >>= f) (q >>= g) B E := by
  intro s t hs
  have h := hp s t hs
  rw [runBy_bind, runBy_bind]
  revert h
  rcases p.runBy ι s with ⟨x, s'⟩
  rcases q.runBy κ t with ⟨y, t'⟩
  intro h
  cases h with
  | value h => exact hf _ _ s' t' h
  | failure h => exact .failure h

theorem Mirrors.attempt {p : Program α} {q : Program β} (h : Mirrors ι κ P p q A E) :
    Mirrors ι κ P p.attempt q.attempt (Mirrored A E) E' := by
  intro s t hs
  rw [runBy_attempt, runBy_attempt]
  exact .value (h s t hs)

theorem mirrors_ofExcept {x : Except Error α} {y : Except Error β} :
    Mirrors ι κ (Mirrored A E x y) (ofExcept x) (ofExcept y) A E := by
  intro s t hs
  rw [runBy_ofExcept, runBy_ofExcept]
  exact hs

theorem Mirrors.left {p : Program γ} {f : γ → Program α} {q : Program β}
    {C : γ → σ → τ → Prop}
    (hp : ∀ t, Ensures ι (P · t) p fun r s => ∃ c, r = .ok c ∧ C c s t)
    (hf : ∀ c, Mirrors ι κ (C c) (f c) q A E) : Mirrors ι κ P (p >>= f) q A E := by
  intro s t hs
  obtain ⟨c, hc, hC⟩ := hp t s hs
  have hrun : (p >>= f).runBy ι s = (f c).runBy ι (p.runBy ι s).2 := by
    rw [runBy_bind]
    revert hc
    rcases p.runBy ι s with ⟨r, s'⟩
    rintro rfl
    rfl
  rw [hrun]
  exact hf c _ _ hC

theorem Only.mirrors {kind : Effect → Bool}
    (hP : ∀ e, kind e = true → ∀ s t, P s t → (ι s e).1 = (κ t e).1 ∧ P (ι s e).2 (κ t e).2)
    {p : Program α} (hp : Only kind p) :
    Mirrors ι κ P p p (fun a b s t => a = b ∧ P s t) P := by
  induction p with
  | done a => exact fun s t hs => .value ⟨rfl, hs⟩
  | fail e => exact fun s t hs => .failure hs
  | ask e next ih =>
    intro s t hs
    obtain ⟨hreply, hafter⟩ := hP e hp.1 s t hs
    have h := ih (ι s e).1 (hp.2 _) _ _ hafter
    rw [runBy, runBy, ← hreply]
    exact h

theorem mirrors_ensures {I : σ → Prop} {J : τ → Prop} {p q : Program α} {x : Except Error α}
    (hp : Ensures ι I p fun r s => r = x ∧ I s) (hq : Ensures κ J q fun r t => r = x ∧ J t)
    (hI : ∀ s t, P s t → I s) (hJ : ∀ s t, P s t → J t) (hP : ∀ s t, I s → J t → P' s t) :
    Mirrors ι κ P p q (fun a b s t => a = b ∧ P' s t) P' := by
  intro s t hs
  obtain ⟨hx, hs'⟩ := hp s (hI s t hs)
  obtain ⟨hy, ht'⟩ := hq t (hJ s t hs)
  rw [hx, hy]
  cases x with
  | error e => exact .failure (hP _ _ hs' ht')
  | ok a => exact .value ⟨rfl, hP _ _ hs' ht'⟩

end Program

/-! Programs over states of their own, which stay related as well. -/

namespace Stateful

open Program (Mirrored)

variable {σ τ ρ ρ' ω ω' α β γ δ : Type} {ι : Interpreter σ} {κ : Interpreter τ}

inductive Agree (A : α → β → Prop) : Except Error α → Except Error β → Prop where
  | value {a : α} {b : β} (h : A a b) : Agree A (.ok a) (.ok b)
  | failure (e : Error) : Agree A (.error e) (.error e)

theorem agree_refl (x : Except Error α) : Agree Eq x x := by
  cases x with
  | error e => exact .failure e
  | ok a => exact .value rfl

theorem Agree.eq {x y : Except Error α} (h : Agree Eq x y) : x = y := by
  cases h with
  | value h => exact congrArg Except.ok h
  | failure e => rfl

def Mirrors (ι : Interpreter σ) (κ : Interpreter τ) (P : σ → τ → Prop) (R : ρ → ρ' → Prop)
    (A : α → β → Prop) (p : Stateful ρ α) (q : Stateful ρ' β) : Prop :=
  ∀ r r', R r r' → Program.Mirrors ι κ P (p r) (q r')
    (fun x y s t => Agree A x.1 y.1 ∧ R x.2 y.2 ∧ P s t) fun _ _ => False

variable {P : σ → τ → Prop} {R : ρ → ρ' → Prop} {A : α → β → Prop} {B : γ → δ → Prop}

theorem mirrors_pure {a : α} {b : β} (h : A a b) : Mirrors ι κ P R A (pure a) (pure b) :=
  fun _ _ hr => Program.mirrors_pure fun _ _ hs => ⟨.value h, hr, hs⟩

theorem mirrors_ofExcept {x : Except Error α} {y : Except Error β} (h : Agree A x y) :
    Mirrors ι κ P R A (ofExcept x) (ofExcept y) :=
  fun _ _ hr => Program.mirrors_pure fun _ _ hs => ⟨h, hr, hs⟩

theorem mirrors_get : Mirrors ι κ P R R (get : Stateful ρ ρ) (get : Stateful ρ' ρ') :=
  fun _ _ hr => Program.mirrors_pure fun _ _ hs => ⟨.value hr, hr, hs⟩

theorem mirrors_set {r : ρ} {r' : ρ'} (h : R r r') :
    Mirrors ι κ P R Eq (set r : Stateful ρ PUnit) (set r' : Stateful ρ' PUnit) :=
  fun _ _ _ => Program.mirrors_pure fun _ _ hs => ⟨.value rfl, h, hs⟩

theorem mirrors_modify {f : ρ → ρ} {g : ρ' → ρ'} (h : ∀ r r', R r r' → R (f r) (g r')) :
    Mirrors ι κ P R Eq (modify f : Stateful ρ PUnit) (modify g : Stateful ρ' PUnit) :=
  fun r r' hr => Program.mirrors_pure fun _ _ hs => ⟨.value rfl, h r r' hr, hs⟩

theorem Mirrors.bind {p : Stateful ρ α} {q : Stateful ρ' β} {f : α → Stateful ρ γ}
    {g : β → Stateful ρ' δ} (hp : Mirrors ι κ P R A p q)
    (hf : ∀ a b, A a b → Mirrors ι κ P R B (f a) (g b)) :
    Mirrors ι κ P R B (p >>= f) (q >>= g) := by
  intro r r' hr
  refine (hp r r' hr).bind ?_
  rintro ⟨_, r⟩ ⟨_, r'⟩ s t ⟨h | e, hr, hs⟩
  · exact hf _ _ h r r' hr s t hs
  · exact .value ⟨.failure e, hr, hs⟩

theorem mirrors_lift {p : Program α} {q : Program β}
    (h : Program.Mirrors ι κ P p q (fun a b s t => A a b ∧ P s t) P) :
    Mirrors ι κ P R A (liftM p) (liftM q) := by
  intro r r' hr
  refine h.attempt.bind ?_
  rintro _ _ s t (h | h)
  · exact .value ⟨.value h.1, hr, h.2⟩
  · exact .value ⟨.failure _, hr, h⟩

theorem Mirrors.left {p : Program γ} {f : γ → Stateful ρ α} {q : Stateful ρ' β}
    (hp : ∀ t, Program.Ensures ι (P · t) p fun r s => ∃ c, r = .ok c ∧ P s t)
    (hf : ∀ c, Mirrors ι κ P R A (f c) q) : Mirrors ι κ P R A (liftM p >>= f) q := by
  intro r r' hr
  have hlift (t : τ) : Program.Ensures ι (P · t) ((liftM p : Stateful ρ γ) r) fun x s =>
      ∃ y, x = .ok y ∧ (∃ c, y = (.ok c, r)) ∧ P s t := by
    refine Program.Ensures.bind (hp t).attempt (fun x => ?_) (by simp)
    refine Program.ensures_pure fun s h => ?_
    obtain ⟨_, hx, c, rfl, hs⟩ := h
    obtain rfl := Except.ok.inj hx
    exact ⟨_, rfl, ⟨c, rfl⟩, hs⟩
  refine Program.Mirrors.left hlift ?_
  rintro x s t ⟨⟨c, rfl⟩, hs⟩
  exact hf c r r' hr s t hs

theorem Mirrors.zoom {T : ω → ω' → Prop} {p : Stateful ω α} {q : Stateful ω' β}
    {part : ρ → ω} {part' : ρ' → ω'} {put : ρ → ω → ρ} {put' : ρ' → ω' → ρ'}
    (h : Mirrors ι κ P T A p q) (hpart : ∀ r r', R r r' → T (part r) (part' r'))
    (hput : ∀ r r' t t', R r r' → T t t' → R (put r t) (put' r' t')) :
    Mirrors ι κ P R A (Stateful.zoom part put p) (Stateful.zoom part' put' q) := by
  intro r r' hr
  refine (h _ _ (hpart r r' hr)).bind ?_
  rintro ⟨x, t⟩ ⟨y, t'⟩ s w ⟨hx, ht, hs⟩
  exact .value ⟨hx, hput r r' t t' hr ht, hs⟩

theorem mirrors_forM {f : γ → Stateful ρ PUnit} {g : γ → Stateful ρ' PUnit} (xs : List γ)
    (h : ∀ x ∈ xs, Mirrors ι κ P R Eq (f x) (g x)) : Mirrors ι κ P R Eq (xs.forM f) (xs.forM g) := by
  induction xs with
  | nil => exact mirrors_pure rfl
  | cons x xs ih =>
    refine (h x List.mem_cons_self).bind fun _ _ _ => ih fun y hy => ?_
    exact h y (List.mem_cons_of_mem _ hy)

end Stateful

end AccessControl
