import AccessControl.Proofs.Program.Accesses

/-!
What a program asks for while others go on between its accesses, judged by what is on record of the
replies to it. A law says what is allowed, what reply is to be expected, and what is recorded of it.
-/

namespace AccessControl

structure Law (γ : Type) where
  allows : γ → Effect → Prop
  expects : γ → (e : Effect) → e.Reply → Prop
  record : γ → (e : Effect) → e.Reply → γ

def Law.Ignores {γ : Type} (law : Law γ) (e : Effect) : Prop :=
  ∀ g, law.allows g e ∧ ∀ r, law.record g e r = g

namespace Program

variable {γ α β : Type}

/-- Every access is allowed, whatever the expected replies are. `A` holds of a value and the record
by then, `E` of the record by a failure. -/
def Heeds (law : Law γ) (A : α → γ → Prop) (E : γ → Prop) : Program α → γ → Prop
  | .done a, g => A a g
  | .fail _, g => E g
  | .ask e next, g =>
    law.allows g e ∧ ∀ r, law.expects g e r → (next r).Heeds law A E (law.record g e r)

variable {law : Law γ} {A A' : α → γ → Prop} {E E' : γ → Prop} {g : γ}

theorem Heeds.mono {p : Program α} (h : p.Heeds law A E g) (hA : ∀ a g, A a g → A' a g)
    (hE : ∀ g, E g → E' g) : p.Heeds law A' E' g := by
  induction p generalizing g with
  | done a => exact hA a g h
  | fail e => exact hE g h
  | ask e next ih => exact ⟨h.1, fun r hr => ih r (h.2 r hr)⟩

theorem heeds_pure {a : α} (h : A a g) : Heeds law A E (pure a) g :=
  h

theorem heeds_fail {e : Error} (h : E g) : Heeds law A E (fail e) g :=
  h

theorem heeds_ofExcept {x : Except Error α} (h : Attained A E x g) :
    Heeds law A E (ofExcept x) g := by
  cases x <;> exact h

theorem Heeds.bind {p : Program α} {f : α → Program β} {B : β → γ → Prop}
    (hp : p.Heeds law A E g) (hf : ∀ a g, A a g → (f a).Heeds law B E g) :
    (p >>= f).Heeds law B E g := by
  induction p generalizing g with
  | done a => exact hf a g hp
  | fail e => exact hp
  | ask e next ih => exact ⟨hp.1, fun r hr => ih r (hp.2 r hr)⟩

theorem Heeds.attempt {p : Program α} (h : p.Heeds law A E g) :
    p.attempt.Heeds law (Attained A E) E' g := by
  induction p generalizing g with
  | done a => exact h
  | fail e => exact h
  | ask e next ih => exact ⟨h.1, fun r hr => ih r (h.2 r hr)⟩

theorem heeds_perform {e : Effect} {f : e.Reply → Program α} (he : law.allows g e)
    (hf : ∀ r, law.expects g e r → (f r).Heeds law A E (law.record g e r)) :
    (perform e >>= f).Heeds law A E g :=
  ⟨he, hf⟩

theorem heeds_ignored {e : Effect} {f : e.Reply → Program α} (he : law.Ignores e)
    (hf : ∀ r, law.expects g e r → (f r).Heeds law A E g) :
    (perform e >>= f).Heeds law A E g := by
  refine heeds_perform (he g).1 fun r hr => ?_
  rw [(he g).2 r]
  exact hf r hr

theorem Only.heeds {kind : Effect → Bool} (hkind : ∀ e, kind e = true → law.Ignores e)
    {p : Program α} (hp : Only kind p) : p.Heeds law (fun _ => (· = g)) (· = g) g := by
  induction p with
  | done a => rfl
  | fail e => rfl
  | ask e next ih =>
    obtain ⟨hallows, hrecord⟩ := hkind e hp.1 g
    refine ⟨hallows, fun r _ => ?_⟩
    rw [hrecord]
    exact ih r (hp.2 r)

theorem heeds_forM {ι : Type} {I : γ → Prop} {f : ι → Program Unit} {xs : List ι} (hg : I g)
    (hf : ∀ x ∈ xs, ∀ g, I g → (f x).Heeds law (fun _ => I) I g) :
    (xs.forM f).Heeds law (fun _ => I) I g := by
  induction xs generalizing g with
  | nil => exact hg
  | cons x xs ih =>
    refine (hf x List.mem_cons_self g hg).bind fun _ g hg => ?_
    exact ih hg fun y hy => hf y (List.mem_cons_of_mem _ hy)

theorem Heeds.storing {p : Program α} (hp : p.Heeds law A E g)
    (hlog : ∀ line, law.Ignores (.record line)) (logger operation : String) :
    (storing logger operation p).Heeds law A E g := by
  refine hp.attempt.bind fun x g hx => ?_
  cases x with
  | ok a => exact hx
  | error e =>
    change Heeds law A E (ite _ _ _) g
    split
    · exact hx
    · exact heeds_ignored (hlog _) fun _ _ => hx

theorem Heeds.locking {p : Program α} (hp : p.Heeds law A E g) {name : String}
    (hlock : law.Ignores (.lock name)) (hunlock : law.Ignores (.unlock name)) :
    (locking name p).Heeds law A E g := by
  refine heeds_ignored hlock fun _ _ => hp.attempt.bind fun x g hx => ?_
  exact heeds_ignored hunlock fun _ _ => heeds_ofExcept hx

theorem Heeds.both {p : Program α} {q : Program β} {B : α × β → γ → Prop}
    (hp : p.Heeds law A E g) (hpause : law.Ignores .pause)
    (hq : ∀ x g, Attained A E x g →
      q.Heeds law (fun b => Attained (fun a => B (a, b)) E' x) E' g) :
    (both p q).Heeds law B E' g := by
  refine heeds_ignored hpause fun _ _ => hp.attempt.bind fun x g hx => ?_
  refine (hq x g hx).attempt.bind fun y g hy => ?_
  refine heeds_ignored hpause fun _ _ => heeds_ignored hpause fun _ _ => ?_
  cases y with
  | error e => cases x <;> exact hy
  | ok b => cases x <;> exact hy

end Program

end AccessControl
