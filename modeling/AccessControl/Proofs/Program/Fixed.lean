import AccessControl.Proofs.Program.Accesses
import AccessControl.Proofs.Program.Outcomes
import Mathlib.Logic.Function.Basic

/-!
Programs whose outcome is fixed: they ask for accesses of a kind only, and whatever the replies are,
they come to the same.
-/

namespace AccessControl

def Effect.isSilent : Effect → Bool
  | .pause | .enter _ | .leave _ | .record _ | .count _ => true
  | _ => false

theorem Effect.isQuiet_of_isSilent (e : Effect) (h : e.isSilent = true) : e.isQuiet = true := by
  cases e with
  | pause | enter | leave | record | count => rfl
  | _ => cases h

namespace Program

variable {α β : Type}

/-- Every access of a program is of a kind, and its outcome is the same whatever the replies are. -/
inductive Fixed {α : Type} (kind : Effect → Bool) : Program α → Except Error α → Prop where
  | done (a : α) : Fixed kind (.done a) (.ok a)
  | fail (e : Error) : Fixed kind (.fail e) (.error e)
  | ask {e : Effect} {next : e.Reply → Program α} {x : Except Error α} (he : kind e = true)
    (h : ∀ r, Fixed kind (next r) x) : Fixed kind (.ask e next) x

variable {kind : Effect → Bool}

theorem fixed_ofExcept (x : Except Error α) : Fixed kind (ofExcept x) x := by
  cases x with
  | ok a => exact .done a
  | error e => exact .fail e

theorem Fixed.only {p : Program α} {x : Except Error α} (hp : Fixed kind p x) : Only kind p := by
  induction hp with
  | done | fail => trivial
  | ask he _ ih => exact ⟨he, ih⟩

theorem Fixed.mono {kind' : Effect → Bool} (h : ∀ e, kind e = true → kind' e = true)
    {p : Program α} {x : Except Error α} (hp : Fixed kind p x) : Fixed kind' p x := by
  induction hp with
  | done a => exact .done a
  | fail e => exact .fail e
  | ask he _ ih => exact .ask (h _ he) ih

theorem Fixed.runBy {σ : Type} {ι : Interpreter σ} {p : Program α} {x : Except Error α}
    (hp : Fixed kind p x) (s : σ) : (p.runBy ι s).1 = x := by
  induction hp generalizing s with
  | done | fail => rfl
  | ask _ _ ih => exact ih _ _

theorem Fixed.run {p : Program α} {x : Except Error α} (hp : Fixed kind p x) (w : World) :
    (p.run w).1 = x := by
  rw [← runBy_answer]
  exact hp.runBy w

theorem Fixed.bind {p : Program α} {x : Except Error α} {f : α → Program β}
    {y : α → Except Error β} (hp : Fixed kind p x) (hf : ∀ a, x = .ok a → Fixed kind (f a) (y a)) :
    Fixed kind (p >>= f) (x >>= y) := by
  induction hp with
  | done a => exact hf a rfl
  | fail e => exact .fail e
  | ask he _ ih => exact .ask he fun r => ih r hf

theorem Fixed.attempt {p : Program α} {x : Except Error α} (hp : Fixed kind p x) :
    Fixed kind p.attempt (.ok x) := by
  induction hp with
  | done a => exact .done _
  | fail e => exact .done _
  | ask he _ ih => exact .ask he ih

theorem Fixed.returns {p : Program α} {x : Except Error α} (hp : Fixed kind p x) :
    p.Returns (x = .ok ·) := by
  induction hp with
  | done a => rfl
  | fail e => trivial
  | ask _ _ ih => exact ih

theorem Waits.fixed (hpause : kind .pause = true) {p : Program α} {x : Except Error α}
    (hp : Waits p x) : Fixed kind p x := by
  induction hp with
  | done a => exact .done a
  | fail e => exact .fail e
  | pause _ ih => exact .ask hpause fun _ => ih

theorem Fixed.within {p : Program α} {x : Except Error α} (hp : Fixed kind p x) (b : Log.Binding)
    (henter : kind (.enter b) = true) (hleave : ∀ undos, kind (.leave undos) = true) :
    Fixed kind (within b p) x := by
  refine .ask henter fun undos => ?_
  refine Fixed.bind (y := fun x => x) hp.attempt fun _ h => ?_
  obtain rfl := Except.ok.inj h
  exact .ask (hleave undos) fun _ => fixed_ofExcept _

theorem Fixed.ok_bind {p : Program α} {a : α} {f : α → Program β} {y : Except Error β}
    (hp : Fixed kind p (.ok a)) (hf : Fixed kind (f a) y) : Fixed kind (p >>= f) y :=
  hp.bind (y := fun _ => y) fun _ h => Except.ok.inj h ▸ hf

theorem Fixed.settles {σ : Type} {ι : Interpreter σ} {I : σ → Prop} (hI : Inert ι I)
    (hkind : ∀ e, kind e = true → e.isQuiet = true) {p : Program α} {x : Except Error α}
    (hp : Fixed kind p x) : Settles ι I p x := by
  induction hp with
  | done | fail => rfl
  | ask he _ ih => exact fun s hs => ⟨hI _ (hkind _ he) s hs, ih _⟩

/-- Replies that are foretold, and whether all accesses have been quiet so far. -/
abbrev Oracle : Type := ((e : Effect) → e.Reply) × Bool

def Oracle.answer : Interpreter Oracle := fun s e => (s.1 e, s.1, s.2 && e.isQuiet)

def Oracle.replies (e : Effect) : e.Reply :=
  ((World.initial .error none { path := "" }).answer e).1

theorem fixed_of_settles {p : Program α} {x : Except Error α}
    (h : ∀ {σ : Type} {ι : Interpreter σ} {I : σ → Prop}, Inert ι I → (∃ s, I s) →
      Settles ι I p x) : Fixed Effect.isQuiet p x := by
  classical
  have hinert : Inert Oracle.answer fun s => s.2 = true := by
    intro e he s hs
    simp [Oracle.answer, he, hs]
  have hp := h hinert ⟨(Oracle.replies, true), rfl⟩
  clear h
  induction p with
  | done a =>
    obtain rfl : Except.ok a = x := hp
    exact .done a
  | fail e =>
    obtain rfl : Except.error e = x := hp
    exact .fail e
  | ask e next ih =>
    apply Fixed.ask
    · have hkept := (hp (Oracle.replies, true) rfl).1
      simpa [Oracle.answer] using hkept
    · intro r
      -- the invariant allows all replies, so the rest settles after each of them
      have hrest := (hp (Function.update Oracle.replies e r, true) rfl).2
      simp only [Oracle.answer, Function.update_self] at hrest
      exact ih r hrest

end Program

end AccessControl
