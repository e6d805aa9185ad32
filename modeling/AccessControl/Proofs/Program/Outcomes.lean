import AccessControl.Proofs.Program.Interpretation

/-!
Programs whose outcome does not depend on what they ask for, or is limited whatever the replies are.
-/

namespace AccessControl

namespace Program

variable {α β : Type}

inductive Waits : Program α → Except Error α → Prop where
  | done (a : α) : Waits (.done a) (.ok a)
  | fail (e : Error) : Waits (.fail e) (.error e)
  | pause {next : Unit → Program α} {x : Except Error α} (h : Waits (next ()) x) :
    Waits (.ask .pause next) x

theorem waits_pure (a : α) : Waits (pure a) (.ok a) :=
  .done a

theorem waits_ofExcept (x : Except Error α) : Waits (ofExcept x) x := by
  cases x with
  | ok a => exact .done a
  | error e => exact .fail e

theorem Waits.bind {p : Program α} {x : Except Error α} {f : α → Program β}
    {y : α → Except Error β} (hp : Waits p x) (hf : ∀ a, Waits (f a) (y a)) :
    Waits (p >>= f) (x >>= y) := by
  induction hp with
  | done a => exact hf a
  | fail e => exact .fail e
  | pause h ih => exact .pause ih

theorem Waits.ensures {σ : Type} {ι : Interpreter σ} {P : σ → Prop} {p : Program α}
    {x : Except Error α} (hp : Waits p x) (hP : ∀ s, P s → P (ι s .pause).2) :
    Ensures ι P p fun r s => r = x ∧ P s := by
  induction hp with
  | done a => exact fun s hs => ⟨rfl, hs⟩
  | fail e => exact fun s hs => ⟨rfl, hs⟩
  | pause _ ih => exact fun s hs => ih _ (hP s hs)

theorem Waits.settles {σ : Type} {ι : Interpreter σ} {I : σ → Prop} (hI : Inert ι I)
    {p : Program α} {x : Except Error α} (hp : Waits p x) : Settles ι I p x := by
  induction hp with
  | done | fail => rfl
  | pause _ ih => exact fun s hs => ⟨hI .pause rfl s hs, ih⟩

theorem Waits.run {p : Program α} {x : Except Error α} (hp : Waits p x) (w : World) :
    p.run w = (x, w) := by
  induction hp with
  | done | fail => rfl
  | pause _ ih => exact ih

def Returns (Q : α → Prop) : Program α → Prop
  | .done a => Q a
  | .fail _ => True
  | .ask _ next => ∀ r, Returns Q (next r)

variable {Q : α → Prop}

theorem Returns.mono {Q' : α → Prop} {p : Program α} (hp : p.Returns Q) (h : ∀ a, Q a → Q' a) :
    p.Returns Q' := by
  induction p with
  | done a => exact h a hp
  | fail e => trivial
  | ask e next ih => exact fun r => ih r (hp r)

theorem Returns.bind {S : β → Prop} {p : Program α} {f : α → Program β} (hp : p.Returns Q)
    (hf : ∀ a, Q a → (f a).Returns S) : (p >>= f).Returns S := by
  induction p with
  | done a => exact hf a hp
  | fail e => trivial
  | ask e next ih => exact fun r => ih r (hp r)

theorem Returns.runBy {σ : Type} {ι : Interpreter σ} {p : Program α} (hp : p.Returns Q) {s : σ}
    {a : α} (h : (p.runBy ι s).1 = .ok a) : Q a := by
  induction p generalizing s with
  | done b =>
    obtain rfl := Except.ok.inj h
    exact hp
  | fail e => cases h
  | ask e next ih => exact ih _ (hp _) h

theorem Returns.bind_congr {p : Program α} {f g : α → Program β} (hp : p.Returns Q)
    (h : ∀ a, Q a → f a = g a) : p >>= f = p >>= g := by
  induction p with
  | done a => exact h a hp
  | fail e => rfl
  | ask e next ih => exact congrArg (ask e) (funext fun r => ih r (hp r))

theorem returns_true (p : Program α) : p.Returns fun _ => True := by
  induction p with
  | done a => trivial
  | fail e => trivial
  | ask e next ih => exact ih

theorem Returns.attempt {p : Program α} (hp : p.Returns Q) :
    p.attempt.Returns fun x => ∀ a, x = .ok a → Q a := by
  induction p with
  | done a =>
    rintro _ ⟨⟩
    exact hp
  | fail e => exact fun _ h => nomatch h
  | ask e next ih => exact fun r => ih r (hp r)

theorem Returns.within {p : Program α} (hp : p.Returns Q) (b : Log.Binding) :
    (within b p).Returns Q := by
  intro undos
  refine hp.attempt.bind fun x hx _ => ?_
  cases x with
  | ok a => exact hx a rfl
  | error e => trivial

theorem Returns.yields {σ : Type} {ι : Interpreter σ} {I : σ → Prop} {mayFail : Prop} {S : α → Prop}
    {p : Program α} (hp : p.Returns Q) (h : Yields ι I mayFail p S) :
    Yields ι I mayFail p fun a => S a ∧ Q a := by
  induction p with
  | done a => exact ⟨h, hp⟩
  | fail e => exact h
  | ask e next ih => exact fun s hs => ⟨(h s hs).1, ih _ (hp _) (h s hs).2⟩

theorem Waits.returns {p : Program α} {x : Except Error α} (hp : Waits p x) :
    p.Returns (x = .ok ·) := by
  induction hp with
  | done a => rfl
  | fail e => trivial
  | pause h ih => exact fun _ => ih

end Program

end AccessControl
