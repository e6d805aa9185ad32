import AccessControl.World

/-!
Programs under any interpretation of their accesses: what a program ensures of its outcome and of
the state that it leaves, and what it upholds at every access, so that others may go on in between.
-/

namespace AccessControl

abbrev Interpreter (σ : Type) := σ → (e : Effect) → e.Reply × σ

/-- An access that neither reaches the store, the cache, the database or the disk nor makes an
identifier. -/
def Effect.isQuiet : Effect → Bool
  | .store _ | .cache _ | .database _ | .publish _ | .mint => false
  | _ => true

def Error.sealing {α : Type} (operation : String) : Except Error α → Except Error α
  | .ok a => .ok a
  | .error e => if e.isOwn then .error e else .error (.storage operation)

namespace Program

variable {σ α β : Type}

def runBy (ι : Interpreter σ) : Program α → σ → Except Error α × σ
  | .done a, s => (.ok a, s)
  | .fail e, s => (.error e, s)
  | .ask e next, s => runBy ι (next (ι s e).1) (ι s e).2

theorem runBy_answer (p : Program α) (w : World) : p.runBy World.answer w = p.run w := by
  induction p generalizing w with
  | done a => rfl
  | fail e => rfl
  | ask e next ih => exact ih (w.answer e).1 (w.answer e).2

variable {ι : Interpreter σ}

theorem runBy_bind (p : Program α) (f : α → Program β) (s : σ) :
    (p >>= f).runBy ι s =
      match p.runBy ι s with
      | (.ok a, t) => (f a).runBy ι t
      | (.error e, t) => (.error e, t) := by
  induction p generalizing s with
  | done a => rfl
  | fail e => rfl
  | ask e next ih => exact ih (ι s e).1 (ι s e).2

theorem runBy_attempt (p : Program α) (s : σ) :
    p.attempt.runBy ι s = (.ok (p.runBy ι s).1, (p.runBy ι s).2) := by
  induction p generalizing s with
  | done a => rfl
  | fail e => rfl
  | ask e next ih => exact ih (ι s e).1 (ι s e).2

theorem runBy_ofExcept (r : Except Error α) (s : σ) : (ofExcept r).runBy ι s = (r, s) := by
  cases r <;> rfl

/-! What a program ensures when it runs alone. -/

def Ensures (ι : Interpreter σ) (P : σ → Prop) (p : Program α)
    (Q : Except Error α → σ → Prop) : Prop :=
  ∀ s, P s → Q (p.runBy ι s).1 (p.runBy ι s).2

section Ensures

variable {P P' : σ → Prop} {Q Q' : Except Error α → σ → Prop}

theorem Ensures.mono {p : Program α} (h : Ensures ι P p Q) (hP : ∀ s, P' s → P s)
    (hQ : ∀ r s, Q r s → Q' r s) : Ensures ι P' p Q' :=
  fun s hs => hQ _ _ (h s (hP s hs))

theorem ensures_pure {a : α} (h : ∀ s, P s → Q (.ok a) s) : Ensures ι P (pure a) Q :=
  fun s hs => h s hs

theorem ensures_ofExcept {x : Except Error α} (h : ∀ s, P s → Q x s) :
    Ensures ι P (ofExcept x) Q := by
  intro s hs
  rw [runBy_ofExcept]
  exact h s hs

theorem ensures_perform {e : Effect} {Q : Except Error e.Reply → σ → Prop}
    (h : ∀ s, P s → Q (.ok (ι s e).1) (ι s e).2) : Ensures ι P (perform e) Q :=
  fun s hs => h s hs

theorem Ensures.bind {p : Program α} {f : α → Program β} {R : Except Error β → σ → Prop}
    (hp : Ensures ι P p Q) (hf : ∀ a, Ensures ι (Q (.ok a)) (f a) R)
    (he : ∀ e s, Q (.error e) s → R (.error e) s) : Ensures ι P (p >>= f) R := by
  intro s hs
  have h := hp s hs
  rw [runBy_bind]
  revert h
  rcases p.runBy ι s with ⟨e | a, t⟩
  · exact he e t
  · exact hf a t

theorem Ensures.attempt {p : Program α} (h : Ensures ι P p Q) :
    Ensures ι P p.attempt fun r s => ∃ x, r = .ok x ∧ Q x s := by
  intro s hs
  rw [runBy_attempt]
  exact ⟨_, rfl, h s hs⟩

end Ensures

/-! Values and failures apart. -/

/-- `A` holds after a value, `E` after a failure. -/
def Attained (A : α → σ → Prop) (E : σ → Prop) : Except Error α → σ → Prop
  | .ok a => A a
  | .error _ => E

abbrev Attains (ι : Interpreter σ) (P : σ → Prop) (p : Program α) (A : α → σ → Prop)
    (E : σ → Prop) : Prop :=
  Ensures ι P p (Attained A E)

section Attains

variable {P P' E : σ → Prop} {A A' : α → σ → Prop}

theorem attains_pure {a : α} (h : ∀ s, P s → A a s) : Attains ι P (pure a) A E :=
  h

theorem attains_fail {e : Error} (h : ∀ s, P s → E s) : Attains ι P (fail e) A E :=
  h

theorem attains_ofExcept {x : Except Error α} (ha : ∀ a, x = .ok a → ∀ s, P s → A a s)
    (he : ∀ s, P s → E s) : Attains ι P (ofExcept x) A E := by
  cases x with
  | error e => exact attains_fail he
  | ok a => exact attains_pure (ha a rfl)

theorem Attains.bind {p : Program α} {f : α → Program β} {B : β → σ → Prop}
    (hp : Attains ι P p A E) (hf : ∀ a, Attains ι (A a) (f a) B E) :
    Attains ι P (p >>= f) B E :=
  Ensures.bind hp hf fun _ _ h => h

theorem Attains.storing {p : Program α} (hp : Attains ι P p A E) (logger operation : String)
    (hE : ∀ line s, E s → E (ι s (.record line)).2) :
    Attains ι P (storing logger operation p) A E := by
  refine Ensures.bind (Ensures.attempt hp) (fun x => ?_) ?_
  · rintro s ⟨y, hy, h⟩
    obtain rfl := Except.ok.inj hy
    cases x with
    | ok a => exact h
    | error e =>
      change Attained A E (Program.runBy ι (ite _ _ _) s).1 (Program.runBy ι (ite _ _ _) s).2
      split
      · exact h
      · exact hE _ s h
  · rintro e s ⟨y, hy, -⟩
    cases hy

theorem Attains.locking {p : Program α} (hp : Attains ι P p A E) (name : String)
    (hP : ∀ s, P s → P (ι s (.lock name)).2) (hA : ∀ a s, A a s → A a (ι s (.unlock name)).2)
    (hE : ∀ s, E s → E (ι s (.unlock name)).2) : Attains ι P (locking name p) A E := by
  refine Ensures.bind (Q := fun r s => (∃ u, r = .ok u) ∧ P s)
    (ensures_perform fun s hs => ⟨⟨_, rfl⟩, hP s hs⟩) (fun _ => ?_) (by simp)
  refine Ensures.bind (Ensures.mono (Ensures.attempt hp) (fun s hs => hs.2) fun _ _ => id)
    (fun x => ?_) (by simp)
  refine Ensures.bind (Q := fun r s => (∃ u, r = .ok u) ∧ Attained A E x s)
    (ensures_perform ?_) (fun _ => ensures_ofExcept fun s hs => hs.2) (by simp)
  rintro s ⟨y, hy, h⟩
  obtain rfl := Except.ok.inj hy
  refine ⟨⟨_, rfl⟩, ?_⟩
  cases x with
  | error e => exact hE s h
  | ok a => exact hA a s h

end Attains

/-! What a program upholds when others go on between its accesses. -/

/-- Every access keeps `I`, in whatever state that satisfies `I` it comes, and the outcome
satisfies `R`. -/
def Upholds (ι : Interpreter σ) (I : σ → Prop) (R : Except Error α → Prop) : Program α → Prop
  | .done a => R (.ok a)
  | .fail e => R (.error e)
  | .ask e next => ∀ s, I s → I (ι s e).2 ∧ Upholds ι I R (next (ι s e).1)

/-- The outcome is determined as long as `I` holds. -/
abbrev Settles (ι : Interpreter σ) (I : σ → Prop) (p : Program α) (x : Except Error α) : Prop :=
  p.Upholds ι I (· = x)

abbrev Keeps (ι : Interpreter σ) (I : σ → Prop) (p : Program α) : Prop :=
  p.Upholds ι I fun _ => True

section Upholds

variable {I : σ → Prop} {R R' : Except Error α → Prop}

theorem Upholds.mono {p : Program α} (h : p.Upholds ι I R) (hR : ∀ r, R r → R' r) :
    p.Upholds ι I R' := by
  induction p with
  | done a => exact hR _ h
  | fail e => exact hR _ h
  | ask e next ih => exact fun s hs => ⟨(h s hs).1, ih _ (h s hs).2⟩

theorem Upholds.run {p : Program α} (h : p.Upholds ι I R) {s : σ} (hs : I s) :
    R (p.runBy ι s).1 ∧ I (p.runBy ι s).2 := by
  induction p generalizing s with
  | done a => exact ⟨h, hs⟩
  | fail e => exact ⟨h, hs⟩
  | ask e next ih => exact ih _ (h s hs).2 (h s hs).1

theorem Upholds.ensures {p : Program α} (h : p.Upholds ι I R) :
    Ensures ι I p fun r s => R r ∧ I s :=
  fun _ hs => h.run hs

theorem upholds_ofExcept {x : Except Error α} (h : R x) : (ofExcept x).Upholds ι I R := by
  cases x <;> exact h

theorem upholds_perform {e : Effect} {R : Except Error e.Reply → Prop}
    (h : ∀ s, I s → I (ι s e).2 ∧ R (.ok (ι s e).1)) : (perform e).Upholds ι I R :=
  h

theorem Upholds.bind {p : Program α} {f : α → Program β} {S : Except Error β → Prop}
    (hp : p.Upholds ι I R) (hf : ∀ a, R (.ok a) → (f a).Upholds ι I S)
    (he : ∀ e, R (.error e) → S (.error e)) : (p >>= f).Upholds ι I S := by
  induction p with
  | done a => exact hf a hp
  | fail e => exact he e hp
  | ask e next ih => exact fun s hs => ⟨(hp s hs).1, ih _ (hp s hs).2⟩

theorem Upholds.keeps {p : Program α} (h : p.Upholds ι I R) : Keeps ι I p :=
  h.mono fun _ _ => trivial

theorem Keeps.bind {p : Program α} {f : α → Program β} (hp : Keeps ι I p)
    (hf : ∀ a, Keeps ι I (f a)) : Keeps ι I (p >>= f) :=
  Upholds.bind hp (fun a _ => hf a) fun _ h => h

theorem Upholds.attempt {p : Program α} (h : p.Upholds ι I R) :
    p.attempt.Upholds ι I fun r => ∃ x, r = .ok x ∧ R x := by
  induction p with
  | done a => exact ⟨_, rfl, h⟩
  | fail e => exact ⟨_, rfl, h⟩
  | ask e next ih => exact fun s hs => ⟨(h s hs).1, ih _ (h s hs).2⟩

end Upholds

/-! The combinators, under an invariant that does not look at what quiet accesses change. -/

def Inert (ι : Interpreter σ) (I : σ → Prop) : Prop :=
  ∀ e, e.isQuiet → ∀ s, I s → I (ι s e).2

section Inert

variable {I : σ → Prop} {R : Except Error α → Prop} (hI : Inert ι I)

include hI

theorem upholds_quiet {e : Effect} (he : e.isQuiet) {R : Except Error e.Reply → Prop}
    (h : ∀ r, R (.ok r)) : (perform e).Upholds ι I R :=
  upholds_perform fun s hs => ⟨hI e he s hs, h _⟩

theorem keeps_quiet {e : Effect} (he : e.isQuiet) : Keeps ι I (perform e) :=
  upholds_quiet hI he fun _ => trivial

theorem upholds_log {level : Log.Level} {logger message : String} {fields : Value.Fields}
    {R : Except Error Unit → Prop} (h : R (.ok ())) :
    (log level logger message fields).Upholds ι I R :=
  upholds_quiet hI rfl fun _ => h

theorem Upholds.storing {p : Program α} (h : p.Upholds ι I R) (logger operation : String) :
    (storing logger operation p).Upholds ι I fun r => ∃ x, R x ∧ r = Error.sealing operation x := by
  refine h.attempt.bind ?_ (by simp)
  rintro x ⟨y, hy, hR⟩
  obtain rfl := Except.ok.inj hy
  cases x with
  | ok a => exact ⟨_, hR, rfl⟩
  | error e =>
    change Upholds ι I _ (ite _ _ _)
    by_cases he : e.isOwn
    · rw [if_pos he]
      exact ⟨_, hR, by rw [Error.sealing, if_pos he]⟩
    · rw [if_neg he]
      refine (upholds_log hI (R := (· = .ok ())) rfl).bind (fun _ _ => ?_) (by simp)
      exact ⟨_, hR, by rw [Error.sealing, if_neg he]⟩

theorem Upholds.within {p : Program α} (h : p.Upholds ι I R) (b : Log.Binding) :
    (within b p).Upholds ι I R := by
  refine (upholds_quiet hI (e := .enter b) rfl (R := fun r => ∃ u, r = .ok u)
    fun u => ⟨u, rfl⟩).bind (fun undos _ => ?_) (by simp)
  refine h.attempt.bind ?_ (by simp)
  rintro x ⟨y, hy, hR⟩
  obtain rfl := Except.ok.inj hy
  exact (upholds_quiet hI (e := .leave undos) rfl (R := fun r => ∃ u, r = .ok u)
    fun u => ⟨u, rfl⟩).bind (fun _ _ => upholds_ofExcept hR) (by simp)

theorem upholds_pause {R : Except Error Unit → Prop} (h : R (.ok ())) :
    (perform .pause).Upholds ι I R :=
  upholds_quiet hI rfl fun _ => h

theorem Upholds.both {p : Program α} {q : Program β} {S : Except Error β → Prop}
    (hp : p.Upholds ι I R) (hq : q.Upholds ι I S) :
    (both p q).Upholds ι I fun r =>
      ∃ x y, R x ∧ S y ∧ r = (do return (← x, ← y)) := by
  refine (upholds_pause hI (R := (· = .ok ())) rfl).bind (fun _ _ => ?_) (by simp)
  refine hp.attempt.bind ?_ (by simp)
  rintro x ⟨x', hx, hR⟩
  obtain rfl := Except.ok.inj hx
  refine hq.attempt.bind ?_ (by simp)
  rintro y ⟨y', hy, hS⟩
  obtain rfl := Except.ok.inj hy
  refine (upholds_pause hI (R := (· = .ok ())) rfl).bind (fun _ _ => ?_) (by simp)
  refine (upholds_pause hI (R := (· = .ok ())) rfl).bind (fun _ _ => ?_) (by simp)
  cases x with
  | error e => exact ⟨_, y, hR, hS, rfl⟩
  | ok a => cases y <;> exact ⟨_, _, hR, hS, rfl⟩

end Inert

/-! Programs whose outcome is determined. -/

section Settles

variable {I : σ → Prop}

theorem settles_pure {a : α} : Settles ι I (pure a) (.ok a) :=
  rfl

theorem Settles.ok_bind {p : Program α} {f : α → Program β} {a : α}
    {R : Except Error β → Prop} (hp : Settles ι I p (.ok a)) (hf : (f a).Upholds ι I R) :
    (p >>= f).Upholds ι I R := by
  refine Upholds.bind hp (fun b hb => ?_) (by simp)
  rwa [Except.ok.inj hb]

theorem Settles.error_bind {p : Program α} {e : Error} (hp : Settles ι I p (.error e))
    (f : α → Program β) : Settles ι I (p >>= f) (.error e) := by
  refine Upholds.bind hp (fun b hb => ?_) (fun e' he => ?_)
  · cases hb
  · rw [Except.error.inj he]

theorem Settles.bind {p : Program α} {f : α → Program β} {x : Except Error α}
    {g : α → Except Error β} (hp : Settles ι I p x) (hf : ∀ a, Settles ι I (f a) (g a)) :
    Settles ι I (p >>= f) (x >>= g) := by
  refine Upholds.bind hp (fun a ha => ?_) (fun e he => ?_)
  · exact ha ▸ hf a
  · exact he ▸ rfl

theorem Settles.attempt {p : Program α} {x : Except Error α} (h : Settles ι I p x) :
    Settles ι I p.attempt (.ok x) := by
  refine Upholds.mono (Upholds.attempt h) ?_
  rintro r ⟨y, rfl, rfl⟩
  rfl

theorem settles_ofExcept {x : Except Error α} : Settles ι I (ofExcept x) x :=
  upholds_ofExcept rfl

theorem settles_forM {f : α → Program Unit} {xs : List α}
    (h : ∀ x ∈ xs, Settles ι I (f x) (.ok ())) : Settles ι I (xs.forM f) (.ok ()) := by
  induction xs with
  | nil => exact settles_pure
  | cons x xs ih =>
    exact (h x List.mem_cons_self).ok_bind (ih fun y hy => h y (List.mem_cons_of_mem _ hy))

variable (hI : Inert ι I)

include hI

theorem settles_quiet {e : Effect} (he : e.isQuiet) {a : e.Reply} (h : ∀ r, r = a) :
    Settles ι I (perform e) (.ok a) :=
  upholds_quiet hI he fun r => congrArg _ (h r)

theorem settles_log {level : Log.Level} {logger message : String} {fields : Value.Fields} :
    Settles ι I (log level logger message fields) (.ok ()) :=
  upholds_log hI rfl

theorem Settles.storing {p : Program α} {x : Except Error α} (h : Settles ι I p x)
    (logger operation : String) :
    Settles ι I (storing logger operation p) (Error.sealing operation x) := by
  refine Upholds.mono (Upholds.storing hI h logger operation) ?_
  rintro r ⟨y, rfl, rfl⟩
  rfl

theorem Settles.both {p : Program α} {q : Program β} {x : Except Error α} {y : Except Error β}
    (hp : Settles ι I p x) (hq : Settles ι I q y) :
    Settles ι I (both p q) (do return (← x, ← y)) := by
  refine Upholds.mono (Upholds.both hI hp hq) ?_
  rintro r ⟨_, _, rfl, rfl, rfl⟩
  rfl

end Settles

/-! Programs that bring something, unless they may fail. -/

/-- A value is as it should be, and a failure is possible only where one may occur. -/
def Yielded (mayFail : Prop) (Q : α → Prop) : Except Error α → Prop
  | .ok a => Q a
  | .error _ => mayFail

theorem Yielded.of_not {mayFail : Prop} {Q : α → Prop} {r : Except Error α}
    (h : Yielded mayFail Q r) (hf : ¬ mayFail) : ∃ a, r = .ok a ∧ Q a := by
  cases r with
  | error e => exact absurd h hf
  | ok a => exact ⟨a, rfl, h⟩

abbrev Yields (ι : Interpreter σ) (I : σ → Prop) (mayFail : Prop) (p : Program α)
    (Q : α → Prop) : Prop :=
  p.Upholds ι I (Yielded mayFail Q)

section Yields

variable {I : σ → Prop} {mayFail : Prop} {Q Q' : α → Prop}

theorem Yields.mono {p : Program α} (h : Yields ι I mayFail p Q) (hQ : ∀ a, Q a → Q' a) :
    Yields ι I mayFail p Q' := by
  refine Upholds.mono h fun r hr => ?_
  cases r with
  | error e => exact hr
  | ok a => exact hQ a hr

theorem Yields.bind {p : Program α} {f : α → Program β} {S : β → Prop}
    (hp : Yields ι I mayFail p Q) (hf : ∀ a, Q a → Yields ι I mayFail (f a) S) :
    Yields ι I mayFail (p >>= f) S :=
  Upholds.bind hp hf fun _ h => h

theorem yields_ofExcept {x : Except Error α} (h : Yielded mayFail Q x) :
    Yields ι I mayFail (ofExcept x) Q :=
  upholds_ofExcept h

variable (hI : Inert ι I)

include hI

theorem Yields.storing {p : Program α} (h : Yields ι I mayFail p Q) (logger operation : String) :
    Yields ι I mayFail (storing logger operation p) Q := by
  refine Upholds.mono (Upholds.storing hI h logger operation) ?_
  rintro r ⟨x, hx, rfl⟩
  cases x with
  | ok a => exact hx
  | error e =>
    rw [Error.sealing]
    split <;> exact hx

theorem Yields.both {p : Program α} {q : Program β} {S : β → Prop}
    (hp : Yields ι I mayFail p Q) (hq : Yields ι I mayFail q S) :
    Yields ι I mayFail (both p q) fun (a, b) => Q a ∧ S b := by
  refine Upholds.mono (Upholds.both hI hp hq) ?_
  rintro r ⟨x, y, hx, hy, rfl⟩
  cases x with
  | error e => exact hx
  | ok a =>
    cases y with
    | error e => exact hy
    | ok b => exact ⟨hx, hy⟩

end Yields

end Program

end AccessControl
