import AccessControl.Proofs.Program.Outcomes

/-!
How often a program gives its turn away: a bound that holds whatever the replies are. A program that
is run turn by turn ends after so many turns and one more.
-/

namespace AccessControl

namespace Program

variable {α β : Type}

/-- A program pauses at most so many times. -/
inductive Pauses {α : Type} : Nat → Program α → Prop where
  | done {n : Nat} (a : α) : Pauses n (.done a)
  | fail {n : Nat} (e : Error) : Pauses n (.fail e)
  | pause {n : Nat} {next : Unit → Program α} (h : Pauses n (next ())) :
    Pauses (n + 1) (.ask .pause next)
  | ask {n : Nat} {e : Effect} {next : e.Reply → Program α} (he : e ≠ .pause)
    (h : ∀ r, Pauses n (next r)) : Pauses n (.ask e next)

theorem Pauses.mono {p : Program α} {m n : Nat} (h : Pauses m p) (hmn : m ≤ n) : Pauses n p := by
  induction h generalizing n with
  | done a => exact .done a
  | fail e => exact .fail e
  | pause _ ih =>
    obtain ⟨n, rfl⟩ : ∃ k, n = k + 1 := ⟨n - 1, by omega⟩
    exact .pause (ih (by omega))
  | ask he _ ih => exact .ask he fun r => ih r hmn

theorem pauses_perform {e : Effect} (he : e ≠ .pause) : Pauses 0 (perform e) :=
  .ask he fun r => .done r

theorem pauses_ofExcept (x : Except Error α) : Pauses 0 (ofExcept x) := by
  cases x with
  | ok a => exact .done a
  | error e => exact .fail e

theorem Pauses.bind {p : Program α} {f : α → Program β} {m n : Nat} (hp : Pauses m p)
    (hf : ∀ a, Pauses n (f a)) : Pauses (m + n) (p >>= f) := by
  induction hp with
  | done a => exact (hf a).mono (Nat.le_add_left ..)
  | fail e => exact .fail e
  | @pause m next _ ih =>
    rw [Nat.add_right_comm]
    exact .pause ih
  | ask he _ ih => exact .ask he ih

theorem Pauses.then {p : Program α} {f : α → Program β} {n : Nat} (hp : Pauses 0 p)
    (hf : ∀ a, Pauses n (f a)) : Pauses n (p >>= f) := by
  have h := hp.bind hf
  rwa [Nat.zero_add] at h

theorem Pauses.attempt {p : Program α} {n : Nat} (hp : Pauses n p) : Pauses n p.attempt := by
  induction hp with
  | done a => exact .done _
  | fail e => exact .done _
  | pause _ ih => exact .pause ih
  | ask he _ ih => exact .ask he ih

theorem pauses_log {level : Log.Level} {logger message : String} {fields : Value.Fields} :
    Pauses 0 (log level logger message fields) :=
  pauses_perform (by simp)

theorem pauses_call (c : Store.Call) : Pauses 0 (call c) :=
  (pauses_perform (by simp)).then fun _ => pauses_ofExcept _

theorem pauses_forM {f : α → Program Unit} {xs : List α} (h : ∀ x, Pauses 0 (f x)) :
    Pauses 0 (xs.forM f) := by
  induction xs with
  | nil => exact .done ()
  | cons x xs ih => exact (h x).then fun _ => ih

theorem Pauses.storing {p : Program α} {n : Nat} (hp : Pauses n p) (logger operation : String) :
    Pauses n (storing logger operation p) := by
  refine hp.attempt.bind (n := 0) fun x => ?_
  cases x with
  | ok a => exact .done a
  | error e =>
    change Pauses 0 (ite _ _ _)
    split
    · exact .fail e
    · exact pauses_log.then fun _ => .fail _

theorem Pauses.both {p : Program α} {q : Program β} {m n : Nat} (hp : Pauses m p)
    (hq : Pauses n q) : Pauses (m + n + 3) (both p q) := by
  have hcollect (x : Except Error α) (y : Except Error β) : Pauses 2 (do
      perform .pause
      perform .pause
      return (← ofExcept x, ← ofExcept y)) :=
    .pause (.pause ((pauses_ofExcept x).then fun a => (pauses_ofExcept y).then fun b => .done (a, b)))
  refine .pause (Pauses.mono (m := m + (n + 2)) ?_ (by omega))
  exact hp.attempt.bind fun x => hq.attempt.bind fun y => hcollect x y

theorem Pauses.turn {p : Program α} {n : Nat} (hp : Pauses n p) :
    p.turn.Returns fun progress =>
      ∀ rest, progress = .paused rest → ∃ m, m < n ∧ Pauses m rest := by
  induction hp with
  | done a => exact fun _ h => nomatch h
  | fail e => exact fun _ h => nomatch h
  | @pause n next hn _ =>
    rintro _ ⟨⟩
    exact ⟨n, Nat.lt_succ_self n, hn⟩
  | @ask n e next he _ ih =>
    cases e with
    | pause => exact absurd rfl he
    | _ => exact ih

def Reaches {σ : Type} (ι : Interpreter σ) (I : σ → Prop) (R : Except Error α → Prop) :
    Progress α → Prop
  | .paused rest => rest.Upholds ι I R
  | .ended x => R x

theorem Upholds.turn {σ : Type} {ι : Interpreter σ} {I : σ → Prop} {R : Except Error α → Prop}
    {p : Program α} (hp : p.Upholds ι I R) (hne : ∃ s, I s) :
    Yields ι I False p.turn (Reaches ι I R) := by
  induction p with
  | done a => exact hp
  | fail e => exact hp
  | ask e next ih =>
    cases e with
    | pause =>
      obtain ⟨s, hs⟩ := hne
      exact (hp s hs).2
    | _ => exact fun s hs => ⟨(hp s hs).1, ih _ (hp s hs).2⟩

end Program

end AccessControl
