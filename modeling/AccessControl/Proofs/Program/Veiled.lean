import AccessControl.Proofs.Store.Failures

/-!
Programs that seal what fails outside the engine. Two runs in which other failures strike at the
same calls of the store come to the same: they differ in what is logged, and in nothing else.
-/

namespace AccessControl

def Effect.isElsewhere : Effect → Bool
  | .store _ => false
  | _ => true

theorem Effect.isElsewhere_of_isQuiet (e : Effect) (h : e.isQuiet = true) :
    e.isElsewhere = true := by
  cases e <;> first | rfl | cases h

/-- The same world but for what is logged, and for what the failures of the store are. -/
structure World.Masks (v w : World) : Prop where
  same : w = { v with ledger := ⟨v.ledger.tables, w.ledger.faults⟩, journal := w.journal }
  faults : v.ledger.faults.Masks w.ledger.faults

namespace World.Masks

variable {v w : World}

theorem answer (h : v.Masks w) {e : Effect} (he : e.isElsewhere = true) :
    (v.answer e).1 = (w.answer e).1 ∧ (v.answer e).2.Masks (w.answer e).2 := by
  obtain ⟨hsame, hfaults⟩ := h
  rw [hsame] at hfaults ⊢
  cases e with
  | store => cases he
  | _ => exact ⟨rfl, rfl, hfaults⟩

theorem record (h : v.Masks w) (line line' : Log.Line) :
    (v.answer (.record line)).2.Masks (w.answer (.record line')).2 := by
  obtain ⟨hsame, hfaults⟩ := h
  rw [hsame] at hfaults ⊢
  exact ⟨rfl, hfaults⟩

theorem store (h : v.Masks w) (c : Store.Call) :
    Error.Hidden (fun _ => False) (v.answer (.store c)).1 (w.answer (.store c)).1 ∧
      (v.answer (.store c)).2.Masks (w.answer (.store c)).2 := by
  obtain ⟨hsame, hfaults⟩ := h
  rw [hsame] at hfaults ⊢
  obtain ⟨hreply, htables, hleft⟩ := Store.Ledger.call_masks (t := v.ledger.tables) hfaults c
  have hledger : ((⟨v.ledger.tables, w.ledger.faults⟩ : Store.Ledger).call c).2 =
      ⟨(v.ledger.call c).2.tables,
        ((⟨v.ledger.tables, w.ledger.faults⟩ : Store.Ledger).call c).2.faults⟩ := by
    rw [htables]
  exact ⟨hreply, congrArg (fun ledger => { v with ledger, journal := w.journal }) hledger, hleft⟩

end World.Masks

namespace Program

variable {α β γ δ : Type}

/-- Two programs that make the same accesses and go on alike, also after failures of the store from
outside. They may log different lines. -/
inductive Veiled {α β : Type} (R : Except Error α → Except Error β → Prop) :
    Program α → Program β → Prop where
  | done {a : α} {b : β} (h : R (.ok a) (.ok b)) : Veiled R (.done a) (.done b)
  | fail {e e' : Error} (h : R (.error e) (.error e')) : Veiled R (.fail e) (.fail e')
  | ask {e : Effect} {next : e.Reply → Program α} {next' : e.Reply → Program β}
    (he : e.isElsewhere = true) (h : ∀ r, Veiled R (next r) (next' r)) :
    Veiled R (.ask e next) (.ask e next')
  | store {c : Store.Call} {next : Except Error c.Reply → Program α}
    {next' : Except Error c.Reply → Program β}
    (h : ∀ r r', Error.Hidden (fun _ => False) r r' → Veiled R (next r) (next' r')) :
    Veiled R (.ask (.store c) next) (.ask (.store c) next')
  | record {line line' : Log.Line} {next : Unit → Program α} {next' : Unit → Program β}
    (h : Veiled R (next ()) (next' ())) :
    Veiled R (.ask (.record line) next) (.ask (.record line') next')

variable {R : Except Error α → Except Error β → Prop} {S : Except Error γ → Except Error δ → Prop}
  {p : Program α} {p' : Program β}

theorem Veiled.run (h : Veiled R p p') {v w : World} (hvw : v.Masks w) :
    R (p.run v).1 (p'.run w).1 := by
  induction h generalizing v w with
  | done h => exact h
  | fail h => exact h
  | @ask e next next' he _ ih =>
    obtain ⟨hreply, hafter⟩ := hvw.answer he
    rw [Program.run, Program.run, hreply]
    exact ih _ hafter
  | store _ ih =>
    obtain ⟨hreply, hafter⟩ := hvw.store _
    exact ih _ _ hreply hafter
  | record _ ih => exact ih (hvw.record _ _)

theorem Veiled.upholds {σ : Type} {ι : Interpreter σ} {I : σ → Prop}
    {Q : Except Error α → Prop} (hstore : ∀ c s, I s →
      Error.Hidden (fun _ => False) (ι s (.store c)).1 (ι s (.store c)).1)
    (h : Veiled R p p') (hp : p.Upholds ι I Q) :
    p.Upholds ι I fun r => Q r ∧ ∃ r', R r r' := by
  induction h with
  | done h => exact ⟨hp, _, h⟩
  | fail h => exact ⟨hp, _, h⟩
  | ask _ _ ih => exact fun s hs => ⟨(hp s hs).1, ih _ (hp s hs).2⟩
  | store _ ih => exact fun s hs => ⟨(hp s hs).1, ih _ _ (hstore _ s hs) (hp s hs).2⟩
  | record _ ih => exact fun s hs => ⟨(hp s hs).1, ih (hp s hs).2⟩

theorem Veiled.mono {R' : Except Error α → Except Error β → Prop} (h : Veiled R p p')
    (hR : ∀ r r', R r r' → R' r r') : Veiled R' p p' := by
  induction h with
  | done h => exact .done (hR _ _ h)
  | fail h => exact .fail (hR _ _ h)
  | ask he _ ih => exact .ask he ih
  | store _ ih => exact .store ih
  | record _ ih => exact .record ih

theorem Veiled.bind {f : α → Program γ} {f' : β → Program δ} (hp : Veiled R p p')
    (hf : ∀ a b, R (.ok a) (.ok b) → Veiled S (f a) (f' b))
    (he : ∀ e e', R (.error e) (.error e') → S (.error e) (.error e')) :
    Veiled S (p >>= f) (p' >>= f') := by
  induction hp with
  | done h => exact hf _ _ h
  | fail h => exact .fail (he _ _ h)
  | ask he _ ih => exact .ask he ih
  | store _ ih => exact .store ih
  | record _ ih => exact .record ih

inductive Attempted (R : Except Error α → Except Error β → Prop) :
    Except Error (Except Error α) → Except Error (Except Error β) → Prop where
  | value {a : α} {b : β} (h : R (.ok a) (.ok b)) : Attempted R (.ok (.ok a)) (.ok (.ok b))
  | failure {e e' : Error} (h : R (.error e) (.error e')) :
    Attempted R (.ok (.error e)) (.ok (.error e'))

theorem Veiled.attempt (h : Veiled R p p') : Veiled (Attempted R) p.attempt p'.attempt := by
  induction h with
  | done h => exact .done (.value h)
  | fail h => exact .done (.failure h)
  | ask he _ ih => exact .ask he ih
  | store _ ih => exact .store ih
  | record _ ih => exact .record ih

theorem Veiled.attempt_bind {f : Except Error α → Program γ} {f' : Except Error β → Program δ}
    (hp : Veiled R p p') (hok : ∀ a b, R (.ok a) (.ok b) → Veiled S (f (.ok a)) (f' (.ok b)))
    (herror : ∀ e e', R (.error e) (.error e') → Veiled S (f (.error e)) (f' (.error e'))) :
    Veiled S (p.attempt >>= f) (p'.attempt >>= f') := by
  refine hp.attempt.bind (fun x y h => ?_) fun e e' h => nomatch h
  cases h with
  | value h => exact hok _ _ h
  | failure h => exact herror _ _ h

theorem Veiled.within (h : Veiled R p p') (b : Log.Binding) :
    Veiled R (within b p) (within b p') :=
  .ask rfl fun _ => h.attempt_bind (fun _ _ h => .ask rfl fun _ => .done h)
    fun _ _ h => .ask rfl fun _ => .fail h

/-! Outcomes that are shown, and such that are still hidden. -/

section Shown

open Error (Shown Hidden)

variable {kind : Error → Prop} {p p' : Program α} {q q' : Program β}

theorem veiled_ofExcept {r r' : Except Error α} (h : Hidden kind r r') :
    Veiled (Hidden kind) (ofExcept r) (ofExcept r') := by
  cases h with
  | shown h =>
    cases h with
    | value a => exact .done (.shown (.value a))
    | error h => exact .fail (.shown (.error h))
  | outside h h' => exact .fail (.outside h h')

theorem veiled_call (c : Store.Call) : Veiled (Hidden kind) (call c) (call c) :=
  .store fun _ _ h => veiled_ofExcept (h.mono fun _ => False.elim)

theorem Veiled.hidden (h : Veiled (Shown kind) p p') : Veiled (Hidden kind) p p' :=
  h.mono fun _ _ => .shown

theorem Veiled.shown_bind {f f' : α → Program β} (hp : Veiled (Shown kind) p p')
    (hf : ∀ a, Veiled (Shown kind) (f a) (f' a)) : Veiled (Shown kind) (p >>= f) (p' >>= f') := by
  refine hp.bind (fun a b h => ?_) fun e e' h => ?_
  · cases h
    exact hf a
  · cases h with
    | error h => exact .error h

theorem veiled_perform {e : Effect} (he : e.isElsewhere = true) :
    Veiled (Shown kind) (perform e) (perform e) :=
  .ask he fun r => .done (.value r)

theorem veiled_shown {r : Except Error α} (h : ∀ e, r = .error e → kind e) :
    Veiled (Shown kind) (ofExcept r) (ofExcept r) := by
  cases r with
  | ok a => exact .done (.value a)
  | error e => exact .fail (.error (h e rfl))

theorem veiled_forM {f : α → Program Unit} (h : ∀ x, Veiled (Shown kind) (f x) (f x))
    (xs : List α) : Veiled (Shown kind) (xs.forM f) (xs.forM f) := by
  induction xs with
  | nil => exact .done (.value ())
  | cons x xs ih => exact (h x).shown_bind fun _ => ih

theorem Veiled.storing (h : Veiled (Hidden kind) p p') (logger : String) {operation : String}
    (hkind : kind (.storage operation)) :
    Veiled (Shown kind) (storing logger operation p) (storing logger operation p') := by
  refine h.attempt_bind (fun a b h => ?_) fun e e' h => ?_
  · cases h with
    | shown h =>
      cases h
      exact .done (.value a)
  · cases h with
    | shown h =>
      cases h with
      | error h =>
        change Veiled _ (ite _ _ _) (ite _ _ _)
        split
        · exact .fail (.error h)
        · exact .record (.fail (.error hkind))
    | outside he he' =>
      change Veiled _ (ite _ _ _) (ite _ _ _)
      rw [he, he']
      exact .record (.fail (.error hkind))

theorem Veiled.both (hp : Veiled (Hidden kind) p p') (hq : Veiled (Hidden kind) q q') :
    Veiled (Hidden kind) (both p q) (both p' q') := by
  -- the first failure counts; if it is hidden in one run, it is hidden in the other
  have hcollect {x x' : Except Error α} {y y' : Except Error β} (hx : Hidden kind x x')
      (hy : Hidden kind y y') : Veiled (Hidden kind)
        (do
          perform .pause
          perform .pause
          return (← ofExcept x, ← ofExcept y))
        (do
          perform .pause
          perform .pause
          return (← ofExcept x', ← ofExcept y')) := by
    refine .ask rfl fun _ => .ask rfl fun _ => ?_
    refine (veiled_ofExcept hx).bind (fun a a' ha => ?_) fun _ _ he => ?_
    · refine (veiled_ofExcept hy).bind (fun b b' hb => ?_) fun _ _ he => ?_
      · cases ha with
        | shown ha =>
          cases ha
          cases hb with
          | shown hb =>
            cases hb
            exact .done (.shown (.value _))
      · exact he.error
    · exact he.error
  refine .ask rfl fun _ => ?_
  refine hp.attempt_bind (fun a a' hx => ?_) fun e e' hx => ?_
  · exact hq.attempt_bind (fun _ _ hy => hcollect hx hy) fun _ _ hy => hcollect hx hy
  · exact hq.attempt_bind (fun _ _ hy => hcollect hx hy) fun _ _ hy => hcollect hx hy

end Shown

end Program

end AccessControl
