import AccessControl.Cache.Grants
import AccessControl.Proofs.Program.Interpretation

/-!
What a program asks for. A program whose accesses are all of a kind comes to the same outcome in
all worlds that answer accesses of this kind alike.
-/

namespace AccessControl

namespace Program

variable {α β : Type}

/-- Every access of a program is of a kind, whatever the replies are. -/
def Only (kind : Effect → Bool) : Program α → Prop
  | .done _ => True
  | .fail _ => True
  | .ask e next => kind e = true ∧ ∀ r, Only kind (next r)

variable {kind : Effect → Bool}

theorem Only.mono {kind' : Effect → Bool} (h : ∀ e, kind e = true → kind' e = true)
    {p : Program α} (hp : Only kind p) : Only kind' p := by
  induction p with
  | done | fail => trivial
  | ask e next ih => exact ⟨h e hp.1, fun r => ih r (hp.2 r)⟩

theorem only_pure (a : α) : Only kind (pure a) :=
  trivial

theorem only_ofExcept (x : Except Error α) : Only kind (ofExcept x) := by
  cases x <;> trivial

theorem only_perform {e : Effect} (h : kind e = true) : Only kind (perform e) :=
  ⟨h, fun _ => trivial⟩

theorem Only.bind {p : Program α} {f : α → Program β} (hp : Only kind p)
    (hf : ∀ a, Only kind (f a)) : Only kind (p >>= f) := by
  induction p with
  | done a => exact hf a
  | fail e => trivial
  | ask e next ih => exact ⟨hp.1, fun r => ih r (hp.2 r)⟩

theorem Only.attempt {p : Program α} (hp : Only kind p) : Only kind p.attempt := by
  induction p with
  | done a => trivial
  | fail e => trivial
  | ask e next ih => exact ⟨hp.1, fun r => ih r (hp.2 r)⟩

theorem only_forM {f : α → Program Unit} {xs : List α} (h : ∀ x, Only kind (f x)) :
    Only kind (xs.forM f) := by
  induction xs with
  | nil => trivial
  | cons x xs ih => exact (h x).bind fun _ => ih

theorem only_call {c : Store.Call} (h : kind (.store c) = true) : Only kind (call c) :=
  (only_perform h).bind fun _ => only_ofExcept _

theorem only_log {level : Log.Level} {logger message : String} {fields : Value.Fields}
    (h : kind (.record ⟨level, logger, message, fields⟩) = true) :
    Only kind (log level logger message fields) :=
  only_perform h

theorem Only.storing {p : Program α} (hp : Only kind p) {logger : String}
    (h : ∀ message fields, kind (.record ⟨.error, logger, message, fields⟩) = true)
    (operation : String) : Only kind (storing logger operation p) := by
  refine hp.attempt.bind fun x => ?_
  cases x with
  | ok a => exact only_pure a
  | error e =>
    change Only kind (ite _ _ _)
    split
    · trivial
    · exact (only_log (h _ _)).bind fun _ => trivial

theorem Only.locking {p : Program α} (hp : Only kind p) {name : String}
    (hlock : kind (.lock name) = true) (hunlock : kind (.unlock name) = true) :
    Only kind (locking name p) :=
  (only_perform hlock).bind fun _ => hp.attempt.bind fun _ =>
    (only_perform hunlock).bind fun _ => only_ofExcept _

theorem Only.both {p : Program α} {q : Program β} (hp : Only kind p) (hq : Only kind q)
    (h : kind .pause = true) : Only kind (both p q) := by
  refine (only_perform h).bind fun _ => hp.attempt.bind fun x => hq.attempt.bind fun y => ?_
  refine (only_perform h).bind fun _ => (only_perform h).bind fun _ => ?_
  exact (only_ofExcept x).bind fun a => (only_ofExcept y).bind fun b => only_pure (a, b)

theorem Only.keeps {σ : Type} {ι : Interpreter σ} {I : σ → Prop}
    (hI : ∀ e, kind e = true → ∀ s, I s → I (ι s e).2) {p : Program α} (hp : Only kind p) :
    Keeps ι I p := by
  induction p with
  | done | fail => trivial
  | ask e next ih => exact fun s hs => ⟨hI e hp.1 s hs, ih _ (hp.2 _)⟩

theorem Only.run_eq {R : World → World → Prop}
    (hR : ∀ e, kind e = true → ∀ v w, R v w →
      (v.answer e).1 = (w.answer e).1 ∧ R (v.answer e).2 (w.answer e).2)
    {p : Program α} (hp : Only kind p) {v w : World} (h : R v w) :
    (p.run v).1 = (p.run w).1 := by
  induction p generalizing v w with
  | done a => rfl
  | fail e => rfl
  | ask e next ih =>
    obtain ⟨hreply, hafter⟩ := hR e hp.1 v w h
    rw [run, run, hreply]
    exact ih _ (hp.2 _) hafter

def trace : Program α → World → List Effect
  | .done _, _ => []
  | .fail _, _ => []
  | .ask e next, w => e :: (next (w.answer e).1).trace (w.answer e).2

theorem trace_bind (p : Program α) (f : α → Program β) (w : World) :
    (p >>= f).trace w = p.trace w ++
      match p.run w with
      | (.ok a, v) => (f a).trace v
      | (.error _, _) => [] := by
  induction p generalizing w with
  | done a => rfl
  | fail e => rfl
  | ask e next ih => exact congrArg (e :: ·) (ih (w.answer e).1 (w.answer e).2)

theorem trace_bind_ok {p : Program α} {w : World} {a : α} (h : (p.run w).1 = .ok a)
    (f : α → Program β) : (p >>= f).trace w = p.trace w ++ (f a).trace (p.run w).2 := by
  rw [trace_bind]
  rcases hrun : p.run w with ⟨x, v⟩
  rw [hrun] at h
  obtain rfl : x = .ok a := h
  rfl

theorem trace_bind_error {p : Program α} {w : World} {e : Error} (h : (p.run w).1 = .error e)
    (f : α → Program β) : (p >>= f).trace w = p.trace w := by
  rw [trace_bind]
  rcases hrun : p.run w with ⟨x, v⟩
  rw [hrun] at h
  obtain rfl : x = .error e := h
  exact List.append_nil _

theorem trace_attempt (p : Program α) (w : World) : p.attempt.trace w = p.trace w := by
  induction p generalizing w with
  | done a => rfl
  | fail e => rfl
  | ask e next ih => exact congrArg (e :: ·) (ih (w.answer e).1 (w.answer e).2)

theorem trace_within (b : Log.Binding) (p : Program α) (w : World) :
    (within b p).trace w =
      .enter b :: (p.trace (w.answer (.enter b)).2 ++ [.leave (w.answer (.enter b)).1]) := by
  change _ :: (p.attempt >>= fun r => _).trace (w.answer (.enter b)).2 = _
  rw [trace_bind, trace_attempt, run_attempt]
  generalize (p.run (w.answer (.enter b)).2).1 = r
  cases r <;> rfl

theorem Only.mem_trace {p : Program α} (hp : Only kind p) {w : World} {e : Effect}
    (he : e ∈ p.trace w) : kind e = true := by
  induction p generalizing w with
  | done | fail => cases he
  | ask e' next ih =>
    rcases List.mem_cons.1 he with rfl | he
    · exact hp.1
    · exact ih _ (hp.2 _) he

theorem Only.trace_eq {R : World → World → Prop}
    (hR : ∀ e, kind e = true → ∀ v w, R v w →
      (v.answer e).1 = (w.answer e).1 ∧ R (v.answer e).2 (w.answer e).2)
    {p : Program α} (hp : Only kind p) {v w : World} (h : R v w) :
    p.trace v = p.trace w := by
  induction p generalizing v w with
  | done | fail => rfl
  | ask e next ih =>
    obtain ⟨hreply, hafter⟩ := hR e hp.1 v w h
    rw [trace, trace, hreply, ih _ (hp.2 _) hafter]

end Program

open Program in
theorem GrantCache.only_succeeded {kind : Effect → Bool} {c : Cache.Command} {tally : Cache.Tally}
    {message : String} {fields : Value.Fields} (hask : kind (.cache c) = true)
    (htally : kind (.tally tally) = true)
    (hlog : ∀ fields, kind (.record ⟨.error, logger, message, fields⟩) = true) :
    Only kind (succeeded c tally message fields) := by
  refine (only_perform hask).bind fun x => ?_
  cases x with
  | error e => exact (only_log (hlog _)).bind fun _ => only_pure false
  | ok r => exact (only_perform htally).bind fun _ => only_pure true

end AccessControl
