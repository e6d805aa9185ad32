import AccessControl.Stateful
import AccessControl.World

/-!
Runs of programs over a state.
-/

namespace AccessControl

theorem Program.run_log (level : Log.Level) (logger message : String) (fields : Value.Fields)
    (w : World) :
    (log level logger message fields).run w =
      (.ok (), (w.answer (.record ⟨level, logger, message, fields⟩)).2) :=
  rfl

section

variable {α β : Type} {p : Program α} {w : World}

theorem Program.run_bind_ok {a : α} (h : (p.run w).1 = .ok a) (f : α → Program β) :
    (p >>= f).run w = (f a).run (p.run w).2 := by
  rw [run_bind]
  rcases hrun : p.run w with ⟨x, v⟩
  rw [hrun] at h
  obtain rfl : x = .ok a := h
  rfl

theorem Program.run_bind_error {e : Error} (h : (p.run w).1 = .error e) (f : α → Program β) :
    (p >>= f).run w = (.error e, (p.run w).2) := by
  rw [run_bind]
  rcases hrun : p.run w with ⟨x, v⟩
  rw [hrun] at h
  obtain rfl : x = .error e := h
  rfl

end

theorem Program.attempt_ofExcept {α : Type} (p : Program α) : p.attempt >>= ofExcept = p := by
  induction p with
  | done a => rfl
  | fail e => rfl
  | ask e next ih => exact congrArg (ask e) (funext ih)

theorem Program.attempt_bind {α β : Type} {f : Except Error α → Program β}
    (hf : ∀ e, f (.error e) = .fail e) (p : Program α) :
    p.attempt >>= f = p >>= fun a => f (.ok a) := by
  induction p with
  | done a => rfl
  | fail e => exact hf e
  | ask e next ih => exact congrArg (ask e) (funext ih)

theorem Program.run_within {α : Type} (b : Log.Binding) (p : Program α) (w : World) :
    (within b p).run w = ((p.run (w.answer (.enter b)).2).1,
      ((p.run (w.answer (.enter b)).2).2.answer (.leave (w.answer (.enter b)).1)).2) := by
  change (p.attempt >>= fun r => _).run (w.answer (.enter b)).2 = _
  rw [run_bind, run_attempt]
  exact run_ofExcept _ _

namespace Stateful

open Program

variable {σ τ α β : Type}

theorem run_bind (p : Stateful σ α) (f : α → Stateful σ β) (s : σ) (w : World) :
    Program.run ((p >>= f) s) w =
      match Program.run (p s) w with
      | (.ok (.ok a, t), v) => Program.run (f a t) v
      | (.ok (.error e, t), v) => (.ok (.error e, t), v)
      | (.error e, v) => (.error e, v) := by
  refine (Program.run_bind (p s) _ w).trans ?_
  rcases Program.run (p s) w with ⟨e | ⟨e | a, t⟩, v⟩ <;> rfl

variable {p : Stateful σ α} {f : α → Stateful σ β} {s t : σ} {v w : World}

theorem run_bind_ok {a : α} (h : Program.run (p s) w = (.ok (.ok a, t), v)) :
    Program.run ((p >>= f) s) w = Program.run (f a t) v := by
  rw [run_bind, h]

theorem run_lift (q : Program α) (s : σ) (w : World) :
    Program.run ((liftM q : Stateful σ α) s) w = (.ok ((q.run w).1, s), (q.run w).2) := by
  refine (Program.run_bind q.attempt _ w).trans ?_
  rw [run_attempt]
  rfl

end Stateful

end AccessControl
