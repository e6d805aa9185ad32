import AccessControl.Concurrent
import Mathlib.Data.List.Induction
import Mathlib.Logic.Relation

/-!
Programs that are under way together: what they have asked for so far, and when all of them end.
-/

namespace AccessControl

variable {α : Type}

/-- An access of one of the tasks that are under way together, and the reply to it. -/
structure Access where
  task : Nat
  effect : Effect
  reply : effect.Reply

theorem World.admits_congr {v w : World} (h : v.locked = w.locked) (e : Effect) :
    v.admits e = w.admits e := by
  cases e <;> simp only [admits, h]

namespace Concurrent

inductive Move where
  /-- A task has its turn. -/
  | turn (n : Nat)
  | tick (now : Instant)

/-- The access of a task at its turn. There is none when the task has ended or has to wait. -/
def access? (c : Concurrent α) (n : Nat) : Option Access :=
  match c.tasks[n]? with
  | none => none
  | some t =>
    match t.rest with
    | .ask e _ =>
      if c.world.admits e then
        some ⟨n, e, ({ c.world with correlation := t.correlation }.answer e).1⟩
      else none
    | _ => none

def went (c : Concurrent α) (n : Nat) (t : Task α) (e : Effect) (next : e.Reply → Program α) :
    Concurrent α :=
  let (r, after) := { c.world with correlation := t.correlation }.answer e
  ⟨{ after with correlation := c.world.correlation }, c.tasks.set n ⟨next r, after.correlation⟩⟩

theorem exists_of_access? {c : Concurrent α} {n : Nat} {a : Access} (h : c.access? n = some a) :
    ∃ t e next, c.tasks[n]? = some t ∧ t.rest = .ask e next ∧ c.world.admits e = true ∧
      a = ⟨n, e, ({ c.world with correlation := t.correlation }.answer e).1⟩ ∧
        c.step n = c.went n t e next := by
  unfold access? at h
  cases htask : c.tasks[n]? with
  | none => simp [htask] at h
  | some t =>
    obtain ⟨rest, correlation⟩ := t
    cases rest with
    | done a => simp [htask] at h
    | fail e => simp [htask] at h
    | ask e next =>
      simp only [htask, Option.ite_none_right_eq_some, Option.some.injEq] at h
      obtain ⟨hadmits, rfl⟩ := h
      refine ⟨_, e, next, rfl, rfl, hadmits, rfl, ?_⟩
      simp [step, Task.step, htask, hadmits, went]

theorem access?_eq_some {c : Concurrent α} {n : Nat} {t : Task α} {e : Effect}
    {next : e.Reply → Program α} (htask : c.tasks[n]? = some t) (hrest : t.rest = .ask e next)
    (hadmits : c.world.admits e = true) :
    c.access? n = some ⟨n, e, ({ c.world with correlation := t.correlation }.answer e).1⟩ := by
  simp [access?, htask, hrest, hadmits]

theorem step_eq_self {c : Concurrent α} {n : Nat} (h : c.access? n = none) : c.step n = c := by
  unfold step
  cases htask : c.tasks[n]? with
  | none => rfl
  | some t =>
    have hset : c.tasks.set n t = c.tasks := by
      obtain ⟨hn, rfl⟩ := List.getElem?_eq_some_iff.mp htask
      exact List.set_getElem_self hn
    obtain ⟨rest, correlation⟩ := t
    cases rest with
    | done a => simp [Task.step, hset]
    | fail e => simp [Task.step, hset]
    | ask e next =>
      have hwait : ¬ c.world.admits e = true := by
        intro hadmits
        rw [access?_eq_some htask rfl hadmits] at h
        cases h
      simp [Task.step, hwait, hset]

structure Watched (α : Type) where
  state : Concurrent α
  history : List Access

namespace Watched

def make (x : Watched α) : Move → Watched α
  | .turn n => ⟨x.state.step n, x.history ++ (x.state.access? n).toList⟩
  | .tick now => ⟨⟨{ x.state.world with clock := now }, x.state.tasks⟩, x.history⟩

/-- At a move time goes on, or one access is answered, or a task waits. -/
inductive Goes (x : Watched α) : Move → Watched α → Prop where
  | tick (now : Instant) :
    x.Goes (.tick now) ⟨⟨{ x.state.world with clock := now }, x.state.tasks⟩, x.history⟩
  | wait {n : Nat} (h : x.state.access? n = none) : x.Goes (.turn n) x
  | access {n : Nat} {t : Task α} {e : Effect} {next : e.Reply → Program α}
    (htask : x.state.tasks[n]? = some t) (hrest : t.rest = .ask e next)
    (hadmits : x.state.world.admits e = true) :
    x.Goes (.turn n) ⟨x.state.went n t e next, x.history ++
      [⟨n, e, ({ x.state.world with correlation := t.correlation }.answer e).1⟩]⟩

theorem goes_make (x : Watched α) (move : Move) : x.Goes move (x.make move) := by
  cases move with
  | tick now => exact .tick now
  | turn n =>
    change x.Goes _ ⟨x.state.step n, x.history ++ (x.state.access? n).toList⟩
    cases h : x.state.access? n with
    | none =>
      rw [step_eq_self h, Option.toList_none, List.append_nil]
      exact .wait h
    | some a =>
      obtain ⟨t, e, next, htask, hrest, hadmits, rfl, hstep⟩ := exists_of_access? h
      rw [hstep]
      exact .access htask hrest hadmits

end Watched

def watch (c : Concurrent α) (moves : List Move) : Watched α :=
  moves.foldl Watched.make ⟨c, []⟩

theorem watch_turns (c : Concurrent α) (turns : List Nat) :
    (c.watch (turns.map .turn)).state = c.run turns := by
  have hrun (x : Watched α) :
      ((turns.map Move.turn).foldl Watched.make x).state = x.state.run turns := by
    induction turns generalizing x with
    | nil => rfl
    | cons n turns ih => exact ih (x.make (.turn n))
  exact hrun ⟨c, []⟩

theorem watch_concat (c : Concurrent α) (moves : List Move) (move : Move) :
    c.watch (moves ++ [move]) = (c.watch moves).make move :=
  List.foldl_append

theorem watch_induction_of {c : Concurrent α} {I : Watched α → Prop} {P : Move → Prop}
    (hstart : I ⟨c, []⟩) (hgoes : ∀ x move y, P move → I x → x.Goes move y → I y)
    {moves : List Move} (hmoves : ∀ move ∈ moves, P move) : I (c.watch moves) := by
  induction moves using List.reverseRecOn with
  | nil => exact hstart
  | append_singleton moves move ih =>
    rw [watch_concat]
    have hmove := hmoves move (List.mem_append_right _ List.mem_cons_self)
    exact hgoes _ _ _ hmove (ih fun m hm => hmoves m (List.mem_append_left _ hm))
      (Watched.goes_make _ move)

/-- What holds at first, and after every move that is made while it holds, holds at every moment. -/
theorem watch_induction {c : Concurrent α} {I : Watched α → Prop} (hstart : I ⟨c, []⟩)
    (hgoes : ∀ x move y, I x → x.Goes move y → I y) (moves : List Move) : I (c.watch moves) :=
  watch_induction_of (P := fun _ => True) hstart (fun x move y _ => hgoes x move y)
    fun _ _ => trivial

theorem exists_history_append (c : Concurrent α) (moves more : List Move) :
    ∃ news, (c.watch (moves ++ more)).history = (c.watch moves).history ++ news := by
  induction more using List.reverseRecOn with
  | nil =>
    rw [List.append_nil]
    exact ⟨[], (List.append_nil _).symm⟩
  | append_singleton more move ih =>
    obtain ⟨news, hnews⟩ := ih
    rw [← List.append_assoc, watch_concat]
    cases move with
    | tick now => exact ⟨news, hnews⟩
    | turn n =>
      refine ⟨news ++ ((c.watch (moves ++ more)).state.access? n).toList, ?_⟩
      rw [← List.append_assoc, ← hnews]
      rfl

/-! Every program comes to its end when it has its turns. -/

def programs (c : Concurrent α) : List (Program α) :=
  c.tasks.map Task.rest

inductive Later : List (Program α) → List (Program α) → Prop where
  | access {ps : List (Program α)} {n : Nat} {e : Effect} {next : e.Reply → Program α}
    (h : ps[n]? = some (.ask e next)) (r : e.Reply) : Later (ps.set n (next r)) ps

theorem Later.of_cons {p : Program α} {ps qs : List (Program α)} (h : Later qs (p :: ps)) :
    (∃ e next r, p = .ask e next ∧ qs = next r :: ps) ∨ ∃ rest, Later rest ps ∧ qs = p :: rest := by
  generalize hqs : p :: ps = whole at h
  cases h with
  | @access _ n e next hn r =>
    subst hqs
    cases n with
    | zero => exact .inl ⟨e, next, r, Option.some.inj hn, rfl⟩
    | succ n =>
      have hrest : ps[n]? = some (.ask e next) := hn
      exact .inr ⟨_, .access hrest r, rfl⟩

theorem acc_cons {ps : List (Program α)} (hps : Acc Later ps) (p : Program α) :
    Acc Later (p :: ps) := by
  -- on the other programs, and for each of their steps on the first program
  induction hps generalizing p with
  | intro ps _ ih =>
    induction p with
    | done | fail =>
      constructor
      intro qs h
      obtain ⟨_, _, _, hp, -⟩ | ⟨rest, hrest, rfl⟩ := h.of_cons
      · cases hp
      · exact ih rest hrest _
    | ask e next ihp =>
      constructor
      intro qs h
      obtain ⟨_, _, r, hp, rfl⟩ | ⟨rest, hrest, rfl⟩ := h.of_cons
      · cases hp
        exact ihp r
      · exact ih rest hrest _

theorem wellFounded_later :
    WellFounded (Later : List (Program α) → List (Program α) → Prop) := by
  constructor
  intro ps
  induction ps with
  | nil =>
    constructor
    intro qs h
    cases h with
    | access hn => cases hn
  | cons p ps ih => exact acc_cons ih p

def after (c : Concurrent α) (moves : Nat → Move) (k : Nat) : Watched α :=
  c.watch ((List.range k).map moves)

/-- Every one of the tasks has its turn again and again. -/
def IsFair (count : Nat) (moves : Nat → Move) : Prop :=
  ∀ n < count, ∀ k, ∃ m, k ≤ m ∧ moves m = .turn n

def IsOver (c : Concurrent α) : Prop :=
  ∀ t ∈ c.tasks, t.outcome?.isSome

/-- If not all tasks have ended, one of them can go on. -/
def IsLive (c : Concurrent α) : Prop :=
  c.IsOver ∨ ∃ n, (c.access? n).isSome

section Fair

variable {c : Concurrent α} {moves : Nat → Move}

theorem after_succ (k : Nat) : c.after moves (k + 1) = (c.after moves k).make (moves k) := by
  unfold after
  rw [List.range_succ, List.map_append, List.map_singleton, watch_concat]

theorem length_tasks_step (c : Concurrent α) (n : Nat) : (c.step n).tasks.length = c.tasks.length := by
  unfold step
  cases c.tasks[n]? with
  | none => rfl
  | some t => exact List.length_set

theorem length_tasks_after (c : Concurrent α) (moves : Nat → Move) (k : Nat) :
    (c.after moves k).state.tasks.length = c.tasks.length := by
  induction k with
  | zero => rfl
  | succ k ih =>
    rw [after_succ, ← ih]
    cases moves k with
    | turn n => exact length_tasks_step _ n
    | tick now => rfl

theorem later_step {n : Nat} (h : (c.access? n).isSome) :
    Later (c.step n).programs c.programs := by
  obtain ⟨a, ha⟩ := Option.isSome_iff_exists.mp h
  obtain ⟨t, e, next, htask, hrest, -, -, hstep⟩ := exists_of_access? ha
  have hprogram : c.programs[n]? = some (.ask e next) := by simp [programs, htask, hrest]
  rw [hstep]
  change Later ((c.tasks.set n _).map Task.rest) _
  rw [List.map_set]
  exact .access hprogram _

/-- As long as no access was answered, the same tasks can go on. -/
def Rests (c d : Concurrent α) : Prop :=
  d.tasks = c.tasks ∧ d.world.locked = c.world.locked

theorem Rests.programs {d : Concurrent α} (h : c.Rests d) : d.programs = c.programs :=
  congrArg (List.map Task.rest) h.1

theorem Rests.access? {d : Concurrent α} (h : c.Rests d) {n : Nat} (hn : (c.access? n).isSome) :
    (d.access? n).isSome := by
  obtain ⟨a, ha⟩ := Option.isSome_iff_exists.mp hn
  obtain ⟨t, e, next, htask, hrest, hadmits, -, -⟩ := exists_of_access? ha
  rw [← h.1] at htask
  rw [← World.admits_congr h.2] at hadmits
  rw [access?_eq_some htask hrest hadmits]
  rfl

theorem rests_or_later (c : Concurrent α) (moves : Nat → Move) (k m : Nat) :
    (c.after moves k).state.Rests (c.after moves (k + m)).state ∨
      Relation.TransGen Later (c.after moves (k + m)).state.programs
        (c.after moves k).state.programs := by
  induction m with
  | zero => exact .inl ⟨rfl, rfl⟩
  | succ m ih =>
    rw [← Nat.add_assoc, after_succ]
    cases moves (k + m) with
    | tick now => exact ih
    | turn n =>
      change Rests _ (step _ n) ∨ Relation.TransGen _ (step _ n).programs _
      -- a turn that answers nothing leaves all programs where they were
      cases haccess : (c.after moves (k + m)).state.access? n with
      | none => rwa [step_eq_self haccess]
      | some a =>
        have hstep := later_step (Option.isSome_iff_exists.mpr ⟨a, haccess⟩)
        apply Or.inr
        obtain h | h := ih
        · exact .single (h.programs ▸ hstep)
        · exact .head hstep h

theorem exists_later (hfair : IsFair c.tasks.length moves) {k n : Nat}
    (hn : ((c.after moves k).state.access? n).isSome) :
    ∃ m, Relation.TransGen Later (c.after moves m).state.programs
      (c.after moves k).state.programs := by
  have hlength : n < c.tasks.length := by
    rw [← length_tasks_after c moves k]
    obtain ⟨a, ha⟩ := Option.isSome_iff_exists.mp hn
    obtain ⟨t, e, next, htask, -⟩ := exists_of_access? ha
    exact (List.getElem?_eq_some_iff.mp htask).1
  obtain ⟨_, hle, hturn⟩ := hfair n hlength k
  obtain ⟨m, rfl⟩ := Nat.exists_eq_add_of_le hle
  obtain hrests | hlater := rests_or_later c moves k m
  -- if nothing was answered before its turn, the task can still go on
  · have hstep := later_step (hrests.access? hn)
    refine ⟨k + m + 1, .single ?_⟩
    rw [after_succ, hturn, ← hrests.programs]
    exact hstep
  · exact ⟨k + m, hlater⟩

/-- When each task has its turn again and again and one of them can always go on, all come to their
ends. -/
theorem exists_isOver (hfair : IsFair c.tasks.length moves)
    (hlive : ∀ k, (c.after moves k).state.IsLive) : ∃ k, (c.after moves k).state.IsOver := by
  have hends (ps : List (Program α)) :
      ∀ k, (c.after moves k).state.programs = ps → ∃ k, (c.after moves k).state.IsOver := by
    induction ps using wellFounded_later.transGen.induction with
    | h ps ih =>
      rintro k rfl
      obtain hover | ⟨n, hn⟩ := hlive k
      · exact ⟨k, hover⟩
      · obtain ⟨m, hm⟩ := exists_later hfair hn
        exact ih _ hm m rfl
  exact hends _ 0 rfl

end Fair

end Concurrent

end AccessControl
