import AccessControl.Entitlements.Backlog
import AccessControl.Proofs.Program.Accesses
import AccessControl.Proofs.Program.Running

/-!
The flush of a backlog. The jobs that run are the first ones of a line in which those that are
submitted meanwhile stand behind all others; the first failure ends it.
-/

namespace AccessControl.Entitlements

open Program

variable {ι β : Type}

/-! What is asked of the backlog during a task. -/

def Moves.submitted : Moves ι → List (Job ι)
  | .none => []
  | .enqueue _ rest => rest.submitted
  | .submit job rest => job :: rest.submitted
  | .flush rest => rest.submitted
  | .withdraw _ rest => rest.submitted

def Moves.replies : Moves ι → List Notice
  | .none => []
  | .enqueue _ rest => .refused .catalogSealed :: rest.replies
  | .submit _ rest => rest.replies
  | .flush rest => .flushed 0 :: rest.replies
  | .withdraw _ rest => rest.replies

mutual

/-- Nobody stops waiting, neither during the task nor during those that are submitted meanwhile. -/
def Job.IsPatient : Job ι → Prop
  | .mk _ moves => moves.IsPatient

def Moves.IsPatient : Moves ι → Prop
  | .none => True
  | .enqueue _ rest => rest.IsPatient
  | .submit job rest => job.IsPatient ∧ rest.IsPatient
  | .flush rest => rest.IsPatient
  | .withdraw _ _ => False

end

def Job.submitted : Job ι → List (Job ι)
  | .mk _ moves => moves.submitted

def Job.serve (run : ι → Program β) : Job ι → Program (Except Error β)
  | .mk task moves => do
    let outcome ← (run task).attempt
    moves.replies.forM fun n => perform (.notify n)
    return outcome

theorem Moves.answers_eq (moves : Moves ι) :
    moves.answers = moves.replies.forM fun n => perform (.notify n) := by
  match moves with
  | .none => rfl
  | .enqueue _ rest | .flush rest => exact congrArg (perform _ >>= ·) (funext fun _ => rest.answers_eq)
  | .submit _ rest | .withdraw _ rest => exact rest.answers_eq

theorem Moves.IsPatient.submitted {moves : Moves ι} (h : moves.IsPatient) :
    ∀ job ∈ moves.submitted, job.IsPatient := by
  match moves with
  | .none => exact fun _ hjob => nomatch hjob
  | .enqueue _ rest | .flush rest =>
    have hrest : rest.IsPatient := h
    exact hrest.submitted
  | .submit job rest =>
    obtain ⟨hjob, hrest⟩ : job.IsPatient ∧ rest.IsPatient := h
    exact List.forall_mem_cons.mpr ⟨hjob, hrest.submitted⟩

theorem Job.IsPatient.submitted {job : Job ι} (h : job.IsPatient) :
    ∀ next ∈ job.submitted, next.IsPatient := by
  obtain ⟨task, moves⟩ := job
  have hmoves : moves.IsPatient := h
  exact hmoves.submitted

theorem run_forM_notify (replies : List Notice) (w : World) :
    (replies.forM fun n => perform (.notify n)).run w =
      (.ok (), { w with heard := replies.reverse ++ w.heard }) := by
  induction replies generalizing w with
  | nil => rfl
  | cons n replies ih =>
    change (replies.forM fun n => perform (.notify n)).run { w with heard := n :: w.heard } = _
    rw [ih]
    simp

theorem exists_run_serve (run : ι → Program β) (job : Job ι) (w : World) :
    ∃ x v, (job.serve run).run w = (.ok x, v) := by
  obtain ⟨task, moves⟩ := job
  rw [Job.serve, run_bind, run_attempt]
  simp only [run_bind, run_forM_notify]
  exact ⟨_, _, rfl⟩

/-! What a flush asks for. -/

section

variable {kind : Effect → Bool} {run : ι → Program β}
  (hnotify : ∀ n, kind (.notify n) = true) (hrun : ∀ task, Only kind (run task))

include hnotify

theorem only_answers : ∀ moves : Moves ι, Only kind moves.answers
  | .none => only_pure ()
  | .enqueue _ rest => (only_perform (hnotify _)).bind fun _ => only_answers rest
  | .submit _ rest => only_answers rest
  | .flush rest => (only_perform (hnotify _)).bind fun _ => only_answers rest
  | .withdraw _ rest => only_answers rest

include hrun

theorem only_queue (queue : Queue ι) (count : Nat) (s : Submitters ι) :
    Only kind (Queue.run run queue count s) := by
  match queue with
  | [] =>
    rw [Queue.run]
    exact only_pure _
  | (.mk task moves, submitter) :: rest =>
    rw [Queue.run]
    refine (hrun task).attempt.bind fun outcome => (only_answers hnotify moves).bind fun _ => ?_
    dsimp only
    split
    · split
      · exact only_queue _ (count + 1) _
      · exact only_pure _
    · exact only_pure _
    · split <;> exact only_pure _
termination_by Queue.size queue
decreasing_by
  rw [Queue.size_append, Moves.size_queued]
  simp only [Queue.size, Job.size]
  omega

theorem only_flush (hrecord : ∀ line, kind (.record line) = true) {after : Program Unit}
    (hafter : Only kind after) (i : Backlog ι) : Only kind (Backlog.flush run after i) := by
  refine Only.bind ?_ fun (count, _, i) => only_pure (count, i)
  unfold Backlog.flushWith
  split
  · exact only_pure _
  refine (only_queue hnotify hrun _ 0 {}).bind fun r => Only.bind ?_ fun _ => ?_
  · unfold Backlog.warnDropped
    split
    · exact only_pure _
    · exact only_log (hrecord _)
  · cases r.outcome with
    | error e => exact only_pure _
    | ok _ =>
      refine (only_log (hrecord _)).bind fun _ => hafter.attempt.bind fun x => ?_
      cases x <;> exact only_pure _

end

/-! Jobs whose tasks are all of a kind. -/

mutual

def Job.All (P : ι → Prop) : Job ι → Prop
  | .mk task moves => P task ∧ moves.All P

def Moves.All (P : ι → Prop) : Moves ι → Prop
  | .none => True
  | .enqueue _ rest => rest.All P
  | .submit job rest => job.All P ∧ rest.All P
  | .flush rest => rest.All P
  | .withdraw _ rest => rest.All P

end

theorem Moves.All.queued {P : ι → Prop} {moves : Moves ι} (h : moves.All P) (s : Submitters ι) :
    ∀ entry ∈ (moves.queued s).1, entry.1.All P := by
  match moves with
  | .none => exact fun _ hentry => nomatch hentry
  | .enqueue _ rest | .flush rest | .withdraw _ rest =>
    have hrest : rest.All P := h
    exact hrest.queued _
  | .submit job rest =>
    obtain ⟨hjob, hrest⟩ : job.All P ∧ rest.All P := h
    exact List.forall_mem_cons.mpr ⟨hjob, hrest.queued _⟩

theorem Queue.run_congr {P : ι → Prop} {run run' : ι → Program β} (h : ∀ r, P r → run r = run' r)
    (queue : Queue ι) (hqueue : ∀ entry ∈ queue, entry.1.All P) (count : Nat) (s : Submitters ι) :
    Queue.run run queue count s = Queue.run run' queue count s := by
  match queue with
  | [] => rw [Queue.run, Queue.run]
  | (.mk task moves, submitter) :: rest =>
    obtain ⟨hjob, hrest⟩ := List.forall_mem_cons.mp hqueue
    obtain ⟨htask, hmoves⟩ : P task ∧ moves.All P := hjob
    have hline := List.forall_mem_append.mpr ⟨hrest, hmoves.queued s⟩
    rw [Queue.run, Queue.run, h task htask]
    refine bind_congr fun outcome => bind_congr fun _ => ?_
    dsimp only
    split
    · split
      · exact Queue.run_congr h _ hline (count + 1) _
      · rfl
    · rfl
    · rfl
termination_by Queue.size queue
decreasing_by
  rw [Queue.size_append, Moves.size_queued]
  simp only [Queue.size, Job.size]
  omega

/-! The line: queued jobs, with the numbers of the submitters that wait for them. -/

def ranked (n : Nat) : List (Job ι) → Queue ι
  | [] => []
  | job :: jobs => (job, some n) :: ranked (n + 1) jobs

theorem ranked_append (n : Nat) (jobs more : List (Job ι)) :
    ranked n (jobs ++ more) = ranked n jobs ++ ranked (n + jobs.length) more := by
  induction jobs generalizing n with
  | nil => rfl
  | cons job jobs ih =>
    rw [List.cons_append, ranked, ih, ranked, List.cons_append, List.length_cons,
      Nat.add_assoc n 1, Nat.add_comm 1]

theorem map_fst_ranked (n : Nat) (jobs : List (Job ι)) : (ranked n jobs).map Prod.fst = jobs := by
  induction jobs generalizing n with
  | nil => rfl
  | cons job jobs ih => rw [ranked, List.map_cons, ih]

theorem isPatient_ranked {jobs : List (Job ι)} (h : ∀ job ∈ jobs, job.IsPatient) (n : Nat) :
    ∀ entry ∈ ranked n jobs, entry.1.IsPatient := by
  intro entry hentry
  apply h
  rw [← map_fst_ranked n jobs]
  exact List.mem_map_of_mem hentry

/-- Jobs in line, each with what its submitter is told in the end. -/
abbrev Line (ι : Type) := List ((Job ι × Option Nat) × Option (Except Error Unit))

def Line.told (line : Line ι) : List (Nat × Except Error Unit) :=
  line.filterMap fun ((_, submitter), x) => submitter.bind fun n => x.map (n, ·)

theorem Line.told_append (line more : Line ι) : Line.told (line ++ more) = line.told ++ more.told :=
  List.filterMap_append

def Queue.telling (queue : Queue ι) (x : Except Error Unit) : Line ι :=
  queue.map (·, some x)

theorem map_fst_telling (queue : Queue ι) (x : Except Error Unit) :
    (Queue.telling queue x).map Prod.fst = queue := by
  simp [Queue.telling, Function.comp_def]

/-- To be cancelled is not to fail: the submitter is not told. -/
def verdict (e : Error) : Option (Except Error Unit) :=
  if e = .cancelled then none else some (.error e)

namespace Submitters

def later (s : Submitters ι) (jobs : List (Job ι)) (line : Line ι) : Submitters ι :=
  { s with tasks := s.tasks ++ jobs.map Job.task, told := s.told ++ line.told }

theorem later_later (s : Submitters ι) (jobs more : List (Job ι)) (line news : Line ι) :
    (s.later jobs line).later more news = s.later (jobs ++ more) (line ++ news) := by
  simp [later, Line.told_append]

variable {s : Submitters ι}

theorem tell_eq (hs : s.withdrawn = []) (job : Job ι) (m : Option Nat) (x : Except Error Unit) :
    s.tell m x = .ok (s.later [] (Queue.telling [(job, m)] x)) := by
  obtain ⟨tasks, withdrawn, told⟩ := s
  obtain rfl : withdrawn = [] := hs
  cases m <;> simp [tell, later, Line.told, Queue.telling]

theorem dismiss_eq (hs : s.withdrawn = []) (left : Queue ι) :
    s.dismiss (left.map Prod.snd) = s.later [] (left.telling (.error .registrationDropped)) := by
  induction left generalizing s with
  | nil => simp [dismiss, later, Queue.telling, Line.told]
  | cons entry left ih =>
    obtain ⟨job, m⟩ := entry
    rw [dismiss, List.map_cons, List.foldl_cons, tell_eq hs job]
    have hnext := ih (s := s.later [] (Queue.telling [(job, m)] (.error .registrationDropped))) hs
    rw [later_later] at hnext
    exact hnext

end Submitters

theorem Moves.IsPatient.queued {moves : Moves ι} (h : moves.IsPatient) (s : Submitters ι) :
    moves.queued s = (ranked s.tasks.length moves.submitted, s.later moves.submitted []) := by
  match moves with
  | .none => simp [Moves.queued, Moves.submitted, ranked, Submitters.later, Line.told]
  | .enqueue _ rest | .flush rest =>
    have hrest : rest.IsPatient := h
    exact hrest.queued s
  | .submit job rest =>
    have hrest : rest.IsPatient := h.2
    rw [Moves.queued, hrest.queued (s.join job)]
    simp [Moves.submitted, ranked, Submitters.join, Submitters.later]

theorem Job.IsPatient.size {job : Job ι} (h : job.IsPatient) (s : Submitters ι) :
    job.size = Queue.size (ranked s.tasks.length job.submitted) + 1 := by
  obtain ⟨task, moves⟩ := job
  have hmoves : moves.IsPatient := h
  have hqueued := moves.size_queued s
  rw [hmoves.queued] at hqueued
  exact congrArg (· + 1) hqueued.symm

/-! The run of a queue. -/

/-- Jobs run one after the other, and none of them fails. -/
def Succeed (run : ι → Program β) (jobs : List (Job ι)) (w v : World) : Prop :=
  ∃ values : List β, (jobs.mapM (Job.serve run)).run w = (.ok (values.map .ok), v)

theorem succeed_cons {run : ι → Program β} {job : Job ι} {jobs : List (Job ι)} {b : β}
    {u v w : World} (hjob : (job.serve run).run w = (.ok (.ok b), u))
    (hjobs : Succeed run jobs u v) : Succeed run (job :: jobs) w v := by
  obtain ⟨values, hvalues⟩ := hjobs
  refine ⟨b :: values, ?_⟩
  rw [List.mapM_cons, run_bind, hjob]
  simp only [run_bind, hvalues]
  rfl

/-- How a queue is worked off. The entries that ran are told apart from those left behind. -/
inductive Queue.Worked (run : ι → Program β) (count : Nat) (s : Submitters ι) (w : World)
    (ran left : Queue ι) : Remainder ι → World → Prop where
  | completed {v : World} (hran : Succeed run (ran.map Prod.fst) w v) (hleft : left = []) :
    Queue.Worked run count s w ran left
      ⟨.ok (), count + ran.length, [],
        s.later (ran.flatMap (·.1.submitted)) (Queue.telling ran (.ok ()))⟩ v
  | failed {before : Queue ι} {f : Job ι} {m : Option Nat} {e : Error} {v u : World}
    (hran : ran = before ++ [(f, m)]) (hbefore : Succeed run (before.map Prod.fst) w v)
    (hfailed : (f.serve run).run v = (.ok (.error e), u)) :
    Queue.Worked run count s w ran left
      ⟨.error e, count + before.length, left,
        s.later (ran.flatMap (·.1.submitted))
          (Queue.telling before (.ok ()) ++ [((f, m), verdict e)])⟩ u

theorem Queue.Worked.cons {run : ι → Program β} {job : Job ι} {m : Option Nat} {count : Nat}
    {s : Submitters ι} {b : β} {w u v : World} {ran left : Queue ι} {r : Remainder ι}
    (hserve : (job.serve run).run w = (.ok (.ok b), u))
    (h : Queue.Worked run (count + 1)
      (s.later job.submitted (Queue.telling [(job, m)] (.ok ()))) u ran left r v) :
    Queue.Worked run count s w ((job, m) :: ran) left r v := by
  cases h with
  | completed hran hleft =>
    rw [Submitters.later_later, Nat.add_assoc, Nat.add_comm 1]
    exact .completed (succeed_cons hserve hran) hleft
  | @failed before f n e _ _ hran hbefore hfailed =>
    have hline : (job, m) :: ran = ((job, m) :: before) ++ [(f, n)] := congrArg _ hran
    rw [Submitters.later_later, Nat.add_assoc, Nat.add_comm 1]
    exact .failed hline (succeed_cons hserve hbefore) hfailed

theorem Queue.run_cons (run : ι → Program β) {job : Job ι} (hjob : job.IsPatient) (m : Option Nat)
    (rest : Queue ι) (count : Nat) {s : Submitters ι} (hs : s.withdrawn = []) :
    Queue.run run ((job, m) :: rest) count s = do
      match ← job.serve run with
      | .ok _ =>
        Queue.run run (rest ++ ranked s.tasks.length job.submitted) (count + 1)
          (s.later job.submitted (Queue.telling [(job, m)] (.ok ())))
      | .error e =>
        return ⟨.error e, count, rest ++ ranked s.tasks.length job.submitted,
          s.later job.submitted [((job, m), verdict e)]⟩ := by
  obtain ⟨task, moves⟩ := job
  have hmoves : moves.IsPatient := hjob
  rw [Queue.run, Job.serve]
  simp only [bind_assoc, pure_bind, hmoves.queued, Moves.answers_eq]
  apply bind_congr
  intro outcome
  apply bind_congr
  intro _
  have htell (x : Except Error Unit) : (s.later moves.submitted []).tell m x =
      .ok (s.later moves.submitted (Queue.telling [(.mk task moves, m)] x)) := by
    have htold := Submitters.tell_eq (s := s.later moves.submitted []) hs (.mk task moves) m x
    rw [Submitters.later_later, List.append_nil] at htold
    exact htold
  cases outcome with
  | ok b =>
    simp only [htell]
    rfl
  | error e =>
    by_cases he : e = .cancelled
    · subst he
      have hsilent : Line.told [((Job.mk task moves, m), verdict .cancelled)] = [] := by
        cases m <;> rfl
      simp only [Submitters.later, hsilent]
      rfl
    · have hverdict : verdict e = some (.error e) := if_neg he
      simp only [htell, hverdict]
      rfl

/-- The line, as it is in the end, begins with the queue; those who submit jobs meanwhile join
behind. -/
theorem Queue.exists_worked (run : ι → Program β) (queue : Queue ι)
    (hqueue : ∀ entry ∈ queue, entry.1.IsPatient) (count : Nat) {s : Submitters ι}
    (hs : s.withdrawn = []) (w : World) :
    ∃ ran left r v, (Queue.run run queue count s).run w = (.ok r, v) ∧
      queue ++ ranked s.tasks.length (ran.flatMap (·.1.submitted)) = ran ++ left ∧
      Queue.Worked run count s w ran left r v := by
  match queue with
  | [] =>
    refine ⟨[], [], ⟨.ok (), count, [], s⟩, w, ?_, rfl, ?_⟩
    · rw [Queue.run]
      rfl
    · have hsame : s.later [] [] = s := by simp [Submitters.later, Line.told]
      have hworked : Queue.Worked run count s w [] [] ⟨.ok (), count, [], s.later [] []⟩ w :=
        .completed ⟨[], rfl⟩ rfl
      rw [hsame] at hworked
      exact hworked
  | (job, m) :: rest =>
    obtain ⟨hjob, hrest⟩ := List.forall_mem_cons.mp hqueue
    obtain ⟨x, u, hserve⟩ := exists_run_serve run job w
    rw [Queue.run_cons run hjob m rest count hs, run_bind, hserve]
    cases x with
    | error e =>
      refine ⟨[(job, m)], rest ++ ranked s.tasks.length job.submitted, _, u, rfl, ?_, ?_⟩
      · simp
      · have hjobs : [(job, m)].flatMap (·.1.submitted) = job.submitted := by simp
        rw [← hjobs]
        exact .failed (List.nil_append _).symm ⟨[], rfl⟩ hserve
    | ok b =>
      -- those who came during the job are at the end of the line now
      have hline : ∀ entry ∈ rest ++ ranked s.tasks.length job.submitted, entry.1.IsPatient :=
        List.forall_mem_append.mpr ⟨hrest, isPatient_ranked hjob.submitted _⟩
      obtain ⟨ran, left, r, v, hrun, heq, hworked⟩ := Queue.exists_worked run
        (rest ++ ranked s.tasks.length job.submitted) hline (count + 1)
        (s := s.later job.submitted (Queue.telling [(job, m)] (.ok ()))) hs u
      refine ⟨(job, m) :: ran, left, r, v, hrun, ?_, hworked.cons hserve⟩
      have hlength : (s.later job.submitted (Queue.telling [(job, m)] (.ok ()))).tasks.length =
          s.tasks.length + job.submitted.length := by
        simp [Submitters.later]
      rw [hlength, List.append_assoc, ← ranked_append] at heq
      simpa using heq
termination_by Queue.size queue
decreasing_by
  have hsize := hjob.size s
  rw [Queue.size_append, Queue.size]
  dsimp only at hsize
  omega

/-! What the submitters are told. -/

theorem Line.lookup_ranked {line : Line ι} {n k : Nat} {jobs : List (Job ι)}
    (h : line.map Prod.fst = ranked n jobs) (hk : k < n) : line.told.lookup k = none := by
  induction jobs generalizing n line with
  | nil =>
    obtain rfl := List.map_eq_nil_iff.mp h
    rfl
  | cons job jobs ih =>
    obtain ⟨⟨entry, x⟩, rest, rfl, rfl, hrest⟩ := List.map_eq_cons_iff.mp h
    have hnext := ih hrest (Nat.lt_succ_of_lt hk)
    cases x with
    | none => exact hnext
    | some x =>
      change List.lookup k ((n, x) :: Line.told rest) = none
      have hne : k ≠ n := by omega
      rw [List.lookup_cons, beq_false_of_ne hne]
      exact hnext

theorem Line.outcomes_ranked {line : Line ι} {n : Nat} {jobs : List (Job ι)}
    (h : line.map Prod.fst = ranked n jobs) :
    ((jobs.map Job.task).zipIdx n).map (fun (task, k) => (task, line.told.lookup k)) =
      line.map fun (entry, x) => (entry.1.task, x) := by
  induction jobs generalizing n line with
  | nil =>
    obtain rfl := List.map_eq_nil_iff.mp h
    rfl
  | cons job jobs ih =>
    obtain ⟨⟨entry, x⟩, rest, rfl, rfl, hrest⟩ := List.map_eq_cons_iff.mp h
    rw [List.map_cons, List.zipIdx_cons, List.map_cons, List.map_cons, ← ih hrest]
    have habsent := Line.lookup_ranked hrest (Nat.lt_succ_self n)
    cases x with
    | none =>
      change (job.task, List.lookup n (Line.told rest)) :: _ = _
      rw [habsent]
      rfl
    | some x =>
      congr 1
      · simp [Line.told]
      · apply List.map_congr_left
        rintro ⟨task, k⟩ hmem
        have hk := List.le_snd_of_mem_zipIdx hmem
        have hne : k ≠ n := by omega
        change (task, List.lookup k ((n, x) :: Line.told rest)) = _
        rw [List.lookup_cons, beq_false_of_ne hne]

theorem Line.told_of_map_fst {line : Line ι} {jobs : List (Job ι)}
    (h : line.map Prod.fst = jobs.map (·, none)) : line.told = [] := by
  induction jobs generalizing line with
  | nil =>
    obtain rfl := List.map_eq_nil_iff.mp h
    rfl
  | cons job jobs ih =>
    obtain ⟨⟨entry, x⟩, rest, rfl, rfl, hrest⟩ := List.map_eq_cons_iff.mp h
    have hnext := ih hrest
    exact hnext

theorem Submitters.outcomes_later {line : Line ι} {queued late : List (Job ι)}
    (h : line.map Prod.fst = queued.map (·, none) ++ ranked 0 late) :
    (Submitters.later {} late line).outcomes =
      (line.map fun (entry, x) => (entry.1.task, x)).drop queued.length := by
  obtain ⟨first, rest, rfl, hfirst, hrest⟩ := List.map_eq_append_iff.mp h
  have hlength : first.length = queued.length := by simpa using congrArg List.length hfirst
  have hnone := Line.told_of_map_fst hfirst
  have htold : (Submitters.later {} late (first ++ rest)).told = Line.told rest := by
    simp [later, Line.told_append, hnone]
  have houtcomes := Line.outcomes_ranked hrest
  rw [List.map_append, List.drop_left' (by simpa using hlength), ← houtcomes]
  unfold outcomes outcome?
  rw [htold]
  simp [later]

namespace Backlog

inductive Call (ι : Type) where
  | enqueue (job : Job ι)
  | submit (job : Job ι)

def Call.job : Call ι → Job ι
  | .enqueue job | .submit job => job

def Call.make (run : ι → Program β) : Call ι → Stateful (Backlog ι) Unit
  | .enqueue job => Backlog.enqueue job
  | .submit job => do
    let _ ← Backlog.submit run job

def hearing (jobs : List (Job ι)) (x : Except Error Unit) : List (ι × Option (Except Error Unit)) :=
  jobs.map fun job => (job.task, some x)

/-- What follows when no job has failed. -/
def announced (count : Nat) (after : Program Unit) : Program Unit := do
  log .info logger "Catalog registrations flushed" [("count", .nat count)]
  after

/-- How a flush ends after the jobs `ran`: its outcome, what those heard who submitted jobs
meanwhile, and the world. The first jobs in line, so many as were queued before, have no submitter
that waits. -/
inductive Ends (run : ι → Program β) (after : Program Unit) (queued : Nat) (w : World)
    (ran left : List (Job ι)) :
    Except Error Nat → List (ι × Option (Except Error Unit)) → World → Prop where
  | completed {v : World} (hran : Succeed run ran w v) (hleft : left = []) :
    Ends run after queued w ran left
      (((announced ran.length after).run v).1.map fun _ => ran.length)
      ((hearing ran (.ok ())).drop queued)
      ((announced ran.length after).run v).2
  | failed {before : List (Job ι)} {f : Job ι} {e : Error} {v u : World}
    (hran : ran = before ++ [f]) (hbefore : Succeed run before w v)
    (hfailed : (f.serve run).run v = (.ok (.error e), u)) :
    Ends run after queued w ran left (.error e)
      ((hearing before (.ok ()) ++ (f.task, verdict e) ::
        hearing left (.error .registrationDropped)).drop queued)
      ((warnDropped (left.map (·, none))).run u).2

theorem run_call (run : ι → Program β) (c : Call ι) (i : Backlog ι) (hi : i.phase = .pending)
    (w : World) :
    (c.make run i).run w = (.ok (.ok (), { i with queue := i.queue ++ [c.job] }), w) := by
  obtain ⟨phase, queue⟩ := i
  obtain rfl : phase = .pending := hi
  cases c <;> rfl

theorem run_calls (run : ι → Program β) (calls : List (Call ι)) (i : Backlog ι)
    (hi : i.phase = .pending) (w : World) :
    (calls.forM (Call.make run) i).run w =
      (.ok (.ok (), { i with queue := i.queue ++ calls.map Call.job }), w) := by
  induction calls generalizing i with
  | nil =>
    rw [List.map_nil, List.append_nil]
    rfl
  | cons c calls ih =>
    have hnext := ih { i with queue := i.queue ++ [c.job] } hi
    rw [List.append_assoc] at hnext
    exact (Stateful.run_bind_ok (run_call run c i hi w)).trans hnext

theorem warnDropped_eq (left : Queue ι) :
    warnDropped left = warnDropped ((left.map Prod.fst).map (·, none)) := by
  cases left <;> simp [warnDropped]

theorem run_warnDropped (left : Queue ι) (w : World) :
    (warnDropped left).run w = (.ok (), ((warnDropped left).run w).2) := by
  unfold warnDropped
  split <;> rfl

theorem flushWith_eq (run : ι → Program β) (after : Program Unit) {i : Backlog ι}
    (hi : i.phase = .pending) :
    flushWith run after i = do
      let (x, s, i) ← flushWith run (pure ()) i
      match x with
      | .error e => return (.error e, s, i)
      | .ok n =>
        let y ← after.attempt
        return (y.map fun _ => n, s, i) := by
  have hpending : ¬ i.flushed = true := by simp [flushed, hi]
  unfold flushWith
  rw [if_neg hpending, if_neg hpending, bind_assoc]
  refine bind_congr fun r => ?_
  rw [bind_assoc]
  refine bind_congr fun _ => ?_
  cases r.outcome with
  | error e => rfl
  | ok _ =>
    refine bind_congr fun _ => ?_
    change after.attempt >>= _ = after.attempt >>= _
    refine bind_congr fun x => ?_
    cases x <;> rfl

section

variable {run : ι → Program β} {queue : List (Job ι)} {count : Nat} {s : Submitters ι}
  {v w : World}

theorem run_flushWith_ok (after : Program Unit)
    (h : (Queue.run run (queue.map (·, none)) 0 {}).run w = (.ok ⟨.ok (), count, [], s⟩, v)) :
    (flushWith run after ⟨.pending, queue⟩).run w =
      (.ok (((announced count after).run v).1.map fun _ => count, s, ⟨.flushed, []⟩),
        ((announced count after).run v).2) := by
  have hpending : ¬ (⟨.pending, queue⟩ : Backlog ι).flushed = true := by simp [flushed]
  unfold flushWith announced
  rw [if_neg hpending, run_bind, h]
  have hnone : (warnDropped ([] : Queue ι)).run v = (.ok (), v) := rfl
  simp only [run_bind, run_attempt, run_log, hnone]
  generalize after.run _ = y
  obtain ⟨x, u⟩ := y
  cases x <;> rfl

theorem run_flushWith_error (after : Program Unit) {e : Error} {left : Queue ι}
    (h : (Queue.run run (queue.map (·, none)) 0 {}).run w = (.ok ⟨.error e, count, left, s⟩, v)) :
    (flushWith run after ⟨.pending, queue⟩).run w =
      (.ok (.error e, s.dismiss (left.map Prod.snd), ⟨.flushed, []⟩),
        ((warnDropped left).run v).2) := by
  have hpending : ¬ (⟨.pending, queue⟩ : Backlog ι).flushed = true := by simp [flushed]
  unfold flushWith
  rw [if_neg hpending, run_bind, h]
  dsimp only
  rw [run_bind, run_warnDropped]
  rfl

theorem ends_of_worked (after : Program Unit) {ran left : Queue ι} {r : Remainder ι}
    (hrun : (Queue.run run (queue.map (·, none)) 0 {}).run w = (.ok r, v))
    (hline : queue.map (·, none) ++ ranked 0 (ran.flatMap (·.1.submitted)) = ran ++ left)
    (hworked : Queue.Worked run 0 {} w ran left r v) :
    ∃ result s u, Ends run after queue.length w (ran.map Prod.fst) (left.map Prod.fst) result
      s.outcomes u ∧
        (flushWith run after ⟨.pending, queue⟩).run w = (.ok (result, s, ⟨.flushed, []⟩), u) := by
  cases hworked with
  | completed hran hleft =>
    subst hleft
    rw [List.append_nil] at hline
    have hall : (Queue.telling ran (.ok ())).map Prod.fst =
        queue.map (·, none) ++ ranked 0 (ran.flatMap (·.1.submitted)) := by
      rw [map_fst_telling, hline]
    have houtcomes : (Submitters.later {} (ran.flatMap (·.1.submitted))
        (Queue.telling ran (.ok ()))).outcomes =
          (hearing (ran.map Prod.fst) (.ok ())).drop queue.length := by
      rw [Submitters.outcomes_later hall]
      simp [Queue.telling, hearing, Function.comp_def]
    have hflush := run_flushWith_ok after hrun
    rw [Nat.zero_add, ← List.length_map Prod.fst] at hflush
    refine ⟨_, _, _, ?_, hflush⟩
    rw [houtcomes]
    exact .completed hran rfl
  | @failed before f m e u _ hran hbefore hfailed =>
    subst hran
    -- all that was told: success, the failure, and that the rest was dropped
    let line : Line ι := Queue.telling before (.ok ()) ++ [((f, m), verdict e)] ++
      Queue.telling left (.error .registrationDropped)
    have hall : line.map Prod.fst =
        queue.map (·, none) ++ ranked 0 ((before ++ [(f, m)]).flatMap (·.1.submitted)) := by
      rw [hline, List.map_append, List.map_append, map_fst_telling, map_fst_telling]
      rfl
    have houtcomes : (Submitters.later {} ((before ++ [(f, m)]).flatMap (·.1.submitted))
        line).outcomes =
          (hearing (before.map Prod.fst) (.ok ()) ++ (f.task, verdict e) ::
            hearing (left.map Prod.fst) (.error .registrationDropped)).drop queue.length := by
      rw [Submitters.outcomes_later hall]
      simp [line, Queue.telling, hearing, Function.comp_def]
    have hflush := run_flushWith_error after hrun
    rw [Submitters.dismiss_eq rfl, Submitters.later_later, List.append_nil, warnDropped_eq]
      at hflush
    refine ⟨_, _, _, ?_, hflush⟩
    rw [houtcomes]
    exact .failed List.map_append hbefore hfailed

end

/-- The flush of a queue. `left` is what was still in line when a job had failed. -/
structure Flush (run : ι → Program β) (after : Program Unit) (i : Backlog ι) (w : World)
    (ran left : List (Job ι)) (result : Except Error Nat) (s : Submitters ι) (v : World) : Prop where
  line : i.queue ++ ran.flatMap Job.submitted = ran ++ left
  ends : Ends run after i.queue.length w ran left result s.outcomes v
  flushed : (i.flushWith run after).run w = (.ok (result, s, ⟨.flushed, []⟩), v)

/-- Nothing is queued any more, and nothing is left to be flushed. -/
structure IsSealed (run : ι → Program β) (after : Program Unit) (i : Backlog ι) : Prop where
  enqueue : ∀ job w, Program.run (i.enqueue job) w = (.ok (.error .catalogSealed, i), w)
  flush : ∀ w, Program.run (i.flush run after) w = (.ok (.ok 0, i), w)

def rehearse : String × Option Error → Program Unit
  | (name, failure) => do
    perform (.notify (.ran name))
    match failure with
    | some e => fail e
    | none => return

def rehearsal : List (Call (String × Option Error)) :=
  let boom : Error := .outside .application "boom"
  let late := .submit (.mk ("third", some boom) .none) (.submit (.mk ("fourth", none) .none) .none)
  let second : Job (String × Option Error) := .mk ("second", none) .none
  [.enqueue (.mk ("first", none) (.enqueue second (.flush late))), .submit second]

def stage : World :=
  World.initial .error none { path := "" }

example : (((flushWith rehearse (pure ()) ⟨.pending, rehearsal.map Call.job⟩).run
    stage).1.map fun (x, s, _) => (x, s.outcomes.map fun (t, y) => (t.1, y))) =
      .ok (.error (.outside .application "boom"),
        [("third", some (.error (.outside .application "boom"))),
          ("fourth", some (.error .registrationDropped))]) := by
  cbv

end Backlog

end AccessControl.Entitlements
