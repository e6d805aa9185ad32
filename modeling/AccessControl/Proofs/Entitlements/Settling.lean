import AccessControl.Proofs.Entitlements.Flushing

/-!
A flush during which submitters stop waiting and jobs are cancelled.
-/

namespace AccessControl.Entitlements

open Program

variable {ι β : Type}

/-! Who stops waiting. -/

def Moves.withdrawals (count : Nat) : Moves ι → List Nat
  | .none => []
  | .enqueue _ rest => rest.withdrawals count
  | .submit _ rest => rest.withdrawals (count + 1)
  | .flush rest => rest.withdrawals count
  | .withdraw n rest =>
    if n < count then n :: rest.withdrawals count else rest.withdrawals count

def Job.withdrawals (count : Nat) : Job ι → List Nat
  | .mk _ moves => moves.withdrawals count

def withdrawals (count : Nat) : List (Job ι) → List Nat
  | [] => []
  | job :: jobs => job.withdrawals count ++ withdrawals (count + job.submitted.length) jobs

theorem withdrawals_concat (count : Nat) (jobs : List (Job ι)) (job : Job ι) :
    withdrawals count (jobs ++ [job]) =
      withdrawals count jobs ++ job.withdrawals (count + (jobs.flatMap Job.submitted).length) := by
  induction jobs generalizing count with
  | nil => simp [withdrawals]
  | cons first jobs ih => simp [withdrawals, ih, Nat.add_assoc]

def Job.joined (s : Submitters ι) : Job ι → Submitters ι
  | .mk _ moves => (moves.queued s).2

theorem Moves.queued_spec (moves : Moves ι) (s : Submitters ι) :
    (moves.queued s).1 = ranked s.tasks.length moves.submitted ∧
      (moves.queued s).2.tasks = s.tasks ++ moves.submitted.map Job.task ∧
      (moves.queued s).2.told = s.told ∧
      ∀ n, n ∈ (moves.queued s).2.withdrawn ↔
        n ∈ s.withdrawn ∨ n ∈ moves.withdrawals s.tasks.length := by
  match moves with
  | .none => simp [Moves.queued, Moves.submitted, Moves.withdrawals, ranked]
  | .enqueue _ rest | .flush rest => exact rest.queued_spec s
  | .submit job rest =>
    obtain ⟨hqueue, htasks, htold, hwithdrawn⟩ := rest.queued_spec (s.join job)
    have hlength : (s.join job).tasks.length = s.tasks.length + 1 := by simp [Submitters.join]
    rw [hlength] at hqueue hwithdrawn
    refine ⟨congrArg (_ :: ·) hqueue, ?_, htold, hwithdrawn⟩
    change (rest.queued (s.join job)).2.tasks = _
    rw [htasks]
    simp [Submitters.join, Moves.submitted]
  | .withdraw n rest =>
    obtain ⟨hqueue, htasks, htold, hwithdrawn⟩ := rest.queued_spec (s.withdraw n)
    by_cases hn : n < s.tasks.length
    · have hsame : s.withdraw n = { s with withdrawn := n :: s.withdrawn } := if_pos hn
      rw [hsame] at hqueue htasks htold hwithdrawn
      rw [Moves.queued, hsame]
      refine ⟨hqueue, htasks, htold, fun k => ?_⟩
      rw [hwithdrawn, Moves.withdrawals, if_pos hn, List.mem_cons, List.mem_cons, or_assoc]
      exact or_left_comm
    · have hsame : s.withdraw n = s := if_neg hn
      rw [hsame] at hqueue htasks htold hwithdrawn
      rw [Moves.queued, hsame, Moves.withdrawals, if_neg hn]
      exact ⟨hqueue, htasks, htold, hwithdrawn⟩

/-- Nobody who waits for the last of these jobs has stopped waiting while they ran. -/
def stays (ran : List (Job ι)) (submitter : Option Nat) : Bool :=
  submitter.all fun n => !(withdrawals 0 ran).contains n

/-- Each submitter still waited when its job had run. -/
inductive Stayed : Queue ι → Prop where
  | nil : Stayed []
  | concat {past : Queue ι} {job : Job ι} {m : Option Nat} (hpast : Stayed past)
    (hm : stays (past.map Prod.fst ++ [job]) m = true) : Stayed (past ++ [(job, m)])

/-- How the turn of a job ends. It fails when the outcome cannot be told; of a cancellation nobody
is told. -/
def ending (stays : Bool) : Except Error β → Except Error Unit
  | .ok _ => if stays then .ok () else .error .settledTwice
  | .error e => if e = .cancelled ∨ stays then .error e else .error .settledTwice

theorem ending_eq_ok_iff {stays : Bool} {x : Except Error β} :
    ending stays x = .ok () ↔ stays = true ∧ ∃ b, x = .ok b := by
  cases x with
  | ok b => cases stays <;> simp [ending]
  | error e => by_cases he : e = .cancelled ∨ stays <;> simp [ending, he]

namespace Submitters

variable {s : Submitters ι} {ran : List (Job ι)}

theorem tell_of_withdrawn (hs : ∀ n, n ∈ s.withdrawn ↔ n ∈ withdrawals 0 ran) (job : Job ι)
    (m : Option Nat) (x : Except Error Unit) :
    s.tell m x = if stays ran m then .ok (s.later [] [((job, m), some x)])
      else .error .settledTwice := by
  cases m with
  | none => simp [tell, stays, later, Line.told]
  | some n => simp [tell, stays, later, Line.told, hs n, ite_not]

end Submitters

/-- What the submitter of the last of some jobs is told when they fail with it. -/
def lastWord (ran : List (Job ι)) (m : Option Nat) (e : Error) : Option (Except Error Unit) :=
  if stays ran m then verdict e else none

theorem Queue.run_cons_ending (run : ι → Program β) (job : Job ι) (m : Option Nat) (rest : Queue ι)
    (count : Nat) {s : Submitters ι} {ran : List (Job ι)}
    (hs : ∀ n, n ∈ (job.joined s).withdrawn ↔ n ∈ withdrawals 0 ran) :
    Queue.run run ((job, m) :: rest) count s = do
      let x ← job.serve run
      match ending (stays ran m) x with
      | .ok _ =>
        Queue.run run (rest ++ ranked s.tasks.length job.submitted) (count + 1)
          ((job.joined s).later [] [((job, m), some (.ok ()))])
      | .error e =>
        return ⟨.error e, count, rest ++ ranked s.tasks.length job.submitted,
          (job.joined s).later [] [((job, m), lastWord ran m e)]⟩ := by
  obtain ⟨task, moves⟩ := job
  have htell (x : Except Error Unit) : (moves.queued s).2.tell m x = _ :=
    Submitters.tell_of_withdrawn hs (.mk task moves) m x
  have hsilent : (Job.joined s (.mk task moves)).later [] [((.mk task moves, m), none)] =
      (moves.queued s).2 := by
    cases m <;> simp [Submitters.later, Line.told, Job.joined]
  have hqueue := (moves.queued_spec s).1
  rw [Queue.run, Job.serve]
  simp only [bind_assoc, pure_bind, Moves.answers_eq, hqueue]
  apply bind_congr
  intro outcome
  apply bind_congr
  intro _
  have hsubmitted : (Job.mk task moves).submitted = moves.submitted := rfl
  rw [hsubmitted]
  -- the submitter can be told just when it has stayed
  cases hstays : stays ran m with
  | true =>
    simp only [hstays, if_true] at htell
    cases outcome with
    | ok b => simp only [htell, ending, if_true]
    | error e =>
      have hend : ending true (.error e : Except Error β) = .error e := by simp [ending]
      rw [hend]
      by_cases he : e = .cancelled
      · subst he
        simp only [lastWord, hstays, if_true, verdict, hsilent]
      · have hword : lastWord ran m e = some (.error e) := by simp [lastWord, hstays, verdict, he]
        simp only [htell, hword]
  | false =>
    have hword (e : Error) : lastWord ran m e = none := by simp [lastWord, hstays]
    simp only [hstays, Bool.false_eq_true, if_false] at htell
    cases outcome with
    | ok b => simp only [htell, ending, Bool.false_eq_true, if_false, hword, hsilent]
    | error e =>
      by_cases he : e = .cancelled
      · subst he
        simp only [ending, true_or, if_true, hword, hsilent]
      · have hend : ending false (.error e : Except Error β) = .error .settledTwice := by
          simp [ending, he]
        simp only [htell, hend, hword, hsilent]

/-! The run of a queue. -/

/-- A queue is being worked off: `past` has run, and what is in line is still to run. -/
structure Underway (run : ι → Program β) (start : World) (queued : List (Job ι))
    (past queue : Queue ι) (s : Submitters ι) (w : World) : Prop where
  line : queued.map (·, none) ++ ranked 0 (past.flatMap (·.1.submitted)) = past ++ queue
  ran : Succeed run (past.map Prod.fst) start w
  stayed : Stayed past
  tasks : s.tasks = (past.flatMap (·.1.submitted)).map Job.task
  told : s.told = Line.told (Queue.telling past (.ok ()))
  withdrawn : ∀ n, n ∈ s.withdrawn ↔ n ∈ withdrawals 0 (past.map Prod.fst)

theorem succeed_concat {run : ι → Program β} {jobs : List (Job ι)} {job : Job ι} {b : β}
    {u v w : World} (hjobs : Succeed run jobs w v)
    (hjob : (job.serve run).run v = (.ok (.ok b), u)) :
    Succeed run (jobs ++ [job]) w u := by
  obtain ⟨values, hvalues⟩ := hjobs
  refine ⟨values ++ [b], ?_⟩
  rw [List.mapM_append, run_bind, hvalues]
  simp only [List.mapM_cons, List.mapM_nil, run_bind, hjob]
  rw [List.map_append]
  rfl

section

variable {run : ι → Program β} {start u w : World} {queued : List (Job ι)}
  {past rest : Queue ι} {job : Job ι} {m : Option Nat} {s : Submitters ι}

theorem Underway.length (h : Underway run start queued past ((job, m) :: rest) s w) :
    s.tasks.length = (past.flatMap (·.1.submitted)).length := by
  rw [h.tasks, List.length_map]

theorem Underway.line_next (h : Underway run start queued past ((job, m) :: rest) s w) :
    queued.map (·, none) ++ ranked 0 ((past ++ [(job, m)]).flatMap (·.1.submitted)) =
      past ++ [(job, m)] ++ (rest ++ ranked s.tasks.length job.submitted) := by
  rw [List.flatMap_append, ranked_append, ← List.append_assoc, h.line, Nat.zero_add, ← h.length]
  simp

theorem Job.joined_spec (job : Job ι) (s : Submitters ι) :
    (job.joined s).tasks = s.tasks ++ job.submitted.map Job.task ∧ (job.joined s).told = s.told ∧
      ∀ n, n ∈ (job.joined s).withdrawn ↔
        n ∈ s.withdrawn ∨ n ∈ job.withdrawals s.tasks.length := by
  obtain ⟨task, moves⟩ := job
  exact (moves.queued_spec s).2

theorem Underway.withdrawn_next (h : Underway run start queued past ((job, m) :: rest) s w)
    (n : Nat) : n ∈ (job.joined s).withdrawn ↔ n ∈ withdrawals 0 (past.map Prod.fst ++ [job]) := by
  obtain ⟨-, -, hwithdrawn⟩ := job.joined_spec s
  rw [hwithdrawn, h.withdrawn, withdrawals_concat, List.mem_append, h.length, Nat.zero_add,
    List.flatMap_map]

theorem Underway.next {b : β} (h : Underway run start queued past ((job, m) :: rest) s w)
    (hserve : (job.serve run).run w = (.ok (.ok b), u))
    (hstays : stays (past.map Prod.fst ++ [job]) m = true) :
    Underway run start queued (past ++ [(job, m)]) (rest ++ ranked s.tasks.length job.submitted)
      ((job.joined s).later [] [((job, m), some (.ok ()))]) u := by
  obtain ⟨htasks, htold, -⟩ := job.joined_spec s
  have hfst : (past ++ [(job, m)]).map Prod.fst = past.map Prod.fst ++ [job] := by simp
  refine ⟨h.line_next, ?_, .concat h.stayed hstays, ?_, ?_, ?_⟩
  · rw [hfst]
    exact succeed_concat h.ran hserve
  · simp [Submitters.later, htasks, h.tasks]
  · simp [Submitters.later, htold, h.told, Queue.telling, Line.told]
  · rw [hfst]
    exact h.withdrawn_next

end

/-- How a queue comes to its end, with what is left in line. -/
inductive Queue.Halts (run : ι → Program β) (start : World) (queued : List (Job ι))
    (ran left : Queue ι) : Remainder ι → World → Prop where
  | completed {s : Submitters ι} {v : World} (h : Underway run start queued ran [] s v)
    (hleft : left = []) : Halts run start queued ran left ⟨.ok (), ran.length, [], s⟩ v
  | stopped {before rest : Queue ι} {f : Job ι} {m : Option Nat} {s : Submitters ι}
    {x : Except Error β} {e : Error} {v u : World}
    (h : Underway run start queued before ((f, m) :: rest) s v) (hran : ran = before ++ [(f, m)])
    (hserve : (f.serve run).run v = (.ok x, u))
    (hend : ending (stays (ran.map Prod.fst) m) x = .error e)
    (hleft : left = rest ++ ranked s.tasks.length f.submitted) :
    Halts run start queued ran left
      ⟨.error e, before.length, left,
        (f.joined s).later [] [((f, m), lastWord (ran.map Prod.fst) m e)]⟩ u

theorem Job.size_eq (job : Job ι) (s : Submitters ι) :
    job.size = Queue.size (ranked s.tasks.length job.submitted) + 1 := by
  obtain ⟨task, moves⟩ := job
  have hsize := moves.size_queued s
  rw [(moves.queued_spec s).1] at hsize
  exact congrArg (· + 1) hsize.symm

theorem Underway.exists_halts {run : ι → Program β} {start w : World} {queued : List (Job ι)}
    {past queue : Queue ι} {s : Submitters ι} (h : Underway run start queued past queue s w) :
    ∃ ran left r v, (Queue.run run queue past.length s).run w = (.ok r, v) ∧
      Queue.Halts run start queued ran left r v := by
  match queue with
  | [] =>
    refine ⟨past, [], _, w, ?_, .completed h rfl⟩
    rw [Queue.run]
    rfl
  | (job, m) :: rest =>
    obtain ⟨x, u, hserve⟩ := exists_run_serve run job w
    have hran : past.map Prod.fst ++ [job] = (past ++ [(job, m)]).map Prod.fst := by simp
    rw [Queue.run_cons_ending run job m rest past.length h.withdrawn_next, run_bind, hserve,
      hran]
    dsimp only
    cases hend : ending (stays ((past ++ [(job, m)]).map Prod.fst) m) x with
    | error e => exact ⟨_, _, _, u, rfl, .stopped h rfl hserve hend rfl⟩
    | ok _ =>
      obtain ⟨hstays, b, rfl⟩ := ending_eq_ok_iff.mp hend
      rw [← hran] at hstays
      have hnext := (h.next hserve hstays).exists_halts
      rw [List.length_append] at hnext
      exact hnext
termination_by Queue.size queue
decreasing_by
  have hsize := job.size_eq s
  rw [Queue.size_append, Queue.size]
  omega

/-! What the submitters are told. -/

theorem exists_mem_ranked (jobs : List (Job ι)) {k n : Nat} (hk : k ≤ n)
    (hn : n < k + jobs.length) : ∃ job, (job, some n) ∈ ranked k jobs := by
  induction jobs generalizing k with
  | nil => simp at hn; omega
  | cons job jobs ih =>
    by_cases heq : n = k
    · subst heq
      exact ⟨job, List.mem_cons_self⟩
    · obtain ⟨next, hnext⟩ := ih (k := k + 1) (by omega) (by simp at hn; omega)
      exact ⟨next, List.mem_cons_of_mem _ hnext⟩

theorem Line.lookup_of_mem {line : Line ι} {jobs : List (Job ι)} {k n : Nat} {job : Job ι}
    {x : Option (Except Error Unit)} (h : line.map Prod.fst = ranked k jobs)
    (hmem : ((job, some n), x) ∈ line) :
    k ≤ n ∧ n < k + jobs.length ∧ line.told.lookup n = x := by
  induction jobs generalizing k line with
  | nil =>
    obtain rfl := List.map_eq_nil_iff.mp h
    cases hmem
  | cons first jobs ih =>
    obtain ⟨⟨entry, y⟩, rest, rfl, rfl, hrest⟩ := List.map_eq_cons_iff.mp h
    rw [List.length_cons]
    obtain heq | hlater := List.mem_cons.mp hmem
    · cases heq
      have habsent := Line.lookup_ranked hrest (Nat.lt_succ_self n)
      refine ⟨Nat.le_refl n, by omega, ?_⟩
      cases x with
      | none => exact habsent
      | some x => simp [Line.told]
    · obtain ⟨hk, hn, hlookup⟩ := ih hrest hlater
      refine ⟨by omega, by omega, ?_⟩
      cases y with
      | none => exact hlookup
      | some y =>
        change List.lookup n ((k, y) :: Line.told rest) = x
        have hne : n ≠ k := by omega
        rw [List.lookup_cons, beq_false_of_ne hne]
        exact hlookup

/-- The submitters as they are when the jobs `ran` have run and a line has been told. -/
structure Accounted (queued late ran : List (Job ι)) (line : Line ι) (s : Submitters ι) : Prop where
  fits : line.map Prod.fst = queued.map (·, none) ++ ranked 0 late
  tasks : s.tasks = late.map Job.task
  told : s.told = line.told
  withdrawn : ∀ n, n ∈ s.withdrawn ↔ n ∈ withdrawals 0 ran

namespace Accounted

variable {queued late ran : List (Job ι)} {line : Line ι} {s : Submitters ι}

theorem outcomes (h : Accounted queued late ran line s) :
    s.outcomes = (line.map fun (entry, x) => (entry.1.task, x)).drop queued.length := by
  rw [← Submitters.outcomes_later h.fits]
  unfold Submitters.outcomes Submitters.outcome?
  rw [h.tasks, h.told]
  simp [Submitters.later]

theorem mem_waiting_iff (h : Accounted queued late ran line s) (n : Nat) :
    n ∈ s.waiting ↔ (∃ job, ((job, some n), none) ∈ line) ∧ n ∉ withdrawals 0 ran := by
  obtain ⟨first, rest, rfl, hfirst, hrest⟩ := List.map_eq_append_iff.mp h.fits
  have htold : s.told = Line.told rest := by
    rw [h.told, Line.told_append, Line.told_of_map_fst hfirst, List.nil_append]
  -- jobs that were queued before the flush have no submitter that waits
  have hlate (job : Job ι) (x : Option (Except Error Unit)) :
      ((job, some n), x) ∈ first ++ rest ↔ ((job, some n), x) ∈ rest := by
    rw [List.mem_append, or_iff_right]
    intro hmem
    have hnone := List.mem_map_of_mem (f := Prod.fst) hmem
    rw [hfirst] at hnone
    simp at hnone
  have hwaiting : n ∈ s.waiting ↔
      n < late.length ∧ n ∉ withdrawals 0 ran ∧ (Line.told rest).lookup n = none := by
    simp [Submitters.waiting, Submitters.outcome?, h.tasks, htold, h.withdrawn]
  simp only [hwaiting, hlate]
  constructor
  · rintro ⟨hn, hstays, hnone⟩
    obtain ⟨job, hjob⟩ := exists_mem_ranked late (Nat.zero_le n) (by omega)
    rw [← hrest] at hjob
    obtain ⟨⟨entry, x⟩, hmem, rfl⟩ := List.mem_map.mp hjob
    obtain ⟨-, -, hlookup⟩ := Line.lookup_of_mem hrest hmem
    rw [hnone] at hlookup
    exact ⟨⟨job, hlookup ▸ hmem⟩, hstays⟩
  · rintro ⟨⟨job, hmem⟩, hstays⟩
    obtain ⟨-, hn, hlookup⟩ := Line.lookup_of_mem hrest hmem
    exact ⟨by omega, hstays, hlookup⟩

end Accounted

def Queue.dropping (ran : List (Job ι)) (left : Queue ι) : Line ι :=
  left.map fun entry =>
    (entry, if stays ran entry.2 then some (.error .registrationDropped) else none)

theorem Submitters.dismiss_of_withdrawn {s : Submitters ι} {ran : List (Job ι)}
    (hs : ∀ n, n ∈ s.withdrawn ↔ n ∈ withdrawals 0 ran) (left : Queue ι) :
    s.dismiss (left.map Prod.snd) = s.later [] (left.dropping ran) := by
  induction left generalizing s with
  | nil => simp [dismiss, later, Queue.dropping, Line.told]
  | cons entry left ih =>
    obtain ⟨job, m⟩ := entry
    let word : Option (Except Error Unit) :=
      if stays ran m then some (.error .registrationDropped) else none
    have htell : (s.tell m (.error .registrationDropped)).toOption.getD s =
        s.later [] [((job, m), word)] := by
      rw [tell_of_withdrawn hs job]
      cases hstays : stays ran m with
      | true => simp [word, hstays, Except.toOption]
      | false => cases m <;> simp [word, hstays, Except.toOption, later, Line.told]
    have hnext := ih (s := s.later [] [((job, m), word)]) hs
    rw [later_later] at hnext
    rw [dismiss, List.map_cons, List.foldl_cons, htell]
    exact hnext

namespace Backlog

/-- How a flush ends that may have lost submitters on its way: its outcome, who was told what, and
who waits for ever. -/
inductive Settled (run : ι → Program β) (after : Program Unit) (start : World)
    (queued : List (Job ι)) (ran left : Queue ι) :
    Except Error Nat → Submitters ι → World → Prop where
  | completed {s : Submitters ι} {v : World} (hran : Succeed run (ran.map Prod.fst) start v)
    (hstayed : Stayed ran) (hleft : left = [])
    (houtcomes : s.outcomes = (hearing (ran.map Prod.fst) (.ok ())).drop queued.length)
    (hwaiting : s.waiting = []) :
    Settled run after start queued ran left
      (((announced ran.length after).run v).1.map fun _ => ran.length) s
      ((announced ran.length after).run v).2
  | stopped {before : Queue ι} {f : Job ι} {m : Option Nat} {x : Except Error β} {e : Error}
    {s : Submitters ι} {v u : World} (hran : ran = before ++ [(f, m)])
    (hbefore : Succeed run (before.map Prod.fst) start v) (hstayed : Stayed before)
    (hserve : (f.serve run).run v = (.ok x, u))
    (hend : ending (stays (ran.map Prod.fst) m) x = .error e)
    (houtcomes : s.outcomes = (hearing (before.map Prod.fst) (.ok ()) ++
      (f.task, lastWord (ran.map Prod.fst) m e) ::
        (left.dropping (ran.map Prod.fst)).map fun (entry, y) => (entry.1.task, y)).drop
          queued.length)
    (hwaiting : ∀ n, n ∈ s.waiting ↔
      m = some n ∧ e = .cancelled ∧ stays (ran.map Prod.fst) m = true) :
    Settled run after start queued ran left (.error e) s ((warnDropped left).run u).2

variable {run : ι → Program β} {w v : World} {queued : List (Job ι)} {ran left : Queue ι}

theorem mem_line_iff {before left : Queue ι} {f : Job ι} {m : Option Nat} {e : Error}
    {ran : List (Job ι)} (n : Nat) :
    (∃ job, ((job, some n), none) ∈ Queue.telling before (.ok ()) ++
      ([((f, m), lastWord ran m e)] ++ left.dropping ran)) ∧ n ∉ withdrawals 0 ran ↔
        m = some n ∧ e = .cancelled ∧ stays ran m = true := by
  have hstays : stays ran (some n) = true ↔ n ∉ withdrawals 0 ran := by simp [stays]
  rw [← hstays]
  constructor
  · rintro ⟨⟨job, hmem⟩, hn⟩
    obtain hbefore | hlast | hleft := by simpa only [List.mem_append] using hmem
    · simp [Queue.telling] at hbefore
    · obtain ⟨⟨-, rfl⟩, hword⟩ : (job = f ∧ some n = m) ∧ none = lastWord ran m e := by
        simpa using hlast
      by_cases he : e = .cancelled
      · exact ⟨rfl, he, hn⟩
      · simp [lastWord, hn, verdict, he] at hword
    · obtain ⟨-, -, -, ⟨-, rfl⟩, hgone⟩ : ∃ a b, (a, b) ∈ left ∧ (a = job ∧ b = some n) ∧
          stays ran b = false := by simpa [Queue.dropping] using hleft
      exact absurd (hgone.symm.trans hn) (by decide)
  · rintro ⟨rfl, rfl, hn⟩
    refine ⟨⟨f, ?_⟩, hn⟩
    simp [lastWord, hn, verdict]

theorem settled_of_halts (after : Program Unit) {r : Remainder ι}
    (hrun : (Queue.run run (queued.map (·, none)) 0 {}).run w = (.ok r, v))
    (h : Queue.Halts run w queued ran left r v) :
    queued.map (·, none) ++ ranked 0 (ran.flatMap (·.1.submitted)) = ran ++ left ∧
      ∃ result s u, (flushWith run after ⟨.pending, queued⟩).run w =
        (.ok (result, s, ⟨.flushed, []⟩), u) ∧ Settled run after w queued ran left result s u := by
  cases h with
  | @completed s _ h hleft =>
    subst hleft
    have haccounted : Accounted queued (ran.flatMap (·.1.submitted)) (ran.map Prod.fst)
        (Queue.telling ran (.ok ())) s :=
      ⟨by rw [map_fst_telling, h.line, List.append_nil], h.tasks, h.told, h.withdrawn⟩
    refine ⟨h.line, _, s, _, run_flushWith_ok after hrun, .completed h.ran h.stayed rfl ?_ ?_⟩
    · rw [haccounted.outcomes]
      simp [Queue.telling, hearing, Function.comp_def]
    · rw [List.eq_nil_iff_forall_not_mem]
      intro n hn
      obtain ⟨⟨job, hmem⟩, -⟩ := (haccounted.mem_waiting_iff n).mp hn
      simp [Queue.telling] at hmem
  | @stopped before rest f m s x e u _ h hran hserve hend hleft =>
    obtain ⟨htasks, htold, -⟩ := f.joined_spec s
    have hfst : before.map Prod.fst ++ [f] = ran.map Prod.fst := by simp [hran]
    have hwithdrawn := h.withdrawn_next
    have hline := h.line_next
    rw [hfst] at hwithdrawn
    rw [← hran, ← hleft] at hline
    -- the job that ended the run was told its word; those behind it are dismissed
    have hdismiss := Submitters.dismiss_of_withdrawn
      (s := (f.joined s).later [] [((f, m), lastWord (ran.map Prod.fst) m e)]) hwithdrawn left
    have hflush := run_flushWith_error after hrun
    rw [hdismiss, Submitters.later_later, List.append_nil] at hflush
    have haccounted : Accounted queued (ran.flatMap (·.1.submitted)) (ran.map Prod.fst)
        (Queue.telling before (.ok ()) ++ ([((f, m), lastWord (ran.map Prod.fst) m e)] ++
          left.dropping (ran.map Prod.fst)))
        ((f.joined s).later [] ([((f, m), lastWord (ran.map Prod.fst) m e)] ++
          left.dropping (ran.map Prod.fst))) := by
      refine ⟨?_, ?_, ?_, hwithdrawn⟩
      · rw [hline, hran]
        simp [map_fst_telling, Queue.dropping, Function.comp_def]
      · simp [Submitters.later, htasks, h.tasks, hran]
      · simp [Submitters.later, htold, h.told, Line.told_append]
    refine ⟨hline, _, _, _, hflush, .stopped hran h.ran h.stayed hserve hend ?_ fun n => ?_⟩
    · rw [haccounted.outcomes]
      simp [Queue.telling, hearing, Function.comp_def]
    · rw [haccounted.mem_waiting_iff]
      exact mem_line_iff n

/-- Whatever becomes of the jobs and of those who submit them, a flush ends, and nothing is queued
any more. It stops at the first job that fails or is cancelled, and also at one that succeeds when
its submitter has stopped waiting. Nobody is left to wait but one whose job was cancelled. -/
theorem settles_all_but_cancelled (run : ι → Program β) (after : Program Unit)
    (queued : List (Job ι)) (w : World) :
    ∃ ran left result s v,
      (flushWith run after ⟨.pending, queued⟩).run w = (.ok (result, s, ⟨.flushed, []⟩), v) ∧
        queued.map (·, none) ++ ranked 0 (ran.flatMap (·.1.submitted)) = ran ++ left ∧
        Settled run after w queued ran left result s v := by
  have hstart : Underway run w queued [] (queued.map (·, none)) {} w :=
    ⟨by simp [ranked], ⟨[], rfl⟩, .nil, rfl, rfl, by simp [withdrawals]⟩
  obtain ⟨ran, left, r, u, hrun, hhalts⟩ := hstart.exists_halts
  obtain ⟨hline, result, s, v, hflush, hsettled⟩ := settled_of_halts after hrun hhalts
  exact ⟨ran, left, result, s, v, hflush, hline, hsettled⟩

def lateComers (first second : Job (String × Option Error)) : List (Job (String × Option Error)) :=
  [.mk ("early", none) (.submit first (.submit second .none))]

-- The submitter of the first one leaves while it runs: the flush fails, and the second one is lost.
example : ((flushWith rehearse (pure ()) ⟨.pending,
    lateComers (.mk ("first", none) (.withdraw 0 .none)) (.mk ("second", none) .none)⟩).run
      stage).1.map (fun (x, s, _) => (x, s.outcomes.map fun (t, y) => (t.1, y))) =
        .ok (.error .settledTwice,
          [("first", none), ("second", some (.error .registrationDropped))]) := by cbv

-- The first one is cancelled: its submitter waits for ever.
example : ((flushWith rehearse (pure ()) ⟨.pending,
    lateComers (.mk ("first", some .cancelled) .none) (.mk ("second", none) .none)⟩).run
      stage).1.map (fun (x, s, i) => (x, s.waiting, i.phase)) =
        .ok (.error .cancelled, [0], .flushed) := by cbv

end Backlog

end AccessControl.Entitlements
