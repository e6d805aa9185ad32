import AccessControl.Pipe.Turns
import AccessControl.Proofs.Program.Interpretation

/-!
Laws that the calls of a pipe follow. What a law says of a stage it says of the next one, and so it
holds all the while, in whatever order the calls go on.
-/

namespace AccessControl

open Program

namespace Once

variable {κ α : Type} {S : Except Error α → Prop} {m : Once κ α}

structure Ends (S : Except Error α → Prop) (m : Once κ α) : Prop where
  endings : ∀ e ∈ m.endings, S e.toExcept
  told : ∀ t ∈ m.told, S t.2.toExcept

theorem ends_empty : Ends S ({} : Once κ α) where
  endings _ h := nomatch h
  told _ h := nomatch h

namespace Ends

theorem of_same {m' : Once κ α} (h : m.Ends S) (hendings : m'.endings = m.endings)
    (htold : m'.told = m.told) : m'.Ends S where
  endings := hendings ▸ h.endings
  told := htold ▸ h.told

variable (h : m.Ends S)

include h

theorem ending {n : Nat} {e : Ending α} (he : m.ending? n = some e) : S e.toExcept :=
  h.endings e (List.mem_of_getElem? he)

theorem tell {e : Ending α} (he : S e.toExcept) (caller : κ) (n : Nat) :
    (m.tell caller n e).Ends S where
  endings := h.endings
  told t ht := by
    rcases List.mem_append.1 ht with ht | ht
    · exact h.told t ht
    · obtain rfl := List.mem_singleton.1 ht
      exact he

theorem join (caller : κ) (n : Nat) : (m.join caller n).Ends S := by
  rw [Once.join]
  split
  next e he => exact h.tell (h.ending he) caller n
  next => exact h.of_same rfl rfl

theorem finish {x : Except Error α} (hx : S x) : (m.finish (.ofExcept x)).Ends S := by
  rw [Once.finish]
  split
  · refine ⟨fun e he => ?_, h.told⟩
    rcases List.mem_append.1 he with he | he
    · exact h.endings e he
    · obtain rfl := List.mem_singleton.1 he
      cases x <;> exact hx
  · exact h

theorem get (caller : κ) : (m.get caller).Ends S := by
  rw [Once.get]
  split
  next => exact h.join caller _
  next =>
    exact join (m := { m with calls := m.calls + 1, held := some m.calls })
      (h.of_same rfl rfl) caller _

variable [DecidableEq κ]

theorem wake (caller : κ) : (m.wake caller).Ends S := by
  rw [Once.wake]
  split
  next => exact h
  next =>
    split
    next => exact h
    next e he =>
      exact tell (m := { m with waiting := m.waiting.filter (·.1 ≠ caller) })
        (h.of_same rfl rfl) (h.ending he) caller _

theorem toldTo {caller : κ} {e : Ending α} (he : m.toldTo? caller = some e) : S e.toExcept := by
  obtain ⟨l, l', hl, -⟩ := List.lookup_eq_some_iff.1 he
  exact h.told (caller, e) (by rw [hl]; simp)

end Ends

end Once

namespace Pipe

def Stage.ofCheck : Progress (Option Value.Fields) → Stage
  | .paused rest => .checking rest
  | .ended (.ok none) => .waiting
  | .ended (.ok (some visible)) => .ended (.ok visible)
  | .ended (.error e) => .ended (.error e)

/-! The stages of a call depend on what the pipe was opened for, and on nothing else of it. -/

section Congr

variable {f : Filter} {p q : Pipe}

theorem conclude_congr (haccount : p.account = q.account) (haction : p.action = q.action)
    (hlistener : p.listener = q.listener) (record : Record) (ending : Ending Standing) :
    p.conclude f record ending = q.conclude f record ending := by
  obtain ⟨account, action, listener, _, _, _⟩ := p
  obtain ⟨account', action', listener', _, _, _⟩ := q
  obtain rfl : account = account' := haccount
  obtain rfl : action = action' := haction
  obtain rfl : listener = listener' := hlistener
  rfl

theorem blocked?_congr (haccount : p.account = q.account) (haction : p.action = q.action)
    (record : Record) : p.blocked? f record = q.blocked? f record := by
  rw [blocked?, blocked?, request, request, haccount, haction]

theorem standing_congr (haccount : p.account = q.account) : p.standing f = q.standing f := by
  rw [standing, standing, haccount]

end Congr

variable {σ : Type} {ι : Interpreter σ} {I : σ → Prop} {f : Filter} {start : Pipe}

/-- A law for the pipes that are opened as `start` is: what may be said of the stages of a call, of
what is left of a resolution, and of how one ends. -/
structure Law (ι : Interpreter σ) (I : σ → Prop) (f : Filter) (start : Pipe) where
  stage : Record → Stage → Prop
  search : Program Standing → Prop
  ending : Except Error Standing → Prop
  arrives (record : Record) : stage record (.checking (start.blocked? f record))
  checks {record : Record} {rest : Program (Option Value.Fields)} :
    stage record (.checking rest) →
      Yields ι I False rest.turn fun progress => stage record (.ofCheck progress)
  concludes {record : Record} {e : Ending Standing} :
    stage record .waiting → ending e.toExcept → stage record (.showing (start.conclude f record e))
  shows {record : Record} {rest : Program Value.Fields} :
    stage record (.showing rest) →
      Yields ι I False rest.turn fun progress => stage record (.ofProgress progress)
  starts : search (start.standing f)
  searches {rest : Program Standing} : search rest → Yields ι I False rest.turn fun
    | .paused rest => search rest
    | .ended x => ending x

structure Law.Holds (L : Law ι I f start) (p : Pipe) : Prop where
  account : p.account = start.account
  action : p.action = start.action
  listener : p.listener = start.listener
  calls : ∀ c ∈ p.calls, L.stage c.record c.stage
  finding : ∀ rest ∈ p.finding, L.search rest
  resolution : p.resolution.Ends L.ending

variable {L : Law ι I f start} {p : Pipe} {n : Nat}

namespace Law.Holds

theorem call (h : L.Holds p) {c : Call} (hc : p.calls[n]? = some c) : L.stage c.record c.stage :=
  h.calls c (List.mem_of_getElem? hc)

theorem setStage (h : L.Holds p) {stage : Stage}
    (hstage : ∀ c, p.calls[n]? = some c → L.stage c.record stage) :
    L.Holds (p.setStage n stage) := by
  refine { h with calls := fun c hc => ?_ }
  obtain ⟨i, hi⟩ := List.mem_iff_getElem?.1 hc
  rw [Pipe.setStage, List.getElem?_modify] at hi
  obtain ⟨d, hd, rfl⟩ := Option.map_eq_some_iff.1 hi
  by_cases hn : n = i
  · subst hn
    rw [if_pos rfl]
    exact hstage d hd
  · rw [if_neg hn]
    exact h.call hd

theorem arrive (h : L.Holds p) (record : Record) : L.Holds (p.arrive f record) := by
  refine { h with calls := fun c hc => ?_ }
  rcases List.mem_append.1 hc with hc | hc
  · exact h.calls c hc
  · obtain rfl := List.mem_singleton.1 hc
    rw [blocked?_congr h.account h.action]
    exact L.arrives record

theorem arriveAll (h : L.Holds p) (records : List Record) :
    L.Holds (records.foldl (Pipe.arrive f) p) := by
  induction records generalizing p with
  | nil => exact h
  | cons record records ih => exact ih (h.arrive record)

end Law.Holds

section Work

variable (hI : Inert ι I)

include hI

theorem yields_work {α : Type} {q : Program α} {Q : Progress α → Prop} {mayFail : Prop} (p : Pipe)
    (hq : Yields ι I mayFail q.turn Q) : Yields ι I mayFail (p.work q) Q :=
  Upholds.within hI hq _

variable (h : L.Holds p)

include h

theorem yields_present {record : Record} {stage : Stage} {q : Program Value.Fields}
    (hcall : p.calls[n]? = some ⟨record, stage⟩) (hq : L.stage record (.showing q)) :
    Yields ι I False (p.present n q) L.Holds := by
  refine (yields_work hI p (L.shows hq)).bind fun _ hprogress => h.setStage fun c hc => ?_
  obtain rfl := Option.some.inj (hcall.symm.trans hc)
  exact hprogress

theorem yields_proceed (n : Nat) : Yields ι I False (p.proceed f n) L.Holds := by
  rw [proceed]
  split
  next record e hcall htold =>
    rw [conclude_congr h.account h.action h.listener]
    exact yields_present hI h hcall (L.concludes (h.call hcall) (h.resolution.toldTo htold))
  next => exact h

theorem yields_inquire (hwaiting : ∀ c, p.calls[n]? = some c → L.stage c.record .waiting) :
    Yields ι I False (p.inquire f n) L.Holds := by
  have hset : L.Holds (p.setStage n .waiting) := h.setStage hwaiting
  refine yields_proceed (p := { p.setStage n .waiting with
    resolution := p.resolution.get n
    finding := if p.resolution.held.isNone then some (p.standing f) else p.finding }) hI
    { hset with resolution := h.resolution.get n, finding := fun rest hrest => ?_ } n
  rw [Option.mem_def] at hrest
  split at hrest
  · obtain rfl := Option.some.inj hrest
    rw [standing_congr h.account]
    exact L.starts
  · exact h.finding rest hrest

theorem yields_advance (n : Nat) : Yields ι I False (p.advance f n) L.Holds := by
  rw [advance]
  split
  next rest hs =>
    obtain ⟨⟨record, stage⟩, hcall, hstage⟩ := Option.map_eq_some_iff.1 hs
    obtain rfl : stage = .checking rest := hstage
    refine (yields_work hI p (L.checks (h.call hcall))).bind fun progress hprogress => ?_
    have hnext (c : Call) (hc : p.calls[n]? = some c) : L.stage c.record (.ofCheck progress) := by
      obtain rfl := Option.some.inj (hcall.symm.trans hc)
      exact hprogress
    rcases progress with rest | e | _ | visible
    · exact h.setStage hnext
    · exact h.setStage hnext
    · exact yields_inquire hI h hnext
    · exact h.setStage hnext
  next rest hs =>
    obtain ⟨⟨record, stage⟩, hcall, hstage⟩ := Option.map_eq_some_iff.1 hs
    obtain rfl : stage = .showing rest := hstage
    exact yields_present hI h hcall (h.call hcall)
  next => exact h

theorem yields_resolve : Yields ι I False p.resolve L.Holds := by
  rw [resolve]
  split
  next => exact h
  next rest hfinding =>
    have hsearch := L.searches (h.finding rest hfinding)
    refine (yields_work hI p hsearch).bind fun progress hprogress => ?_
    cases progress with
    | paused rest =>
      refine { h with finding := ?_ }
      rintro _ ⟨⟩
      exact hprogress
    | ended x =>
      exact { h with
        finding := fun _ hq => nomatch hq
        resolution := h.resolution.finish hprogress }

theorem yields_take (turn : Turn) : Yields ι I False (p.take f turn) fun (q, _) => L.Holds q := by
  cases turn with
  | call n => exact (yields_advance hI h n).bind fun _ hq => hq
  | resolution => exact (yields_resolve hI h).bind fun _ hq => hq
  | notice n => exact h
  | wake n => exact (yields_proceed hI (p := { p with resolution := p.resolution.wake n })
      { h with resolution := h.resolution.wake n } n).bind fun _ hq => hq

omit h in
theorem yields_takeAll (limit : Nat) {p : Pipe} (h : L.Holds p) (queue : List Turn) :
    Yields ι I False (takeAll f limit p queue) L.Holds := by
  induction limit generalizing p queue with
  | zero => cases queue <;> exact h
  | succ limit ih =>
    cases queue with
    | nil => exact h
    | cons turn queue => exact (yields_take hI h turn).bind fun _ hq => ih hq _

theorem yields_feed (records : List Record) : Yields ι I False (feed f p records) L.Holds :=
  yields_takeAll hI _ (h.arriveAll records) _

end Work

end Pipe

end AccessControl
