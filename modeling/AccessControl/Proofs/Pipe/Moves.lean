import AccessControl.Proofs.Pipe.Race
import AccessControl.Proofs.Pipe.Sequence

/-!
The moves of a race: each can be made, and keeps what holds of the pipe.
-/

namespace AccessControl

open Program

namespace Pipe

variable {f : Filter} {start : Pipe} {x : Standing} {n : Nat} {m : Once Nat Standing}

theorem call_of_stage? {p : Pipe} {stage : Stage} (h : p.stage? n = some stage) :
    ∃ record, p.calls[n]? = some ⟨record, stage⟩ := by
  obtain ⟨call, hcall, rfl⟩ := Option.map_eq_some_iff.1 h
  exact ⟨call.record, hcall⟩

theorem stage?_of_isWaiting {p : Pipe} (h : p.isWaiting n = true) : p.stage? n = some .waiting := by
  rw [isWaiting] at h
  split at h
  · assumption
  · cases h

theorem utters_conclude {record : Record} (hblocked : start.blockedFields f record = .ok none) :
    Utters (start.said f record x) (start.conclude f record (.value x))
      (start.fields f record (.ok x)) := by
  have hfields : start.fields f record (.ok x) = start.concludedFields f record (.ok x) := by
    rw [fields, hblocked]
    rfl
  have hvisible : start.visible f record x = start.shownFields f record x := by
    rw [visible, hblocked]
    rfl
  have hshown := fixed_shown f start record x
  rw [hfields, said, hvisible]
  change Utters _ (start.shown f record x >>= fun visible => do
      start.announce record visible
      return visible)
    (start.shownFields f record x >>= fun visible => do
      start.announced visible
      return visible)
  cases hx : start.shownFields f record x with
  | error e =>
    rw [hx] at hshown
    exact (hshown.bind (y := fun _ => .error e) fun _ h => by cases h).utters
  | ok visible =>
    rw [hx] at hshown
    exact hshown.utters_bind (utters_announce start record visible)

theorem notices_nil (p : Pipe) (record : Record) : p.notices record [] = [] := by
  rw [notices.eq_def]
  cases p.listener <;> rfl

theorem run_present (p : Pipe) (n : Nat) {q : Program Value.Fields} {ns : List Notice}
    {y : Except Error Value.Fields} {k : Nat} (hq : Utters ns q y) (hk : Pauses k q) (w : World) :
    ∃ progress v news, (p.present n q).run w = (.ok (p.setStage n (.ofProgress progress)), v) ∧
      v.Alike w ∧ v.heard = news ++ w.heard ∧ Turned ns y k progress news := by
  obtain ⟨progress, v, news, hrun, hv, hnews, hturned⟩ := run_work p hq hk w
  refine ⟨progress, v, news, ?_, hv, hnews, hturned⟩
  rw [present, run_bind, hrun]
  rfl

theorem proceed_untold {p : Pipe} (h : p.resolution.toldTo? n = none) : p.proceed f n = pure p := by
  rw [proceed, h]
  rcases p.calls[n]? with _ | ⟨record, _ | _ | _ | _⟩ <;> rfl

theorem run_told {p : Pipe} (haccount : p.account = start.account)
    (haction : p.action = start.action) (hlistener : p.listener = start.listener) {record : Record}
    (hcall : p.calls[n]? = some ⟨record, .waiting⟩)
    (htold : p.resolution.toldTo? n = some (.value x))
    (hblocked : start.blockedFields f record = .ok none) (w : World) :
    ∃ progress v news, (p.proceed f n).run w = (.ok (p.setStage n (.ofProgress progress)), v) ∧
      v.Alike w ∧ v.heard = news ++ w.heard ∧
      Turned (start.said f record x) (start.fields f record (.ok x))
        (Override.weight f.authority.policy.overrides.bypasses) progress news := by
  rw [proceed, hcall, htold]
  refine run_present p n ?_ (pauses_conclude f p record (.value x)) w
  rw [conclude_congr haccount haction hlistener]
  exact utters_conclude hblocked

theorem run_cancelled {p : Pipe} {record : Record} (hcall : p.calls[n]? = some ⟨record, .waiting⟩)
    (htold : p.resolution.toldTo? n = some .cancelled) (w : World) :
    ∃ v, (p.proceed f n).run w = (.ok (p.setStage n (.ended (.error .cancelled))), v) ∧
      v.Alike w ∧ v.heard = w.heard := by
  rw [proceed, hcall, htold]
  obtain ⟨progress, v, news, hrun, hv, hnews, hturned⟩ :=
    run_present p n (Utters.fail .cancelled) (Pauses.fail (n := 0) .cancelled) w
  cases hturned with
  | paused hm => exact absurd hm (Nat.not_lt_zero _)
  | ended => exact ⟨v, hrun, hv, hnews⟩

def checkedOn (f : Filter) (p : Pipe) (n : Nat) : Progress (Option Value.Fields) → Program Pipe
  | .paused rest => pure (p.setStage n (.checking rest))
  | .ended (.ok none) => p.inquire f n
  | .ended (.ok (some visible)) => pure (p.setStage n (.ended (.ok visible)))
  | .ended (.error e) => pure (p.setStage n (.ended (.error e)))

theorem run_checking {p : Pipe} {rest : Program (Option Value.Fields)}
    (h : p.stage? n = some (.checking rest)) {progress : Progress (Option Value.Fields)}
    {w v : World} (hrun : (p.work rest).run w = (.ok progress, v)) :
    (p.advance f n).run w = (p.checkedOn f n progress).run v := by
  rw [advance, h]
  simp only [run_bind, hrun]
  rcases progress with rest | e | _ | visible <;> rfl

def resolvedOn (p : Pipe) : Progress Standing → Pipe
  | .paused rest => { p with finding := some rest }
  | .ended r => { p with finding := none, resolution := p.resolution.finish (.ofExcept r) }

def Race.Makes (f : Filter) (start : Pipe) (x : Standing) (a : Race) (move : Move) : Prop :=
  ∃ q v news, (move.take f a.pipe).run a.world = (.ok q, v) ∧ v.heard = news ++ a.world.heard ∧
    (a.after move q v news).IsSound f start x

namespace Race.IsSound

variable {a : Race} (h : a.IsSound f start x)

include h

theorem makes_cancel (hopen : a.pipe.stage? n = some .waiting) : a.Makes f start x (.cancel n) := by
  obtain ⟨record, hcall⟩ := call_of_stage? hopen
  have hcourse := h.courses n
  rw [hcall] at hcourse
  obtain ⟨htold, -, ht, hw, hm, -⟩ := hcourse.waiting_inv
  have htake : Move.take f a.pipe (.cancel n) =
      proceed f { a.pipe with resolution := left a.pipe.resolution n .cancelled } n := by
    rw [← cancel_waiting hw]
    rfl
  obtain ⟨v, hrun, hv, hheard⟩ := run_cancelled (f := f)
    (p := { a.pipe with resolution := left a.pipe.resolution n .cancelled }) hcall
    (lookup_tell hm _) a.world
  refine ⟨_, v, [], htake ▸ hrun, hheard, ?_⟩
  refine h.after rfl (by simp [Move.givesUp]) hcall (spares_left _ _ _)
    ((h.phase.alike hv).left hw _) ?_
  rw [htold]
  refine .cancelled ?_ (List.mem_append_left _ List.mem_cons_self)
  have hpatience := patience_eq f
  omega

theorem makes_wake (hopen : a.pipe.stage? n = some .waiting) (hfinding : a.pipe.finding = none) :
    a.Makes f start x (.wake n) := by
  obtain ⟨record, hcall⟩ := call_of_stage? hopen
  have hcourse := h.courses n
  rw [hcall] at hcourse
  obtain ⟨htold, hblocked, ht, hw, hm, hc⟩ := hcourse.waiting_inv
  have hphase := h.phase
  rw [hfinding] at hphase
  have hbegun := hphase.ended_inv hw
  have htake : Move.take f a.pipe (.wake n) =
      proceed f { a.pipe with resolution := left a.pipe.resolution n (.value x) } n := by
    rw [← hbegun.wake hw]
    rfl
  obtain ⟨progress, v, news, hrun, hv, hheard, hturned⟩ := run_told (f := f)
    (p := { a.pipe with resolution := left a.pipe.resolution n (.value x) }) h.account h.action
    h.listener hcall (lookup_tell hm _) hblocked a.world
  refine ⟨_, v, news, htake ▸ hrun, hheard, ?_⟩
  refine h.after rfl (by simp [Move.givesUp]) hcall (spares_left _ _ _)
    ((h.phase.alike hv).left hw _) ?_
  rw [htold, List.append_nil]
  refine Course.of_turned hturned ?_ hc
  have hpatience := patience_eq f
  omega

theorem makes_resolve (hopen : a.pipe.finding.isSome = true) : a.Makes f start x .resolve := by
  obtain ⟨rest, hfinding⟩ := Option.isSome_iff_exists.1 hopen
  have hphase := h.phase
  rw [hfinding] at hphase
  obtain ⟨hm, honly, hfound, k, hk, ht⟩ := hphase.search_inv
  obtain ⟨progress, v, hrun, hheard, hsought⟩ := run_search a.pipe honly hk a.world
  rw [hfound] at hsought
  have hafter {m : Once Nat Standing} {finding : Option (Program Standing)}
      (hphase : Phase f start x v m finding (a.moves none + 1))
      (hm : ∀ k, m.told.lookup k = a.pipe.resolution.told.lookup k ∧
        ((k, 0) ∈ a.pipe.resolution.waiting → (k, 0) ∈ m.waiting)) :
      (a.after .resolve { a.pipe with resolution := m, finding } v []).IsSound f start x :=
    { account := h.account
      action := h.action
      listener := h.listener
      phase := by simpa [Race.after, Move.call?] using hphase
      hush := by simpa [Race.after, Move.call?] using h.hush
      courses := fun n => by
        obtain ⟨hlookup, hwaiting⟩ := hm n
        simpa [Race.after, Move.call?, Move.givesUp] using
          (h.courses n).frame hlookup hwaiting Iff.rfl }
  have htake : (Move.take f a.pipe .resolve).run a.world =
      (pure (a.pipe.resolvedOn progress) : Program Pipe).run v := by
    rw [Move.take, resolve, hfinding]
    simp only [run_bind, hrun]
    cases progress <;> rfl
  cases hsought with
  | @paused rest j hj hpauses honly hrest =>
    refine ⟨_, v, [], htake, hheard, ?_⟩
    exact hafter (.inFlight hm honly hrest hpauses (by omega)) fun _ => ⟨rfl, id⟩
  | ended =>
    refine ⟨_, v, [], htake, hheard, ?_⟩
    rw [resolvedOn, hm.finish]
    exact hafter (.resolved { hm with endings := rfl } (by omega)) fun _ => ⟨rfl, id⟩

theorem makes_showing {rest : Program Value.Fields}
    (hopen : a.pipe.stage? n = some (.showing rest)) : a.Makes f start x (.advance n) := by
  obtain ⟨record, hcall⟩ := call_of_stage? hopen
  have hcourse := h.courses n
  rw [hcall] at hcourse
  obtain ⟨htold, hrest, ⟨k, hk, ht⟩, hc⟩ := hcourse.showing_inv
  obtain ⟨progress, v, news, hrun, hv, hheard, hturned⟩ := run_present a.pipe n hrest hk a.world
  have htake : Move.take f a.pipe (.advance n) = a.pipe.present n rest := by
    rw [Move.take, advance, hopen]
  refine ⟨_, v, news, htake ▸ hrun, hheard, ?_⟩
  refine h.after rfl (by simp [Move.givesUp]) hcall (fun _ _ => ⟨rfl, id⟩) (h.phase.alike hv) ?_
  rw [htold, List.append_nil]
  exact Course.of_turned hturned (by omega) hc

theorem makes_waiting {rest : Program (Option Value.Fields)} {record : Record} {u : World}
    (hcall : a.pipe.calls[n]? = some ⟨record, .checking rest⟩)
    (hblocked : start.blockedFields f record = .ok none) (hheard : u.heard = a.world.heard)
    (htake : (Move.take f a.pipe (.advance n)).run a.world = (a.pipe.inquire f n).run u)
    (finding : Option (Program Standing))
    (hfinding : (if a.pipe.resolution.held.isNone then some (a.pipe.standing f)
      else a.pipe.finding) = finding)
    (hget : a.pipe.resolution.get n = m) (hnone : m.told.lookup n = none)
    (hspares : Spares n a.pipe.resolution m) (hwaiting : (n, 0) ∈ m.waiting)
    (hphase : Phase f start x u m finding (a.moves none)) : a.Makes f start x (.advance n) := by
  have hcourse := h.courses n
  rw [hcall] at hcourse
  obtain ⟨htold, -, ⟨k, -, ht⟩, -, hc⟩ := hcourse.checking_inv
  refine ⟨{ a.pipe.setStage n .waiting with resolution := m, finding }, u, [], ?_, hheard, ?_⟩
  · have htoldTo : m.toldTo? n = none := hnone
    rw [htake, inquire, hget, hfinding, proceed_untold htoldTo]
    rfl
  · refine h.after rfl (by simp [Move.givesUp]) hcall hspares hphase ?_
    rw [htold, List.append_nil]
    exact .waiting hblocked (by omega) hwaiting hnone hc

theorem makes_inquiry {rest : Program (Option Value.Fields)} {record : Record} {u : World}
    (hcall : a.pipe.calls[n]? = some ⟨record, .checking rest⟩)
    (hblocked : start.blockedFields f record = .ok none)
    (hu : u.Alike a.world) (hheard : u.heard = a.world.heard)
    (htake : (Move.take f a.pipe (.advance n)).run a.world = (a.pipe.inquire f n).run u) :
    a.Makes f start x (.advance n) := by
  have hcourse := h.courses n
  rw [hcall] at hcourse
  obtain ⟨htold, -, ⟨k, -, ht⟩, hm, hc⟩ := hcourse.checking_inv
  -- the call starts the search, or joins it, or is told at once what it came to
  rcases (h.phase.alike hu).cases (n := n) with ⟨hidle, hmoves, hrun⟩ | ⟨hbegun, hjoined⟩ |
    ⟨hbegun, hknown⟩
  · have hstanding : a.pipe.standing f = start.standing f := by
      rw [standing, standing, h.account]
    refine h.makes_waiting hcall hblocked hheard htake (m := Once.get {} n)
      (some (start.standing f)) ?_ (by rw [hidle]) rfl ?_ List.mem_cons_self ?_
    · rw [hidle, hstanding]
      rfl
    · rw [hidle]
      exact fun _ _ => ⟨rfl, fun hk => absurd hk List.not_mem_nil⟩
    · rw [hmoves]
      exact .inFlight (begun_get n) (only_standing f start) hrun (pauses_standing f start)
        (Nat.le_refl 4)
  · refine h.makes_waiting hcall hblocked hheard htake a.pipe.finding ?_
      (hbegun.get_inFlight n) hm (spares_waiting _ n) (by simp) hjoined
    rw [hbegun.held]
    rfl
  · let p : Pipe := { a.pipe.setStage n .waiting with
      resolution := { a.pipe.resolution with told := a.pipe.resolution.told ++ [(n, .value x)] } }
    have hfinding : (if a.pipe.resolution.held.isNone then some (a.pipe.standing f)
        else a.pipe.finding) = a.pipe.finding := by
      rw [hbegun.held]
      rfl
    have hinquire : a.pipe.inquire f n = p.proceed f n := by
      rw [inquire, hbegun.get_resolved, hfinding]
      rfl
    have hwaiting : p.calls[n]? = some ⟨record, .waiting⟩ := getElem?_setStage_self hcall .waiting
    obtain ⟨progress, v, news, hrun, hv, hnews, hturned⟩ := run_told (f := f) (p := p) h.account
      h.action h.listener hwaiting (lookup_tell hm _) hblocked u
    refine ⟨_, v, news, (htake.trans (hinquire ▸ hrun)), hheard ▸ hnews, ?_⟩
    have hstages : p.setStage n (.ofProgress progress) =
        { a.pipe.setStage n (.ofProgress progress) with
          resolution :=
            { a.pipe.resolution with told := a.pipe.resolution.told ++ [(n, .value x)] } } := by
      rw [← setStage_setStage a.pipe n .waiting]
      rfl
    rw [hstages]
    refine h.after rfl (by simp [Move.givesUp]) hcall (spares_told _ n _)
      ((hknown _).alike hv) ?_
    rw [htold, List.append_nil]
    refine Course.of_turned hturned ?_ hc
    have hpatience := patience_eq f
    omega

theorem makes_checking {rest : Program (Option Value.Fields)}
    (hopen : a.pipe.stage? n = some (.checking rest)) : a.Makes f start x (.advance n) := by
  obtain ⟨record, hcall⟩ := call_of_stage? hopen
  have hcourse := h.courses n
  rw [hcall] at hcourse
  obtain ⟨htold, hrest, ⟨k, hk, ht⟩, hm, hc⟩ := hcourse.checking_inv
  obtain ⟨progress, v, news, hrun, hv, hheard, hturned⟩ := run_work a.pipe hrest hk a.world
  have htake : (Move.take f a.pipe (.advance n)).run a.world =
      (a.pipe.checkedOn f n progress).run v :=
    run_checking hopen hrun
  -- a call that ends with its blocks has nothing to tell
  have hends {y : Except Error Value.Fields} (hfields : start.fields f record (.ok x) = y)
      (hsaid : start.said f record x = []) (hnews : v.heard = a.world.heard)
      (htake : (Move.take f a.pipe (.advance n)).run a.world =
        (.ok (a.pipe.setStage n (.ended y)), v)) : a.Makes f start x (.advance n) := by
    refine ⟨_, v, [], htake, hnews, ?_⟩
    refine h.after rfl (by simp [Move.givesUp]) hcall (fun _ _ => ⟨rfl, id⟩) (h.phase.alike hv) ?_
    have hpatience := patience_eq f
    have hended : Course f start x n a.pipe.resolution a.cancelled
        (some ⟨record, .ended (start.fields f record (.ok x))⟩) (start.said f record x)
        (a.moves (some n) + 1) :=
      .ended (by omega) hc
    rw [hfields, hsaid] at hended
    rwa [htold]
  cases hturned with
  | paused hj hrest hpauses =>
    refine ⟨_, v, [], htake, hheard, ?_⟩
    refine h.after rfl (by simp [Move.givesUp]) hcall (fun _ _ => ⟨rfl, id⟩) (h.phase.alike hv) ?_
    rw [htold, List.append_nil]
    exact .checking hrest hpauses (by omega) hm hc
  | ended =>
    cases hblocked : start.blockedFields f record with
    | error e =>
      rw [hblocked] at htake
      refine hends ?_ ?_ hheard htake
      · rw [fields, hblocked]
        rfl
      · rw [said, visible, hblocked]
        rfl
    | ok shown =>
      rw [hblocked] at htake
      cases shown with
      | none => exact h.makes_inquiry hcall hblocked hv hheard htake
      | some visible =>
        obtain rfl := blockedFields_eq_some hblocked
        refine hends ?_ ?_ hheard htake
        · rw [fields, hblocked]
          rfl
        · rw [said, Pipe.visible, hblocked]
          exact notices_nil start record

theorem makes {move : Move} (hopen : move.isOpen a.pipe = true) : a.Makes f start x move := by
  cases move with
  | advance n =>
    change (a.pipe.stage? n).any Stage.isUnderWay = true at hopen
    obtain ⟨stage, hstage, hunderWay⟩ := (Option.any_eq_true _ _).1 hopen
    cases stage with
    | checking rest => exact h.makes_checking hstage
    | showing rest => exact h.makes_showing hstage
    | waiting => cases hunderWay
    | ended r => cases hunderWay
  | resolve => exact h.makes_resolve hopen
  | wake n =>
    rw [Move.isOpen, Bool.and_eq_true, Option.isNone_iff_eq_none] at hopen
    exact h.makes_wake (stage?_of_isWaiting hopen.1) hopen.2
  | cancel n => exact h.makes_cancel (stage?_of_isWaiting hopen)

end Race.IsSound

end Pipe

end AccessControl
