import AccessControl.Proofs.Pipe.Failing
import Mathlib.Data.List.Forall2

/-!
Pipes in two runs in which other failures strike at the same calls of the store. They go on side by
side: what is left of a resolution may differ in what failed, and the records show the same.
-/

namespace AccessControl

open Error (Shown)

namespace Program

variable {α β γ δ : Type} {R : Except Error α → Except Error β → Prop} {p : Program α}
  {p' : Program β}

inductive Paired (Q : α → β → Prop) : Except Error α → Except Error β → Prop where
  | value {a : α} {b : β} (h : Q a b) : Paired Q (.ok a) (.ok b)

theorem veiled_pair {Q : α → β → Prop} {a : α} {b : β} (h : Q a b) :
    Veiled (Paired Q) (pure a) (pure b) :=
  .done (.value h)

theorem Veiled.pair_bind {Q : α → β → Prop} {S : Except Error γ → Except Error δ → Prop}
    {f : α → Program γ} {f' : β → Program δ} (hp : Veiled (Paired Q) p p')
    (hf : ∀ a b, Q a b → Veiled S (f a) (f' b)) : Veiled S (p >>= f) (p' >>= f') := by
  refine hp.bind (fun a b h => ?_) fun _ _ h => nomatch h
  cases h with
  | value h => exact hf a b h

inductive Abreast (R : Except Error α → Except Error β → Prop) :
    Progress α → Progress β → Prop where
  | paused {rest : Program α} {rest' : Program β} (h : Veiled R rest rest') :
    Abreast R (.paused rest) (.paused rest')
  | ended {x : Except Error α} {y : Except Error β} (h : R x y) : Abreast R (.ended x) (.ended y)

theorem Veiled.turn (h : Veiled R p p') : Veiled (Paired (Abreast R)) p.turn p'.turn := by
  induction h with
  | done h => exact .done (.value (.ended h))
  | fail h => exact .done (.value (.ended h))
  | @ask e next next' he h ih =>
    cases e with
    | pause => exact .done (.value (.paused (h ())))
    | store => cases he
    | _ => exact .ask he ih
  | store _ ih => exact .store ih
  | record _ ih => exact .record ih

end Program

open Program

namespace Pipe

inductive Stage.Veiled : Stage → Stage → Prop where
  | checking {rest rest' : Program (Option Value.Fields)}
    (h : Program.Veiled (Shown fun _ => True) rest rest') :
    Veiled (.checking rest) (.checking rest')
  | waiting : Veiled .waiting .waiting
  | showing {rest rest' : Program Value.Fields}
    (h : Program.Veiled (Shown fun _ => True) rest rest') : Veiled (.showing rest) (.showing rest')
  | ended (y : Except Error Value.Fields) : Veiled (.ended y) (.ended y)

theorem Stage.Veiled.isUnderWay_eq {s s' : Stage} (h : s.Veiled s') :
    s.isUnderWay = s'.isUnderWay := by
  cases h <;> rfl

theorem Stage.Veiled.result?_eq {s s' : Stage} (h : s.Veiled s') : s.result? = s'.result? := by
  cases h <;> rfl

theorem Stage.veiled_ofProgress {x y : Progress Value.Fields}
    (h : Abreast (Shown fun _ => True) x y) : (ofProgress x).Veiled (ofProgress y) := by
  cases h with
  | paused h => exact .showing h
  | ended h =>
    rw [h.eq]
    exact .ended _

structure Call.Veiled (c c' : Call) : Prop where
  record : c.record = c'.record
  stage : c.stage.Veiled c'.stage

/-- Pipes that differ in nothing but what failed, if a resolution is under way. -/
structure Veiled (p p' : Pipe) : Prop where
  account : p.account = p'.account
  action : p.action = p'.action
  listener : p.listener = p'.listener
  resolution : p.resolution = p'.resolution
  finding : Option.Rel (Program.Veiled (Shown fun _ => True)) p.finding p'.finding
  calls : List.Forall₂ Call.Veiled p.calls p'.calls

variable {f : Filter} {p p' : Pipe} {n : Nat}

namespace Veiled

theorem search (h : p.Veiled p') : p.finding = none ∧ p'.finding = none ∨
    ∃ rest rest', p.finding = some rest ∧ p'.finding = some rest' ∧
      Program.Veiled (Shown fun _ => True) rest rest' := by
  have hfinding := h.finding
  revert hfinding
  cases p.finding <;> cases p'.finding <;> rintro ⟨_⟩
  · exact .inl ⟨rfl, rfl⟩
  · exact .inr ⟨_, _, rfl, rfl, ‹_›⟩

theorem call (h : p.Veiled p') (n : Nat) : p.calls[n]? = none ∧ p'.calls[n]? = none ∨
    ∃ c c', p.calls[n]? = some c ∧ p'.calls[n]? = some c' ∧ c.Veiled c' := by
  have hcalls := h.calls
  generalize p.calls = cs at hcalls
  generalize p'.calls = cs' at hcalls
  induction hcalls generalizing n with
  | nil => exact .inl ⟨rfl, rfl⟩
  | cons h _ ih =>
    cases n with
    | zero => exact .inr ⟨_, _, rfl, rfl, h⟩
    | succ n => exact ih n

theorem setStage (h : p.Veiled p') {stage stage' : Stage} (hstage : stage.Veiled stage') :
    (p.setStage n stage).Veiled (p'.setStage n stage') := by
  refine { h with calls := ?_ }
  have hcalls := h.calls
  change List.Forall₂ _ (p.calls.modify n _) (p'.calls.modify n _)
  generalize p.calls = cs at hcalls
  generalize p'.calls = cs' at hcalls
  induction hcalls generalizing n with
  | nil =>
    rw [List.modify_nil, List.modify_nil]
    exact .nil
  | cons hc hcs ih =>
    cases n with
    | zero => exact .cons ⟨hc.record, hstage⟩ hcs
    | succ n => exact .cons hc ih

theorem callTurns (h : p.Veiled p') (n : Nat) : p.callTurns n = p'.callTurns n := by
  have hunder : p.isUnderWay n = p'.isUnderWay n := by
    rw [isUnderWay, isUnderWay, stage?, stage?]
    rcases h.call n with ⟨hc, hc'⟩ | ⟨c, c', hc, hc', hveiled⟩
    · rw [hc, hc']
    · rw [hc, hc']
      exact hveiled.stage.isUnderWay_eq
  rw [Pipe.callTurns, Pipe.callTurns, hunder]

theorem isSome_finding (h : p.Veiled p') : p.finding.isSome = p'.finding.isSome := by
  rcases h.search with ⟨hp, hp'⟩ | ⟨_, _, hp, hp', -⟩
  · rw [hp, hp']
  · rw [hp, hp']
    rfl

theorem arrive (h : p.Veiled p') (record : Record) :
    (p.arrive f record).Veiled (p'.arrive f record) := by
  refine { h with calls := List.rel_append h.calls (.cons ⟨rfl, .checking ?_⟩ .nil) }
  rw [blocked?_congr h.account h.action]
  exact closed_veiled.blocked? p' record

theorem arriveAll (h : p.Veiled p') (records : List Record) :
    (records.foldl (Pipe.arrive f) p).Veiled (records.foldl (Pipe.arrive f) p') := by
  induction records generalizing p p' with
  | nil => exact h
  | cons record records ih => exact ih (h.arrive record)

/-! The turns. -/

variable (h : p.Veiled p')

include h

theorem work {α : Type} {R : Except Error α → Except Error α → Prop} {q q' : Program α}
    (hq : Program.Veiled R q q') : Program.Veiled (Paired (Abreast R)) (p.work q) (p'.work q') := by
  rw [Pipe.work, Pipe.work, h.account]
  exact hq.turn.within _

theorem present {q q' : Program Value.Fields} (hq : Program.Veiled (Shown fun _ => True) q q') :
    Program.Veiled (Paired Veiled) (p.present n q) (p'.present n q') :=
  (h.work hq).pair_bind fun _ _ hprogress =>
    veiled_pair (h.setStage (Stage.veiled_ofProgress hprogress))

theorem proceed (n : Nat) : Program.Veiled (Paired Veiled) (p.proceed f n) (p'.proceed f n) := by
  rw [Pipe.proceed, Pipe.proceed, h.resolution]
  rcases h.call n with ⟨hc, hc'⟩ | ⟨⟨record, stage⟩, ⟨_, stage'⟩, hc, hc', ⟨rfl, hstage⟩⟩
  · rw [hc, hc']
    exact veiled_pair h
  · rw [hc, hc']
    cases hstage with
    | checking | showing | ended => exact veiled_pair h
    | waiting =>
      cases p'.resolution.toldTo? n with
      | none => exact veiled_pair h
      | some ending =>
        refine h.present ?_
        rw [conclude_congr h.account h.action h.listener]
        exact closed_veiled.conclude p' record ending

theorem inquire (n : Nat) : Program.Veiled (Paired Veiled) (p.inquire f n) (p'.inquire f n) := by
  have hget : Veiled
      { p.setStage n .waiting with
        resolution := p.resolution.get n
        finding := if p.resolution.held.isNone then some (p.standing f) else p.finding }
      { p'.setStage n .waiting with
        resolution := p'.resolution.get n
        finding := if p'.resolution.held.isNone then some (p'.standing f) else p'.finding } := by
    refine { h.setStage .waiting with
      resolution := congrArg (Once.get · n) h.resolution
      finding := ?_ }
    -- a resolution that starts now is the same in both runs
    rw [h.resolution, standing_congr h.account]
    split
    · exact .some (closed_veiled.standing ((Grants.veiled_sealed _ _).mono fun _ _ h =>
        h.mono fun _ _ => trivial))
    · exact h.finding
  exact hget.proceed n

theorem advance (n : Nat) : Program.Veiled (Paired Veiled) (p.advance f n) (p'.advance f n) := by
  rw [Pipe.advance, Pipe.advance, stage?, stage?]
  rcases h.call n with ⟨hc, hc'⟩ | ⟨⟨record, stage⟩, ⟨_, stage'⟩, hc, hc', ⟨rfl, hstage⟩⟩
  · rw [hc, hc']
    exact veiled_pair h
  · rw [hc, hc']
    cases hstage with
    | waiting | ended => exact veiled_pair h
    | showing hrest => exact h.present hrest
    | checking hrest =>
      refine (h.work hrest).pair_bind fun _ _ hprogress => ?_
      cases hprogress with
      | paused hrest => exact veiled_pair (h.setStage (.checking hrest))
      | @ended x y hxy =>
        obtain rfl := hxy.eq
        rcases x with e | _ | visible
        · exact veiled_pair (h.setStage (.ended _))
        · exact h.inquire n
        · exact veiled_pair (h.setStage (.ended _))

theorem resolve : Program.Veiled (Paired Veiled) p.resolve p'.resolve := by
  rw [Pipe.resolve, Pipe.resolve]
  rcases h.search with ⟨hp, hp'⟩ | ⟨rest, rest', hp, hp', hrest⟩
  · rw [hp, hp']
    exact veiled_pair h
  · rw [hp, hp']
    refine (h.work hrest).pair_bind fun _ _ hprogress => ?_
    cases hprogress with
    | paused hrest => exact veiled_pair { h with finding := .some hrest }
    | @ended x y hxy =>
      obtain rfl := hxy.eq
      exact veiled_pair { h with
        finding := .none
        resolution := congrArg (Once.finish · (.ofExcept x)) h.resolution }

def Queued (r r' : Pipe × List Turn) : Prop :=
  r.1.Veiled r'.1 ∧ r.2 = r'.2

theorem take (turn : Turn) : Program.Veiled (Paired Queued) (p.take f turn) (p'.take f turn) := by
  cases turn with
  | call n =>
    refine (h.advance n).pair_bind fun q q' hq => veiled_pair ⟨hq, ?_⟩
    change q.callTurns n ++ _ = q'.callTurns n ++ _
    rw [hq.callTurns, hq.isSome_finding, ← Option.not_isSome, ← Option.not_isSome, h.isSome_finding]
  | resolution =>
    refine h.resolve.pair_bind fun q q' hq => veiled_pair ⟨hq, ?_⟩
    change (if q.finding.isSome then _ else _) = if q'.finding.isSome then _ else _
    rw [hq.isSome_finding, hq.resolution]
  | notice n => exact veiled_pair ⟨h, rfl⟩
  | wake n =>
    have hwake : Veiled { p with resolution := p.resolution.wake n }
        { p' with resolution := p'.resolution.wake n } :=
      { h with resolution := congrArg (Once.wake · n) h.resolution }
    exact (hwake.proceed n).pair_bind fun q q' hq => veiled_pair ⟨hq, hq.callTurns n⟩

omit h in
theorem takeAll (limit : Nat) {p p' : Pipe} (h : p.Veiled p') (queue : List Turn) :
    Program.Veiled (Paired Veiled) (Pipe.takeAll f limit p queue)
      (Pipe.takeAll f limit p' queue) := by
  induction limit generalizing p p' queue with
  | zero => cases queue <;> exact veiled_pair h
  | succ limit ih =>
    cases queue with
    | nil => exact veiled_pair h
    | cons turn queue =>
      refine (h.take turn).pair_bind fun (q, next) (q', next') hq => ?_
      obtain ⟨hq, rfl⟩ := hq
      exact ih hq _

theorem feed (records : List Record) :
    Program.Veiled (Paired Veiled) (p.feed f records) (p'.feed f records) := by
  have harrive := h.arriveAll (f := f) records
  have hlimit : turnLimit f (records.foldl (Pipe.arrive f) p) =
      turnLimit f (records.foldl (Pipe.arrive f) p') := by
    rw [turnLimit, turnLimit, harrive.calls.length_eq]
  rw [Pipe.feed, Pipe.feed, hlimit, h.calls.length_eq]
  exact takeAll _ harrive _

omit h in
theorem serve {p p' : Pipe} (h : p.Veiled p') (records : List Record) :
    Program.Veiled (Paired Veiled) (p.serve f records) (p'.serve f records) := by
  induction records generalizing p p' with
  | nil => exact veiled_pair h
  | cons record records ih => exact (h.feed [record]).pair_bind fun _ _ hq => ih hq

end Veiled

theorem veiled_refl (account : Account) (action : String) (listener : Option Listener) :
    Veiled { account, action, listener } { account, action, listener } :=
  ⟨rfl, rfl, rfl, rfl, .none, .nil⟩

theorem Veiled.shows_eq (h : p.Veiled p') : p.shows = p'.shows := by
  have hcalls := h.calls
  rw [shows, shows]
  generalize p.calls = cs at hcalls
  generalize p'.calls = cs' at hcalls
  induction hcalls with
  | nil => rfl
  | cons hc _ ih => rw [List.map_cons, List.map_cons, hc.record, hc.stage.result?_eq, ih]

theorem veiled_results (f : Filter) (account : Account) (action : String)
    (listener : Option Listener) (records : List Record) :
    Program.Veiled (Shown fun _ => True) (results f { account, action, listener } records)
      (results f { account, action, listener } records) := by
  refine ((veiled_refl account action listener).serve records).pair_bind fun q q' hq => ?_
  have hresults : q.calls.map (·.stage.result?) = q'.calls.map (·.stage.result?) := by
    have h := congrArg (List.map Prod.snd) hq.shows_eq
    rwa [shows, shows, List.map_map, List.map_map] at h
  rw [hresults]
  exact .done (.value _)

end Pipe

end AccessControl
