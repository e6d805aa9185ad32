import AccessControl.Proofs.Decision.Composition
import AccessControl.Proofs.Pipe.Laws
import AccessControl.Proofs.Pipe.Pauses

/-!
A pipe that is fed one record after the other. Every call comes to its end within the turns that
there can be, and shows what follows from how the account stands.
-/

namespace AccessControl

open Program

variable {σ : Type} {ι : Interpreter σ} {I : σ → Prop}

namespace Pipe

variable {f : Filter} {p : Pipe} {n : Nat}

theorem stage?_setStage (hn : n < p.calls.length) (stage : Stage) :
    (p.setStage n stage).stage? n = some stage := by
  rw [stage?, setStage, List.getElem?_modify, List.getElem?_eq_getElem hn]
  simp

theorem length_setStage (p : Pipe) (n : Nat) (stage : Stage) :
    (p.setStage n stage).calls.length = p.calls.length :=
  List.length_modify ..

theorem setStage_setStage (p : Pipe) (n : Nat) (s t : Stage) :
    (p.setStage n s).setStage n t = p.setStage n t := by
  rw [setStage, setStage, setStage, List.modify_modify_eq]
  rfl

theorem callTurns_setStage (hn : n < p.calls.length) (stage : Stage) :
    (p.setStage n stage).callTurns n = if stage.isUnderWay then [.call n] else [] := by
  rw [callTurns, isUnderWay, stage?_setStage hn, Option.any_some]

/-! One turn of a queue that holds nothing else. -/

theorem takeAll_nil (limit : Nat) (p : Pipe) : takeAll f limit p [] = pure p := by
  cases limit <;> rfl

theorem takeAll_singleton (limit : Nat) (p : Pipe) (turn : Turn) :
    takeAll f (limit + 1) p [turn] =
      p.take f turn >>= fun (q, queue) => takeAll f limit q queue :=
  rfl

theorem take_showing {rest : Program Value.Fields} (h : p.stage? n = some (.showing rest)) :
    p.take f (.call n) = p.work rest >>= fun progress =>
      pure (p.setStage n (.ofProgress progress),
        (p.setStage n (.ofProgress progress)).callTurns n) := by
  rw [take, advance, h]
  simp only [present, bind_assoc, pure_bind]
  refine bind_congr fun progress => ?_
  have hstarted : (p.finding.isNone && (p.setStage n (.ofProgress progress)).finding.isSome) =
      false := by
    rw [setStage]
    cases p.finding <;> rfl
  rw [hstarted, if_neg Bool.false_ne_true, List.append_nil]

variable (hI : Inert ι I) (hne : ∃ s, I s)

include hI hne

theorem bind_work {α β : Type} {q : Program α} {T : Except Error α → Prop} {k : Nat}
    {g : Progress α → Program β} {R : Except Error β → Prop} (hq : q.Upholds ι I T)
    (hk : Pauses k q)
    (hpaused : ∀ rest m, m < k → rest.Upholds ι I T → Pauses m rest →
      (g (.paused rest)).Upholds ι I R)
    (hended : ∀ x, T x → (g (.ended x)).Upholds ι I R) : (p.work q >>= g).Upholds ι I R := by
  refine Upholds.bind (yields_work hI p (hk.turn.yields (hq.turn hne))) ?_ fun _ => False.elim
  rintro (rest | x) ⟨hreaches, hpauses⟩
  · obtain ⟨m, hm, hrest⟩ := hpauses rest rfl
    exact hpaused rest m hm hreaches hrest
  · exact hended x hreaches

theorem settles_presented {y : Except Error Value.Fields} {k : Nat} (limit : Nat) {p : Pipe}
    (hn : n < p.calls.length) {q : Program Value.Fields} (hq : Settles ι I q y) (hk : Pauses k q)
    (hlimit : k ≤ limit) :
    Settles ι I
      (p.work q >>= fun progress => takeAll f limit (p.setStage n (.ofProgress progress))
        ((p.setStage n (.ofProgress progress)).callTurns n))
      (.ok (p.setStage n (.ended y))) := by
  -- every turn leaves work that pauses less, so the limit is not reached
  induction limit generalizing k p q with
  | zero =>
    refine bind_work hI hne hq hk (fun rest m hm => by omega) ?_
    rintro _ rfl
    rw [Stage.ofProgress, callTurns_setStage hn]
    exact settles_pure
  | succ limit ih =>
    refine bind_work hI hne hq hk (fun rest m hm hrest hpauses => ?_) ?_
    · have hstage := stage?_setStage hn (.showing rest)
      rw [Stage.ofProgress, callTurns_setStage hn]
      change Settles ι I (takeAll f (limit + 1) _ [.call n]) _
      rw [takeAll_singleton, take_showing hstage]
      simp only [bind_assoc, pure_bind, setStage_setStage]
      have h := ih (p := p.setStage n (.showing rest)) (by rwa [length_setStage]) hrest hpauses
        (by omega)
      simp only [setStage_setStage] at h
      exact h
    · rintro _ rfl
      rw [Stage.ofProgress, callTurns_setStage hn]
      exact settles_pure

omit hI hne in
theorem take_resolution {rest : Program Standing} (h : p.finding = some rest) :
    p.take f .resolution = p.work rest >>= fun
      | .paused rest => pure ({ p with finding := some rest }, [.resolution])
      | .ended r =>
        let q := { p with finding := none, resolution := p.resolution.finish (.ofExcept r) }
        pure (q, q.resolution.waiting.map fun (n, _) => .notice n) := by
  rw [take, resolve, h]
  simp only [bind_assoc]
  refine bind_congr fun progress => ?_
  cases progress <;> rfl

theorem upholds_resolution {S : Except Error Standing → Prop} {k l : Nat} (limit : Nat) {p : Pipe}
    {rest : Program Standing} (hfinding : p.finding = some rest) (hrest : rest.Upholds ι I S)
    (hk : Pauses k rest) (hlimit : k + 1 + l ≤ limit) {R : Except Error Pipe → Prop}
    (hended : ∀ x, S x → ∀ m, l ≤ m → (takeAll f m
      { p with finding := none, resolution := p.resolution.finish (.ofExcept x) }
      ((p.resolution.finish (.ofExcept x)).waiting.map fun (n, _) => .notice n)).Upholds ι I R) :
    (takeAll f limit p [.resolution]).Upholds ι I R := by
  induction limit generalizing k p rest with
  | zero => omega
  | succ limit ih =>
    rw [takeAll_singleton, take_resolution hfinding, bind_assoc]
    refine bind_work hI hne hrest hk (fun rest m hm hrest hpauses => ?_) ?_
    · exact ih (p := { p with finding := some rest }) rfl hrest hpauses (by omega) hended
    · exact fun x hx => hended x hx limit (by omega)

omit hI hne in
theorem lookup_tell {told : List (Nat × Ending Standing)} (h : told.lookup n = none)
    (ending : Ending Standing) : (told ++ [(n, ending)]).lookup n = some ending := by
  rw [List.lookup_append, h, Option.none_or]
  simp

theorem settles_proceeded (limit : Nat) {record : Record} {ending : Ending Standing} {p : Pipe}
    (hcall : p.calls[n]? = some ⟨record, .waiting⟩) (htold : p.resolution.toldTo? n = some ending)
    (hlimit : Override.weight f.authority.policy.overrides.bypasses ≤ limit) :
    Settles ι I (p.proceed f n >>= fun q => takeAll f limit q (q.callTurns n))
      (.ok (p.setStage n (.ended (p.concludedFields f record ending.toExcept)))) := by
  obtain ⟨hn, -⟩ := List.getElem?_eq_some_iff.1 hcall
  rw [proceed, hcall, htold]
  simp only [present, bind_assoc, pure_bind]
  exact settles_presented hI hne limit hn (settles_conclude hI p record ending)
    (pauses_conclude f p record ending) hlimit

theorem settles_noticed (limit : Nat) {record : Record} {x : Except Error Standing} {c : Nat}
    {p : Pipe}
    (hcall : p.calls[n]? = some ⟨record, .waiting⟩) (hwaiting : p.resolution.waiting = [(n, c)])
    (hending : p.resolution.endings[c]? = some (.ofExcept x))
    (htold : p.resolution.told.lookup n = none)
    (hlimit : Override.weight f.authority.policy.overrides.bypasses + 2 ≤ limit) :
    Settles ι I (takeAll f limit p [.notice n])
      (.ok { p.setStage n (.ended (p.concludedFields f record x)) with
        resolution := Once.tell { p.resolution with waiting := [] } n c (.ofExcept x) }) := by
  obtain ⟨limit, rfl⟩ : ∃ l, limit = l + 2 := ⟨limit - 2, by omega⟩
  have hwake : p.resolution.wake n =
      Once.tell { p.resolution with waiting := [] } n c (.ofExcept x) := by
    rw [Once.wake, hwaiting]
    simp [Once.ending?, hending]
  have htoldTo : (p.resolution.wake n).toldTo? n = some (.ofExcept x) := by
    rw [hwake]
    exact lookup_tell htold _
  have hexcept : (Ending.ofExcept x).toExcept = x := by cases x <;> rfl
  have h := settles_proceeded hI hne limit (f := f)
    (p := { p with resolution := p.resolution.wake n }) hcall htoldTo (by omega)
  rw [hexcept, hwake] at h
  have htake : takeAll f (limit + 2) p [.notice n] =
      proceed f { p with resolution := p.resolution.wake n } n >>= fun q =>
        takeAll f limit q (q.callTurns n) := by
    change (takeAll f (limit + 1) p [.wake n]) = _
    rw [takeAll_singleton, take, bind_assoc]
    rfl
  rw [htake, hwake]
  exact h

omit hI hne in
theorem inquire_setStage (p : Pipe) (stage : Stage) :
    (p.setStage n stage).inquire f n = p.inquire f n := by
  simp only [inquire, setStage_setStage]
  rfl

omit hI hne in
theorem take_checking {rest : Program (Option Value.Fields)}
    (h : p.stage? n = some (.checking rest)) (hn : n < p.calls.length)
    (hfinding : p.finding = none) :
    p.take f (.call n) = p.work rest >>= fun
      | .paused rest => pure (p.setStage n (.checking rest), [.call n])
      | .ended (.ok none) => p.inquire f n >>= fun q =>
        pure (q, q.callTurns n ++ if q.finding.isSome then [.resolution] else [])
      | .ended (.ok (some visible)) => pure (p.setStage n (.ended (.ok visible)), [])
      | .ended (.error e) => pure (p.setStage n (.ended (.error e)), []) := by
  have hidle (stage : Stage) : (p.setStage n stage).finding = none := hfinding
  rw [take, advance, h]
  simp only [bind_assoc, hfinding, Option.isNone_none, Bool.true_and]
  refine bind_congr fun progress => ?_
  rcases progress with rest | e | _ | visible
  · simp only [pure_bind, callTurns_setStage hn, hidle]
    rfl
  · simp only [pure_bind, callTurns_setStage hn, hidle]
    rfl
  · rfl
  · simp only [pure_bind, callTurns_setStage hn, hidle]
    rfl

def checked (f : Filter) (n limit : Nat) (p : Pipe) :
    Except Error (Option Value.Fields) → Program Pipe
  | .ok none => p.inquire f n >>= fun q =>
    takeAll f limit q (q.callTurns n ++ if q.finding.isSome then [.resolution] else [])
  | .ok (some visible) => pure (p.setStage n (.ended (.ok visible)))
  | .error e => pure (p.setStage n (.ended (.error e)))

theorem upholds_checking {z : Except Error (Option Value.Fields)} {k l : Nat} (limit : Nat)
    {p : Pipe} {rest : Program (Option Value.Fields)} (h : p.stage? n = some (.checking rest))
    (hn : n < p.calls.length) (hfinding : p.finding = none) (hrest : Settles ι I rest z)
    (hk : Pauses k rest) (hlimit : k + 1 + l ≤ limit) {R : Except Error Pipe → Prop}
    (hended : ∀ m, l ≤ m → (checked f n m p z).Upholds ι I R) :
    (takeAll f limit p [.call n]).Upholds ι I R := by
  induction limit generalizing k p rest with
  | zero => omega
  | succ limit ih =>
    rw [takeAll_singleton, take_checking h hn hfinding, bind_assoc]
    refine bind_work hI hne hrest hk (fun rest m hm hrest hpauses => ?_) ?_
    · refine ih (p := p.setStage n (.checking rest)) (stage?_setStage hn _)
        (by rwa [length_setStage]) hfinding hrest hpauses (by omega) fun m hm => ?_
      -- the stage in which the call stood makes no difference to what it goes on with
      have hsame : checked f n m (p.setStage n (.checking rest)) z = checked f n m p z := by
        rcases z with e | _ | visible
        · rw [checked, checked, setStage_setStage]
        · rw [checked, checked, inquire_setStage]
        · rw [checked, checked, setStage_setStage]
      rw [hsame]
      exact hended m hm
    · intro x hx
      have hgo := hended limit (by omega)
      rw [← hx] at hgo
      rcases x with e | _ | visible
      · rw [checked] at hgo
        simp only [pure_bind, takeAll_nil]
        exact hgo
      · rw [checked] at hgo
        simp only [bind_assoc, pure_bind]
        exact hgo
      · rw [checked] at hgo
        simp only [pure_bind, takeAll_nil]
        exact hgo

omit hI hne

def begun (m : Once Nat Standing) (caller : Nat) : Once Nat Standing :=
  { m with calls := m.calls + 1, held := some m.calls, waiting := [(caller, m.calls)] }

def found (m : Once Nat Standing) (caller : Nat) (ending : Ending Standing) : Once Nat Standing :=
  Once.tell { begun m caller with endings := m.endings ++ [ending], waiting := [] } caller m.calls
    ending

/-- Nothing is under way, and the calls from a number on have not been told anything. What is held
is as it should be. -/
structure IsReady (S : Except Error Standing → Prop) (n : Nat) (p : Pipe) : Prop where
  finding : p.finding = none
  waiting : p.resolution.waiting = []
  endings : p.resolution.endings.length = p.resolution.calls
  held : ∀ m, p.resolution.held = some m →
    ∃ standing, S (.ok standing) ∧ p.resolution.endings[m]? = some (.value standing)
  told : ∀ m, n ≤ m → p.resolution.told.lookup m = none

structure Answers (S : Except Error Standing → Prop) (n : Nat) (y : Except Error Value.Fields)
    (p q : Pipe) : Prop where
  ready : q.IsReady S (n + 1)
  calls : q.calls = (p.setStage n (.ended y)).calls
  account : q.account = p.account
  action : q.action = p.action
  listener : q.listener = p.listener

variable {S : Except Error Standing → Prop} {x : Except Error Standing} {record : Record}

theorem lookup_told {told : List (Nat × Ending Standing)} {ending : Ending Standing}
    (h : ∀ m, n ≤ m → told.lookup m = none) {m : Nat} (hm : n + 1 ≤ m) :
    (told ++ [(n, ending)]).lookup m = none := by
  have hne : (m == n) = false := beq_false_of_ne (by omega)
  rw [List.lookup_append, h m (by omega), Option.none_or, List.lookup_cons, hne]
  rfl

theorem IsReady.answers_ended (h : p.IsReady S n) (y : Except Error Value.Fields) :
    Answers S n y p (p.setStage n (.ended y)) where
  ready := { h with told := fun m hm => h.told m (by omega) }
  calls := rfl
  account := rfl
  action := rfl
  listener := rfl

theorem IsReady.answers_held (h : p.IsReady S n) (c : Nat) (standing : Standing)
    (y : Except Error Value.Fields) :
    Answers S n y p { p.setStage n (.ended y) with
      finding := none
      resolution := p.resolution.tell n c (.value standing) } where
  ready :=
    { finding := rfl
      waiting := h.waiting
      endings := h.endings
      held := h.held
      told := fun _ hm => lookup_told h.told hm }
  calls := rfl
  account := rfl
  action := rfl
  listener := rfl

theorem IsReady.answers_started (h : p.IsReady S n) (hx : S x) (y : Except Error Value.Fields) :
    Answers S n y p { p.setStage n (.ended y) with
      finding := none
      resolution := found p.resolution n (.ofExcept x) } where
  ready :=
    { finding := rfl
      waiting := rfl
      endings := by
        change (p.resolution.endings ++ [_]).length = p.resolution.calls + 1
        rw [List.length_append, h.endings]
        rfl
      held := by
        intro m hm
        cases x with
        | error e =>
          have hnone : (none : Option Nat) = some m := by
            rw [← hm]
            exact (if_pos rfl).symm
          cases hnone
        | ok standing =>
          obtain rfl := Option.some.inj hm
          refine ⟨standing, hx, ?_⟩
          change (p.resolution.endings ++ [_])[p.resolution.calls]? = _
          rw [← h.endings]
          exact List.getElem?_concat_length
      told := fun m hm => lookup_told h.told hm }
  calls := rfl
  account := rfl
  action := rfl
  listener := rfl

include hI hne

theorem settles_told (limit : Nat) {ending : Ending Standing} {p : Pipe}
    (hcall : p.calls[n]? = some ⟨record, .waiting⟩) (htold : p.resolution.toldTo? n = some ending)
    (hfinding : p.finding = none)
    (hlimit : Override.weight f.authority.policy.overrides.bypasses ≤ limit) :
    Settles ι I
      (p.proceed f n >>= fun q =>
        takeAll f limit q (q.callTurns n ++ if q.finding.isSome then [.resolution] else []))
      (.ok (p.setStage n (.ended (p.concludedFields f record ending.toExcept)))) := by
  obtain ⟨hn, -⟩ := List.getElem?_eq_some_iff.1 hcall
  have hidle (stage : Stage) : (p.setStage n stage).finding.isSome = false := by
    rw [setStage, hfinding]
    rfl
  rw [proceed, hcall, htold]
  simp only [present, bind_assoc, pure_bind, hidle, if_neg Bool.false_ne_true, List.append_nil]
  exact settles_presented hI hne limit hn (settles_conclude hI p record ending)
    (pauses_conclude f p record ending) hlimit

theorem settles_joined {c limit : Nat} {standing : Standing}
    (hcall : (p.setStage n .waiting).calls[n]? = some ⟨record, .waiting⟩) (h : p.IsReady S n)
    (hheld : p.resolution.held = some c)
    (hending : p.resolution.endings[c]? = some (.value standing))
    (hlimit : Override.weight f.authority.policy.overrides.bypasses ≤ limit) :
    Settles ι I
      (p.inquire f n >>= fun q =>
        takeAll f limit q (q.callTurns n ++ if q.finding.isSome then [.resolution] else []))
      (.ok { p.setStage n (.ended (p.concludedFields f record (.ok standing))) with
        finding := none
        resolution := p.resolution.tell n c (.value standing) }) := by
  have hget : p.resolution.get n = p.resolution.tell n c (.value standing) := by
    rw [Once.get, hheld]
    simp [Once.join, Once.ending?, hending]
  have hfinding : (if p.resolution.held.isNone then some (p.standing f) else p.finding) = none := by
    rw [hheld, h.finding]
    rfl
  have htold := settles_told hI hne limit (f := f)
    (p := { p.setStage n .waiting with
      finding := none
      resolution := p.resolution.tell n c (.value standing) })
    hcall (lookup_tell (h.told n (Nat.le_refl n)) _) rfl hlimit
  have hsame := congrArg (fun q : Pipe => { q with
    finding := none
    resolution := p.resolution.tell n c (.value standing) })
    (setStage_setStage p n .waiting (.ended (p.concludedFields f record (.ok standing))))
  rw [inquire, hfinding, hget]
  exact hsame ▸ htold

theorem upholds_started {limit : Nat}
    (hcall : (p.setStage n .waiting).calls[n]? = some ⟨record, .waiting⟩) (h : p.IsReady S n)
    (hheld : p.resolution.held = none) (hstanding : (p.standing f).Upholds ι I S)
    (hlimit : Override.weight f.authority.policy.overrides.bypasses + 7 ≤ limit) :
    (p.inquire f n >>= fun q =>
      takeAll f limit q (q.callTurns n ++ if q.finding.isSome then [.resolution] else [])).Upholds
        ι I fun r => ∃ x, S x ∧
          r = .ok { p.setStage n (.ended (p.concludedFields f record x)) with
            finding := none
            resolution := found p.resolution n (.ofExcept x) } := by
  obtain ⟨hn, -⟩ := List.getElem?_eq_some_iff.1 hcall
  rw [length_setStage] at hn
  have hget : p.resolution.get n = begun p.resolution n := by
    rw [Once.get, hheld]
    simp [Once.join, Once.ending?, begun, ← h.endings, h.waiting]
  have hfinding : (if p.resolution.held.isNone then some (p.standing f) else p.finding) =
      some (p.standing f) := by
    rw [hheld]
    rfl
  have hfinish (x : Except Error Standing) : (begun p.resolution n).finish (.ofExcept x) =
      { begun p.resolution n with endings := p.resolution.endings ++ [.ofExcept x] } := by
    simp [Once.finish, Once.inFlight, Once.ending?, begun, ← h.endings]
  have htold : (begun p.resolution n).toldTo? n = none := h.told n (Nat.le_refl n)
  have hinquire : p.inquire f n = pure { p.setStage n .waiting with
      finding := some (p.standing f)
      resolution := begun p.resolution n } := by
    rw [inquire, hfinding, hget, proceed]
    simp only [hcall, htold]
  have hturns : callTurns { p.setStage n .waiting with
      finding := some (p.standing f)
      resolution := begun p.resolution n } n = [] := callTurns_setStage hn .waiting
  rw [hinquire, pure_bind, hturns]
  -- nobody else is under way: the resolution ends, and its notice goes to this call
  refine upholds_resolution hI hne (l := Override.weight f.authority.policy.overrides.bypasses + 2)
    limit rfl hstanding (pauses_standing f p) (by omega) fun x hx m hm => ?_
  have hending : (p.resolution.endings ++ [.ofExcept x])[p.resolution.calls]? =
      some (Ending.ofExcept x) := by
    rw [← h.endings]
    exact List.getElem?_concat_length
  have hnoticed := settles_noticed hI hne m (f := f) (x := x)
    (p := { p.setStage n .waiting with
      finding := none
      resolution := { begun p.resolution n with
        endings := p.resolution.endings ++ [.ofExcept x] } })
    hcall rfl hending (h.told n (Nat.le_refl n)) hm
  have hsame := congrArg (fun q : Pipe => { q with
    finding := none
    resolution := found p.resolution n (.ofExcept x) })
    (setStage_setStage p n .waiting (.ended (p.concludedFields f record x)))
  rw [hfinish]
  refine Upholds.mono hnoticed ?_
  rintro r rfl
  exact ⟨x, hx, congrArg Except.ok hsame⟩

theorem upholds_call (h : p.IsReady S n)
    (hcall : p.calls[n]? = some ⟨record, .checking (p.blocked? f record)⟩)
    (hstanding : (p.standing f).Upholds ι I S) {limit : Nat}
    (hlimit : f.authority.policy.overrides.predicates + 8 ≤ limit) :
    (takeAll f limit p [.call n]).Upholds ι I fun r =>
      ∃ x, S x ∧ ∃ q, r = .ok q ∧ Answers S n (p.fields f record x) p q := by
  obtain ⟨hn, -⟩ := List.getElem?_eq_some_iff.1 hcall
  obtain ⟨z, hz⟩ : ∃ z, S z := by
    obtain ⟨s, hs⟩ := hne
    exact ⟨_, (hstanding.run hs).1⟩
  have hstage : p.stage? n = some (.checking (p.blocked? f record)) := by
    rw [stage?, hcall]
    rfl
  rw [Overrides.predicates_eq] at hlimit
  refine upholds_checking hI hne (l := Override.weight f.authority.policy.overrides.bypasses + 7)
    limit hstage hn h.finding (settles_blocked? hI p record) (pauses_blocked? f p record)
    (by omega) fun m hm => ?_
  simp only [fields]
  -- a call that is blocked ends however the account stands
  rcases p.blockedFields f record with e | _ | visible
  · exact ⟨z, hz, _, rfl, h.answers_ended _⟩
  · have hwaiting (q : Pipe) (hq : q.calls = (p.setStage n .waiting).calls) :
        q.calls[n]? = some ⟨record, .waiting⟩ := by
      rw [hq, setStage, List.getElem?_modify, hcall]
      simp
    rw [checked]
    cases hheld : p.resolution.held with
    | some c =>
      obtain ⟨standing, hx, hending⟩ := h.held c hheld
      refine Upholds.mono (settles_joined hI hne (hwaiting _ rfl) h hheld hending (by omega)) ?_
      rintro r rfl
      exact ⟨.ok standing, hx, _, rfl, h.answers_held c standing _⟩
    | none =>
      refine Upholds.mono (upholds_started hI hne (hwaiting _ rfl) h hheld hstanding hm) ?_
      rintro r ⟨x, hx, rfl⟩
      exact ⟨x, hx, _, rfl, h.answers_started hx _⟩
  · exact ⟨z, hz, _, rfl, h.answers_ended _⟩

omit hI hne in
theorem setStage_arrive (f : Filter) (p : Pipe) (record : Record) (stage : Stage) :
    (p.arrive f record).setStage p.calls.length stage =
      { p with calls := p.calls ++ [⟨record, stage⟩] } := by
  rw [setStage, arrive, List.modify_eq_take_cons_drop (by simp)]
  simp

omit hI hne in
theorem limit_arrive (f : Filter) (p : Pipe) (record : Record) :
    f.authority.policy.overrides.predicates + 8 ≤ turnLimit f (p.arrive f record) := by
  rw [turnLimit, arrive, List.length_append]
  exact Nat.le_mul_of_pos_left _ (Nat.succ_pos _)

theorem upholds_feed (h : p.IsReady S p.calls.length) (hstanding : (p.standing f).Upholds ι I S)
    (record : Record) :
    (p.feed f [record]).Upholds ι I fun r =>
      ∃ x, S x ∧ ∃ q, r = .ok q ∧ q.IsReady S q.calls.length ∧
        q.calls = p.calls ++ [⟨record, .ended (p.fields f record x)⟩] ∧
        q.account = p.account ∧ q.action = p.action ∧ q.listener = p.listener := by
  have hready : (p.arrive f record).IsReady S p.calls.length := { h with }
  have hcall : (p.arrive f record).calls[p.calls.length]? =
      some ⟨record, .checking ((p.arrive f record).blocked? f record)⟩ :=
    List.getElem?_concat_length
  refine Upholds.mono (upholds_call hI hne hready hcall hstanding (limit_arrive f p record)) ?_
  rintro r ⟨x, hx, q, rfl, hq⟩
  have hcalls : q.calls = p.calls ++ [⟨record, .ended (p.fields f record x)⟩] := by
    rw [hq.calls, setStage_arrive]
    rfl
  refine ⟨x, hx, q, rfl, ?_, hcalls, hq.account, hq.action, hq.listener⟩
  rw [hcalls, List.length_append]
  exact hq.ready

/-- Records that come one after the other: each is answered before the next one comes. -/
def serve (f : Filter) : Pipe → List Record → Program Pipe
  | p, [] => return p
  | p, record :: records => do serve f (← p.feed f [record]) records

omit hne in
theorem yields_serve {start : Pipe} {L : Law ι I f start} (h : L.Holds p) (records : List Record) :
    Yields ι I False (p.serve f records) L.Holds := by
  induction records generalizing p with
  | nil => exact h
  | cons record records ih => exact (yields_feed hI h [record]).bind fun _ hq => ih hq

omit hI hne in
theorem fields_congr {q : Pipe} (haccount : q.account = p.account) (haction : q.action = p.action)
    (hlistener : q.listener = p.listener) (record : Record) :
    q.fields f record x = p.fields f record x := by
  have hrequest : q.request record = p.request record := by
    rw [request, request, haccount, haction]
  have hannounced : q.announced = p.announced := by
    funext visible
    rw [announced.eq_def, announced.eq_def, hlistener]
  rw [fields, fields, blockedFields, blockedFields, concludedFields, concludedFields, hrequest,
    hannounced]
  have hshown : q.shownFields f record = p.shownFields f record := by
    funext standing
    cases standing with
    | admin => rfl
    | grants s => rw [shownFields, shownFields, hrequest, haction]
  rw [hshown]

theorem upholds_serve (h : p.IsReady S p.calls.length) (hstanding : (p.standing f).Upholds ι I S)
    (records : List Record) :
    (p.serve f records).Upholds ι I fun r => ∃ q answers, r = .ok q ∧
      q.calls = p.calls ++ answers ∧ List.Forall₂ (fun record call => ∃ x, S x ∧
        call = ⟨record, .ended (p.fields f record x)⟩) records answers := by
  induction records generalizing p with
  | nil => exact ⟨p, [], rfl, (List.append_nil _).symm, .nil⟩
  | cons record records ih =>
    refine (upholds_feed hI hne h hstanding record).bind ?_ (by simp)
    rintro q ⟨x, hx, _, hok, hready, hcalls, haccount, haction, hlistener⟩
    obtain rfl := Except.ok.inj hok
    have hq : (q.standing f).Upholds ι I S := by
      rw [standing, haccount]
      exact hstanding
    refine Upholds.mono (ih hready hq) ?_
    rintro r ⟨q', answers, rfl, hcalls', hanswers⟩
    simp only [fields_congr haccount haction hlistener] at hanswers
    refine ⟨q', ⟨record, .ended (p.fields f record x)⟩ :: answers, rfl, ?_,
      .cons ⟨x, hx, rfl⟩ hanswers⟩
    rw [hcalls', hcalls, List.append_assoc]
    rfl

def results (f : Filter) (p : Pipe) (records : List Record) :
    Program (List (Option (Except Error Value.Fields))) := do
  return (← p.serve f records).calls.map (·.stage.result?)

omit hI hne in
theorem isReady_new (account : Account) (action : String) (listener : Option Listener) :
    IsReady S 0 { account, action, listener } where
  finding := rfl
  waiting := rfl
  endings := rfl
  held _ h := nomatch h
  told _ _ := rfl

omit hI hne in
theorem comes_standing {P : {α : Type} → Program α → Except Error α → Prop} (hP : Compositional P)
    {x : Except Error Snapshot} (hgrants : P (f.authority.grants.ofAccount p.account.id) x) :
    P (p.standing f) (f.authority.policy.privilege (some p.account) >>= fun
      | true => .ok .admin
      | false => x.map .grants) := by
  refine hP.bind (hP.fixed ((f.authority.policy.waits_admits (some p.account)).fixed rfl)) ?_
  rintro (_ | _) -
  · exact hP.map hgrants Standing.grants
  · exact hP.pure Standing.admin

/-- Every record shows what follows from how the account may be found to stand. -/
theorem upholds_results (account : Account) (action : String) (listener : Option Listener)
    (hstanding : (standing f { account, action, listener }).Upholds ι I S)
    (records : List Record) :
    (results f { account, action, listener } records).Upholds ι I fun r => ∃ ys,
      r = .ok (ys.map some) ∧ List.Forall₂ (fun record y => ∃ x, S x ∧
        y = fields f { account, action, listener } record x) records ys := by
  have hserve := upholds_serve hI hne (isReady_new account action listener) hstanding records
  refine hserve.bind (fun q hq => ?_) (by simp)
  obtain ⟨_, answers, hok, hcalls, hanswers⟩ := hq
  obtain rfl := Except.ok.inj hok
  rw [hcalls, List.nil_append]
  clear hcalls hserve
  induction hanswers with
  | nil => exact ⟨[], rfl, .nil⟩
  | cons h _ ih =>
    obtain ⟨x, hx, rfl⟩ := h
    obtain ⟨ys, hys, hrest⟩ := ih
    exact ⟨_ :: ys, congrArg (Except.map (some _ :: ·)) hys, .cons ⟨x, hx, rfl⟩ hrest⟩

theorem settles_results (account : Account) (action : String) (listener : Option Listener)
    (hstanding : Settles ι I (standing f { account, action, listener }) x) (records : List Record) :
    Settles ι I (results f { account, action, listener } records)
      (.ok (records.map fun record => some (fields f { account, action, listener } record x))) := by
  refine Upholds.mono (upholds_results hI hne account action listener hstanding records) ?_
  rintro r ⟨ys, rfl, hys⟩
  have heq : ys = records.map fun record => fields f { account, action, listener } record x := by
    refine (List.forall₂_eq_eq_eq ▸ List.forall₂_map_left_iff.2 (hys.imp ?_)).symm
    rintro record y ⟨_, rfl, rfl⟩
    rfl
  rw [heq, List.map_map]
  rfl

end Pipe

end AccessControl
