import AccessControl.Proofs.Decision.Filtering
import AccessControl.Proofs.Pipe.Moves

/-!
Racing records: whatever the order is in which things happen to a pipe, a record shows what a batch
shows of it.
-/

namespace AccessControl

open Program

namespace Pipe

variable {f : Filter} {start : Pipe} {x : Standing} {n : Nat} {a : Race}

theorem Race.IsSound.arrive (h : a.IsSound f start x) (record : Record) :
    ({ a with pipe := a.pipe.arrive f record } : Race).IsSound f start x where
  account := h.account
  action := h.action
  listener := h.listener
  phase := h.phase
  hush := h.hush
  courses n := by
    have hcourse := h.courses n
    change Course f start x n a.pipe.resolution a.cancelled
      (a.pipe.calls ++ [⟨record, .checking (a.pipe.blocked? f record)⟩])[n]? _ _
    rcases Nat.lt_trichotomy n a.pipe.calls.length with hn | rfl | hn
    · rwa [List.getElem?_append_left hn]
    · rw [List.getElem?_eq_none (Nat.le_refl _)] at hcourse
      rw [List.getElem?_concat_length, blocked?_congr h.account h.action]
      obtain ⟨htold, hmoves, hm, hc⟩ := hcourse.absent_inv
      rw [htold, hmoves]
      exact .checking (fixed_blocked? f start record).utters (pauses_blocked? f start record)
        (Nat.le_of_eq (Nat.zero_add _)) hm hc
    · rw [List.getElem?_eq_none (Nat.le_of_lt hn)] at hcourse
      rwa [List.getElem?_eq_none (by simpa using Nat.succ_le_of_lt hn)]

theorem Race.IsSound.meanwhile (h : a.IsSound f start x) {v : World}
    (hv : a.pipe.resolved = false → v.Alike a.world) :
    ({ a with world := v } : Race).IsSound f start x := by
  refine { h with phase := ?_ }
  cases hresolved : a.pipe.resolved with
  | false => exact h.phase.alike (hv hresolved)
  | true => exact h.phase.of_resolved hresolved

theorem isOpen_of_result? {p : Pipe} {call : Call} (hcall : p.calls[n]? = some call)
    (hresult : call.stage.result? = none) :
    ∃ move ∈ [Move.advance n, .resolve, .wake n], move.isOpen p = true := by
  have hstage : p.stage? n = some call.stage := congrArg (Option.map Call.stage) hcall
  cases hcase : call.stage with
  | checking rest =>
    refine ⟨.advance n, List.mem_cons_self, ?_⟩
    change (p.stage? n).any Stage.isUnderWay = true
    rw [hstage, hcase]
    rfl
  | showing rest =>
    refine ⟨.advance n, List.mem_cons_self, ?_⟩
    change (p.stage? n).any Stage.isUnderWay = true
    rw [hstage, hcase]
    rfl
  | waiting =>
    rw [hcase] at hstage
    cases hfinding : p.finding with
    | none =>
      refine ⟨.wake n, by simp, ?_⟩
      rw [Move.isOpen, isWaiting, hstage, hfinding]
      rfl
    | some rest =>
      refine ⟨.resolve, by simp, ?_⟩
      rw [Move.isOpen, hfinding]
      rfl
  | ended r =>
    rw [hcase] at hresult
    cases hresult

theorem Raced.isSound {account : Account} {action : String} {listener : Option Listener} {w : World}
    (hx : ((standing f { account, action, listener }).run w).1 = .ok x) {a : Race}
    (h : Raced f { account, action, listener } w a) :
    a.IsSound f { account, action, listener } x := by
  induction h with
  | start =>
    exact {
      account := rfl
      action := rfl
      listener := rfl
      phase := .idle hx
      courses := fun n => .absent rfl List.not_mem_nil
      hush := rfl }
  | arrive _ record ih => exact ih.arrive record
  | move _ hm hrun hnews ih =>
    -- the move can be made with a sound result, and a move has one result only
    obtain ⟨q, v, news, hrun', hnews', hsound⟩ := ih.makes hm
    obtain ⟨hq, rfl⟩ := Prod.mk.inj (hrun'.symm.trans hrun)
    obtain rfl := Except.ok.inj hq
    obtain rfl := List.append_cancel_right (hnews'.symm.trans hnews)
    exact hsound
  | meanwhile _ hv ih => exact ih.meanwhile hv

theorem Raced.make {account : Account} {action : String} {listener : Option Listener} {w : World}
    (hx : ((standing f { account, action, listener }).run w).1 = .ok x) {a : Race}
    (h : Raced f { account, action, listener } w a) (move : Move)
    (hopen : move.isOpen a.pipe = true) :
    Raced f { account, action, listener } w (a.make f move) := by
  obtain ⟨q, v, news, hrun, hnews, -⟩ := (h.isSound hx).makes hopen
  have htaken : v.heard.take (v.heard.length - a.world.heard.length) = news := by
    rw [hnews, List.length_append, Nat.add_sub_cancel, List.take_left]
  rw [Race.make, hrun]
  exact h.move hopen hrun (htaken.symm ▸ hnews)

/-- Racing records. If it can be found out how an account stands, then whatever comes of a pipe: it
is looked up once at most. A call that ends without being given up shows what a batch of its record
shows at first, and the application is told once if that is anything; nothing is told of the other
calls. Whoever has not ended can go on, or what it waits for can, and no call makes more than so
many moves. -/
theorem racing (f : Filter) (account : Account) (action : Action) (listener : Option Listener)
    {w : World} {x : Standing}
    (hx : ((standing f { account, action := action.name, listener }).run w).1 = .ok x) {a : Race}
    (h : Raced f { account, action := action.name, listener } w a) :
    let start : Pipe := { account, action := action.name, listener }
    a.pipe.resolution.calls ≤ 1 ∧
      (∀ n record r, a.pipe.calls[n]? = some ⟨record, .ended r⟩ →
        (n ∉ a.cancelled →
          ∃ y, ((f.batch account [record] action).run w).1 = y.map (fun visible => [visible]) ∧
            r = (do
              let visible ← y
              start.announced visible
              return visible) ∧
            a.told (some n) = match y with
              | .ok visible => start.notices record visible
              | .error _ => []) ∧
        (n ∈ a.cancelled → r = .error .cancelled ∧ a.told (some n) = [])) ∧
      (∀ n, (∀ call ∈ a.pipe.calls[n]?, call.stage.result? = none) → a.told (some n) = []) ∧
      a.told none = [] ∧
      (∀ n call, a.pipe.calls[n]? = some call → call.stage.result? = none →
        ∃ move ∈ [Move.advance n, .resolve, .wake n], move.isOpen a.pipe = true) ∧
      (∀ move : Move, move.isOpen a.pipe = true → ∃ q v news,
        (move.take f a.pipe).run a.world = (.ok q, v) ∧ v.heard = news ++ a.world.heard) ∧
      a.moves none ≤ 5 ∧ ∀ n, a.moves (some n) ≤ patience f := by
  intro start
  have hsound := h.isSound hx
  refine ⟨hsound.phase.calls_le, fun n record r hcall => ?_, fun n hn => ?_, hsound.hush,
    fun n call hcall hresult => isOpen_of_result? hcall hresult, fun move hopen => ?_,
    hsound.phase.moves_le, fun n => (hsound.courses n).moves_le⟩
  · have hcourse := hsound.courses n
    rw [hcall] at hcourse
    refine ⟨fun hc => ?_, hcourse.cancelled_inv⟩
    obtain ⟨hr, htold⟩ := hcourse.ended_inv hc
    have haction : start.action = action.name := rfl
    exact ⟨start.visible f record x, run_batch haction hx record,
      hr.trans (fields_eq start record x), htold⟩
  · exact (hsound.courses n).told_eq_nil hn
  · obtain ⟨q, v, news, hrun, hnews, -⟩ := hsound.makes hopen
    exact ⟨q, v, news, hrun, hnews⟩

/-! Two calls race for the grants, and the second is given up. Then the store is emptied, and a
third call shows what the first one shows. -/

namespace Race

def reader : Filter :=
  ⟨⟨⟨{}, ⟨fun _ => .ok false, false⟩⟩, ⟨none⟩⟩, ⟨[⟨"note", ["body", "name"]⟩]⟩⟩

def readable : World :=
  { World.initial .error none { path := "" } with ledger := ⟨Filter.reading, .none⟩ }

def stream : Pipe := { account := { id := "ann" }, action := "read", listener := some {} }

def draft : Record :=
  ⟨"note", [("name", .text "draft"), ("body", .text "")], .texts ["t1"]⟩

def arrived (a : Race) : Race :=
  { a with pipe := a.pipe.arrive reader draft }

def joined : Race :=
  let a := arrived ⟨stream, readable, fun _ => [], fun _ => 0, []⟩
  let a := (arrived (a.make reader (.advance 0))).make reader (.advance 1)
  [.cancel 1, .resolve, .resolve, .resolve, .resolve].foldl (Race.make reader) a

def emptied : Race :=
  let a := { joined with world := { joined.world with ledger := ⟨.empty, .none⟩ } }
  (arrived (a.make reader (.wake 0))).make reader (.advance 2)

theorem run_stream : ((stream.standing reader).run readable).1 =
    .ok (.grants ⟨"ann", Filter.reading.grantsOf "ann"⟩) := by
  decide +kernel

theorem raced_joined : Raced reader stream readable joined := by
  have hfirst := (Raced.start.arrive draft).make run_stream (.advance 0) (by decide +kernel)
  have hboth := (hfirst.arrive draft).make run_stream (.advance 1) (by decide +kernel)
  have h := hboth.make run_stream (.cancel 1) (by decide +kernel)
  have h := h.make run_stream .resolve (by decide +kernel)
  have h := h.make run_stream .resolve (by decide +kernel)
  have h := h.make run_stream .resolve (by decide +kernel)
  exact h.make run_stream .resolve (by decide +kernel)

theorem raced_emptied : Raced reader stream readable emptied := by
  have hresolved : joined.pipe.resolved = true := by decide +kernel
  have h := raced_joined.meanwhile (v := { joined.world with ledger := ⟨.empty, .none⟩ })
    fun hnot => by
      rw [hresolved] at hnot
      cases hnot
  have hwoken := h.make run_stream (.wake 0) (by decide +kernel)
  exact (hwoken.arrive draft).make run_stream (.advance 2) (by decide +kernel)

end Race

theorem racing_of_emptied :
    Race.emptied.pipe.result? 2 = some (.ok [("name", .text "draft")]) ∧
      ((Race.reader.batch { id := "ann" } [Race.draft] (.field .read)).run Race.readable).1 =
        .ok [[("name", .text "draft")]] := by
  have hresult : Race.emptied.pipe.result? 2 = some (.ok [("name", .text "draft")]) := by
    decide +kernel
  have hrecord : (Race.emptied.pipe.calls[2]?.map fun call => (call.record.entityType,
      call.record.data, call.record.attributes)) =
        some (Race.draft.entityType, Race.draft.data, Race.draft.attributes) := by
    decide +kernel
  have hkept : 2 ∉ Race.emptied.cancelled := by decide +kernel
  refine ⟨hresult, ?_⟩
  obtain ⟨-, hcalls, -⟩ := racing Race.reader { id := "ann" } (.field .read) (some {})
    Race.run_stream Race.raced_emptied
  obtain ⟨⟨record, stage⟩, hcall, hfields⟩ := Option.map_eq_some_iff.1 hrecord
  obtain rfl : record = Race.draft := by
    cases record
    cases hfields
    rfl
  obtain ⟨_, hstage, hended⟩ := Option.bind_eq_some_iff.1 hresult
  rw [stage?, hcall] at hstage
  obtain rfl := Option.some.inj hstage
  cases stage with
  | ended r =>
    obtain rfl := Option.some.inj hended
    obtain ⟨y, hbatch, hr, -⟩ := (hcalls 2 _ _ hcall).1 hkept
    rw [hbatch]
    rcases y with e | _ | ⟨field, fields⟩
    · cases hr
    · cases hr
    · have hshown : [("name", .text "draft")] = field :: fields := Except.ok.inj hr
      rw [← hshown]
      rfl
  | _ => cases hended

end Pipe

end AccessControl
