import AccessControl.Proofs.Pipe.Agreement
import AccessControl.Proofs.Pipe.Work
import Mathlib.Logic.Function.Basic

/-!
Races: records go through a pipe together. Calls come, go on, and are given up in any order, before,
during and after the resolution that they share. What holds of a pipe all the while.
-/

namespace AccessControl

open Program

namespace Pipe

/-! What can happen. -/

inductive Move where
  | advance (call : Nat)
  | resolve
  | wake (call : Nat)
  | cancel (call : Nat)

def isWaiting (p : Pipe) (call : Nat) : Bool :=
  match p.stage? call with
  | some .waiting => true
  | _ => false

namespace Move

def call? : Move → Option Nat
  | .advance n | .wake n | .cancel n => some n
  | .resolve => none

def take (f : Filter) (p : Pipe) : Move → Program Pipe
  | .advance n => p.advance f n
  | .resolve => p.resolve
  | .wake n => p.wake f n
  | .cancel n => p.cancel f n

/-- Whether it can come to a move. A call that waits can be given up, and wakes when the resolution
has ended. -/
def isOpen (p : Pipe) : Move → Bool
  | .advance n => p.isUnderWay n
  | .resolve => p.finding.isSome
  | .wake n => p.isWaiting n && p.finding.isNone
  | .cancel n => p.isWaiting n

def givesUp : Move → List Nat
  | .cancel n => [n]
  | _ => []

end Move

/-- A pipe in a world, and what has come of it so far. -/
structure Race where
  pipe : Pipe
  world : World
  /-- What the application was told in the moves of a call, the last first. -/
  told : Option Nat → List Notice
  moves : Option Nat → Nat
  cancelled : List Nat

def Race.after (a : Race) (move : Move) (pipe : Pipe) (world : World) (news : List Notice) :
    Race where
  pipe := pipe
  world := world
  told := Function.update a.told move.call? (news ++ a.told move.call?)
  moves := Function.update a.moves move.call? (a.moves move.call? + 1)
  cancelled := move.givesUp ++ a.cancelled

def Race.make (f : Filter) (a : Race) (move : Move) : Race :=
  match (move.take f a.pipe).run a.world with
  | (.ok q, v) => a.after move q v (v.heard.take (v.heard.length - a.world.heard.length))
  | (.error _, _) => a

/-- Whatever comes of a pipe: records arrive at any time, and moves are made in any order. Others
leave the store, the cache and the clock alone until it is known how the account stands, and do what
they like from then on. -/
inductive Raced (f : Filter) (start : Pipe) (w : World) : Race → Prop where
  | start : Raced f start w ⟨start, w, fun _ => [], fun _ => 0, []⟩
  | arrive {a : Race} (h : Raced f start w a) (record : Record) :
    Raced f start w { a with pipe := a.pipe.arrive f record }
  | move {a : Race} (h : Raced f start w a) {m : Move} (hm : m.isOpen a.pipe = true) {q : Pipe}
    {v : World} {news : List Notice} (hrun : (m.take f a.pipe).run a.world = (.ok q, v))
    (hnews : v.heard = news ++ a.world.heard) : Raced f start w (a.after m q v news)
  | meanwhile {a : Race} (h : Raced f start w a) {v : World}
    (hv : a.pipe.resolved = false → v.Alike a.world) : Raced f start w { a with world := v }

/-! The resolution that is shared. -/

structure Begun (m : Once Nat Standing) (endings : List (Ending Standing)) : Prop where
  calls : m.calls = 1
  held : m.held = some 0
  endings : m.endings = endings
  waiting : ∀ e ∈ m.waiting, e.2 = 0

section Once

variable {m : Once Nat Standing} {n : Nat} {x : Standing}

theorem begun_get (n : Nat) : Begun (({} : Once Nat Standing).get n) [] :=
  ⟨rfl, rfl, rfl, by simp [Once.get, Once.join, Once.ending?]⟩

theorem Begun.get_inFlight (h : Begun m []) (n : Nat) :
    m.get n = { m with waiting := m.waiting ++ [(n, 0)] } := by
  simp [Once.get, h.held, Once.join, Once.ending?, h.endings]

theorem Begun.get_resolved (h : Begun m [.value x]) (n : Nat) :
    m.get n = { m with told := m.told ++ [(n, .value x)] } := by
  simp [Once.get, h.held, Once.join, Once.ending?, h.endings, Once.tell]

theorem Begun.finish (h : Begun m []) (ending : Ending Standing) :
    m.finish ending = { m with endings := [ending] } := by
  simp [Once.finish, Once.inFlight, h.held, Once.ending?, h.endings]

def left (m : Once Nat Standing) (caller : Nat) (ending : Ending Standing) : Once Nat Standing :=
  { m with waiting := m.waiting.filter (·.1 ≠ caller), told := m.told ++ [(caller, ending)] }

theorem Begun.wake (h : Begun m [.value x]) (hn : (n, 0) ∈ m.waiting) :
    m.wake n = left m n (.value x) := by
  have hfind : m.waiting.find? (·.1 = n) = some (n, 0) := by
    cases hfind : m.waiting.find? (·.1 = n) with
    | none => exact absurd (List.find?_eq_none.1 hfind _ hn) (by simp)
    | some e =>
      have hcall : e.1 = n := by simpa using List.find?_some hfind
      have hnumber := h.waiting e (List.mem_of_find?_eq_some hfind)
      exact congrArg some (Prod.ext hcall hnumber)
  simp [Once.wake, hfind, Once.ending?, h.endings, Once.tell, left]

theorem cancel_waiting (hn : (n, 0) ∈ m.waiting) : m.cancel n = left m n .cancelled := by
  rw [Once.cancel, if_pos (List.any_eq_true.2 ⟨_, hn, by simp⟩)]
  rfl

def Spares (n : Nat) (m m' : Once Nat Standing) : Prop :=
  ∀ k, k ≠ n → m'.told.lookup k = m.told.lookup k ∧ ((k, 0) ∈ m.waiting → (k, 0) ∈ m'.waiting)

theorem lookup_append_ne {told : List (Nat × Ending Standing)} {k : Nat} (hk : k ≠ n)
    (ending : Ending Standing) : (told ++ [(n, ending)]).lookup k = told.lookup k := by
  have hne : (k == n) = false := by simpa using hk
  simp [List.lookup_append, List.lookup_cons, hne]

theorem spares_told (m : Once Nat Standing) (n : Nat) (ending : Ending Standing) :
    Spares n m { m with told := m.told ++ [(n, ending)] } :=
  fun _ hk => ⟨lookup_append_ne hk ending, id⟩

theorem spares_waiting (m : Once Nat Standing) (n : Nat) :
    Spares n m { m with waiting := m.waiting ++ [(n, 0)] } :=
  fun _ _ => ⟨rfl, fun h => List.mem_append_left _ h⟩

theorem spares_left (m : Once Nat Standing) (n : Nat) (ending : Ending Standing) :
    Spares n m (left m n ending) :=
  fun _ hk => ⟨lookup_append_ne hk ending, fun h => List.mem_filter.2 ⟨h, by simpa using hk⟩⟩

theorem Begun.left {endings : List (Ending Standing)} (h : Begun m endings) (n : Nat)
    (ending : Ending Standing) : Begun (left m n ending) endings :=
  { h with waiting := fun e he => h.waiting e (List.mem_of_mem_filter he) }

end Once

/-! What holds all along. -/

/-- How far the search for how the account stands has come, after so many moves. -/
inductive Phase (f : Filter) (start : Pipe) (x : Standing) (w : World) :
    Once Nat Standing → Option (Program Standing) → Nat → Prop where
  | idle (h : ((start.standing f).run w).1 = .ok x) : Phase f start x w {} none 0
  | inFlight {m : Once Nat Standing} {rest : Program Standing} {k t : Nat} (hm : Begun m [])
    (honly : Only Effect.isResolving rest) (hrun : (rest.run w).1 = .ok x) (hk : Pauses k rest)
    (ht : t + k ≤ 4) : Phase f start x w m (some rest) t
  | resolved {m : Once Nat Standing} {t : Nat} (hm : Begun m [.value x]) (ht : t ≤ 5) :
    Phase f start x w m none t

def said (f : Filter) (p : Pipe) (record : Record) (standing : Standing) : List Notice :=
  match p.visible f record standing with
  | .ok visible => p.notices record visible
  | .error _ => []

/-- The most moves that a call makes: one for each predicate, one to start and one to wake. -/
def patience (f : Filter) : Nat :=
  f.authority.policy.overrides.predicates + 2

theorem patience_eq (f : Filter) :
    patience f = Override.weight f.authority.policy.overrides.blocks +
      Override.weight f.authority.policy.overrides.bypasses + 2 := by
  rw [patience, Overrides.predicates_eq]

/-- How a call stands, with what was told and how many moves were made so far. -/
inductive Course (f : Filter) (start : Pipe) (x : Standing) (n : Nat) (m : Once Nat Standing)
    (cancelled : List Nat) : Option Call → List Notice → Nat → Prop where
  | absent (hm : m.told.lookup n = none) (hc : n ∉ cancelled) :
    Course f start x n m cancelled none [] 0
  | checking {record : Record} {rest : Program (Option Value.Fields)} {k t : Nat}
    (h : Utters [] rest (start.blockedFields f record)) (hk : Pauses k rest)
    (ht : t + k ≤ Override.weight f.authority.policy.overrides.blocks)
    (hm : m.told.lookup n = none) (hc : n ∉ cancelled) :
    Course f start x n m cancelled (some ⟨record, .checking rest⟩) [] t
  | waiting {record : Record} {t : Nat} (h : start.blockedFields f record = .ok none)
    (ht : t ≤ Override.weight f.authority.policy.overrides.blocks + 1) (hw : (n, 0) ∈ m.waiting)
    (hm : m.told.lookup n = none) (hc : n ∉ cancelled) :
    Course f start x n m cancelled (some ⟨record, .waiting⟩) [] t
  | showing {record : Record} {rest : Program Value.Fields} {k t : Nat}
    (h : Utters (start.said f record x) rest (start.fields f record (.ok x))) (hk : Pauses k rest)
    (ht : t + k < patience f) (hc : n ∉ cancelled) :
    Course f start x n m cancelled (some ⟨record, .showing rest⟩) [] t
  | ended {record : Record} {t : Nat} (ht : t ≤ patience f) (hc : n ∉ cancelled) :
    Course f start x n m cancelled (some ⟨record, .ended (start.fields f record (.ok x))⟩)
      (start.said f record x) t
  | cancelled {record : Record} {t : Nat} (ht : t ≤ patience f) (hc : n ∈ cancelled) :
    Course f start x n m cancelled (some ⟨record, .ended (.error .cancelled)⟩) [] t

structure Race.IsSound (f : Filter) (start : Pipe) (x : Standing) (a : Race) : Prop where
  account : a.pipe.account = start.account
  action : a.pipe.action = start.action
  listener : a.pipe.listener = start.listener
  phase : Phase f start x a.world a.pipe.resolution a.pipe.finding (a.moves none)
  courses : ∀ n, Course f start x n a.pipe.resolution a.cancelled a.pipe.calls[n]?
    (a.told (some n)) (a.moves (some n))
  hush : a.told none = []

section Sound

variable {f : Filter} {start : Pipe} {x : Standing} {n : Nat} {m m' : Once Nat Standing}
  {cancelled cancelled' : List Nat}

theorem Phase.alike {v w : World} {finding : Option (Program Standing)} {t : Nat}
    (h : Phase f start x w m finding t) (hv : v.Alike w) : Phase f start x v m finding t := by
  cases h with
  | idle h =>
    refine .idle ?_
    rw [← h]
    exact (only_standing f start).run_eq (fun _ he _ _ h => h.answer he) hv
  | inFlight hm honly hrun hk ht =>
    refine .inFlight hm honly ?_ hk ht
    rw [← hrun]
    exact honly.run_eq (fun _ he _ _ h => h.answer he) hv
  | resolved hm ht => exact .resolved hm ht

theorem Phase.of_resolved {v w : World} {finding : Option (Program Standing)} {t : Nat}
    (h : Phase f start x w m finding t) (hm : m.resolved = true) :
    Phase f start x v m finding t := by
  cases h with
  | idle => cases hm
  | inFlight h => simp [Once.resolved, Once.outcome?, h.held, Once.ending?, h.endings] at hm
  | resolved hm ht => exact .resolved hm ht

theorem Phase.left {w : World} {finding : Option (Program Standing)} {t : Nat}
    (h : Phase f start x w m finding t) (hn : (n, 0) ∈ m.waiting) (ending : Ending Standing) :
    Phase f start x w (left m n ending) finding t := by
  cases h with
  | idle => cases hn
  | inFlight hm honly hrun hk ht => exact .inFlight (hm.left n ending) honly hrun hk ht
  | resolved hm ht => exact .resolved (hm.left n ending) ht

theorem Phase.cases {w : World} {finding : Option (Program Standing)} {t : Nat}
    (h : Phase f start x w m finding t) :
    (m = {} ∧ t = 0 ∧ ((start.standing f).run w).1 = .ok x) ∨
      (Begun m [] ∧ Phase f start x w { m with waiting := m.waiting ++ [(n, 0)] } finding t) ∨
      Begun m [.value x] ∧ ∀ told, Phase f start x w { m with told } finding t := by
  cases h with
  | idle h => exact .inl ⟨rfl, rfl, h⟩
  | inFlight hm honly hrun hk ht =>
    refine .inr (.inl ⟨hm, .inFlight { hm with waiting := fun e he => ?_ } honly hrun hk ht⟩)
    rcases List.mem_append.1 he with he | he
    · exact hm.waiting e he
    · rw [List.mem_singleton.1 he]
  | resolved hm ht => exact .inr (.inr ⟨hm, fun told => .resolved { hm with } ht⟩)

theorem Phase.ended_inv {w : World} {t : Nat} (h : Phase f start x w m none t)
    (hn : (n, 0) ∈ m.waiting) : Begun m [.value x] := by
  cases h with
  | idle => cases hn
  | resolved hm => exact hm

theorem Phase.search_inv {w : World} {rest : Program Standing} {t : Nat}
    (h : Phase f start x w m (some rest) t) :
    Begun m [] ∧ Only Effect.isResolving rest ∧ (rest.run w).1 = .ok x ∧
      ∃ k, Pauses k rest ∧ t + k ≤ 4 := by
  cases h with
  | inFlight hm honly hrun hk ht => exact ⟨hm, honly, hrun, _, hk, ht⟩

theorem Phase.calls_le {w : World} {finding : Option (Program Standing)} {t : Nat}
    (h : Phase f start x w m finding t) : m.calls ≤ 1 := by
  cases h with
  | idle => exact Nat.zero_le _
  | inFlight hm => exact Nat.le_of_eq hm.calls
  | resolved hm => exact Nat.le_of_eq hm.calls

theorem Phase.moves_le {w : World} {finding : Option (Program Standing)} {t : Nat}
    (h : Phase f start x w m finding t) : t ≤ 5 := by
  cases h with
  | idle => exact Nat.zero_le _
  | inFlight _ _ _ _ ht => omega
  | resolved _ ht => exact ht

theorem Course.frame {call : Option Call} {told : List Notice} {t : Nat}
    (h : Course f start x n m cancelled call told t)
    (hlookup : m'.told.lookup n = m.told.lookup n)
    (hwaiting : (n, 0) ∈ m.waiting → (n, 0) ∈ m'.waiting) (hc : n ∈ cancelled' ↔ n ∈ cancelled) : Course f start x n m' cancelled' call told t := by
  cases h with
  | absent hm hn => exact .absent (hlookup.trans hm) (mt hc.1 hn)
  | checking h hk ht hm hn => exact .checking h hk ht (hlookup.trans hm) (mt hc.1 hn)
  | waiting h ht hw hm hn => exact .waiting h ht (hwaiting hw) (hlookup.trans hm) (mt hc.1 hn)
  | showing h hk ht hn => exact .showing h hk ht (mt hc.1 hn)
  | ended ht hn => exact .ended ht (mt hc.1 hn)
  | cancelled ht hn => exact .cancelled ht (hc.2 hn)

theorem Course.of_turned {record : Record} {progress : Progress Value.Fields} {news : List Notice}
    {k t : Nat}
    (h : Turned (start.said f record x) (start.fields f record (.ok x)) k progress news)
    (ht : t + k ≤ patience f) (hc : n ∉ cancelled) :
    Course f start x n m cancelled (some ⟨record, .ofProgress progress⟩) news t := by
  cases h with
  | paused hm hrest hpauses => exact .showing hrest hpauses (by omega) hc
  | ended => exact .ended (by omega) hc

theorem getElem?_setStage_self {p : Pipe} {call : Call} (h : p.calls[n]? = some call)
    (stage : Stage) : (p.setStage n stage).calls[n]? = some ⟨call.record, stage⟩ := by
  rw [setStage, List.getElem?_modify, h]
  simp

theorem getElem?_setStage_ne {p : Pipe} {k : Nat} (hk : k ≠ n) (stage : Stage) :
    (p.setStage n stage).calls[k]? = p.calls[k]? := by
  simp [setStage, hk.symm]

theorem Race.IsSound.after {a : Race} (h : a.IsSound f start x) {move : Move}
    (hmove : move.call? = some n) (hgives : ∀ k ∈ move.givesUp, k = n) {call : Call}
    (hcall : a.pipe.calls[n]? = some call) {stage : Stage} {finding : Option (Program Standing)}
    {v : World} {news : List Notice} (hm : Spares n a.pipe.resolution m)
    (hphase : Phase f start x v m finding (a.moves none))
    (hcourse : Course f start x n m (move.givesUp ++ a.cancelled) (some ⟨call.record, stage⟩)
      (news ++ a.told (some n)) (a.moves (some n) + 1)) :
    (a.after move { a.pipe.setStage n stage with resolution := m, finding } v news).IsSound
      f start x where
  account := h.account
  action := h.action
  listener := h.listener
  phase := by
    simp only [Race.after, hmove]
    rw [Function.update_of_ne (by simp)]
    exact hphase
  hush := by
    simp only [Race.after, hmove]
    rw [Function.update_of_ne (by simp)]
    exact h.hush
  courses k := by
    simp only [Race.after, hmove]
    by_cases hk : k = n
    · subst hk
      rw [Function.update_self, Function.update_self, getElem?_setStage_self hcall]
      exact hcourse
    · have hne : (some k : Option Nat) ≠ some n := fun h => hk (Option.some.inj h)
      rw [Function.update_of_ne hne, Function.update_of_ne hne, getElem?_setStage_ne hk]
      obtain ⟨hlookup, hwaiting⟩ := hm k hk
      refine (h.courses k).frame hlookup hwaiting ?_
      rw [List.mem_append]
      exact or_iff_right fun hgiven => hk (hgives k hgiven)

theorem Course.waiting_inv {record : Record} {told : List Notice} {t : Nat}
    (h : Course f start x n m cancelled (some ⟨record, .waiting⟩) told t) :
    told = [] ∧ start.blockedFields f record = .ok none ∧
      t ≤ Override.weight f.authority.policy.overrides.blocks + 1 ∧ (n, 0) ∈ m.waiting ∧
      m.told.lookup n = none ∧ n ∉ cancelled := by
  cases h with
  | waiting h ht hw hm hc => exact ⟨rfl, h, ht, hw, hm, hc⟩

theorem Course.absent_inv {told : List Notice} {t : Nat}
    (h : Course f start x n m cancelled none told t) :
    told = [] ∧ t = 0 ∧ m.told.lookup n = none ∧ n ∉ cancelled := by
  cases h with
  | absent hm hc => exact ⟨rfl, rfl, hm, hc⟩

theorem Course.ended_inv {record : Record} {r : Except Error Value.Fields} {told : List Notice}
    {t : Nat} (h : Course f start x n m cancelled (some ⟨record, .ended r⟩) told t)
    (hc : n ∉ cancelled) :
    r = start.fields f record (.ok x) ∧ told = start.said f record x := by
  cases h with
  | ended => exact ⟨rfl, rfl⟩
  | cancelled _ hn => exact absurd hn hc

theorem Course.cancelled_inv {record : Record} {r : Except Error Value.Fields} {told : List Notice}
    {t : Nat} (h : Course f start x n m cancelled (some ⟨record, .ended r⟩) told t)
    (hc : n ∈ cancelled) : r = .error .cancelled ∧ told = [] := by
  cases h with
  | ended _ hn => exact absurd hc hn
  | cancelled => exact ⟨rfl, rfl⟩

theorem Course.told_eq_nil {call : Option Call} {told : List Notice} {t : Nat}
    (h : Course f start x n m cancelled call told t)
    (hcall : ∀ c ∈ call, c.stage.result? = none) : told = [] := by
  cases h with
  | absent | checking | waiting | showing | cancelled => rfl
  | ended => cases hcall _ rfl

theorem Course.moves_le {call : Option Call} {told : List Notice} {t : Nat}
    (h : Course f start x n m cancelled call told t) : t ≤ patience f := by
  have hpatience := patience_eq f
  cases h with
  | absent => exact Nat.zero_le _
  | checking _ _ ht => omega
  | waiting _ ht => omega
  | showing _ _ ht => omega
  | ended ht => exact ht
  | cancelled ht => exact ht

theorem Course.checking_inv {record : Record} {rest : Program (Option Value.Fields)}
    {told : List Notice} {t : Nat}
    (h : Course f start x n m cancelled (some ⟨record, .checking rest⟩) told t) :
    told = [] ∧ Utters [] rest (start.blockedFields f record) ∧
      (∃ k, Pauses k rest ∧ t + k ≤ Override.weight f.authority.policy.overrides.blocks) ∧
      m.told.lookup n = none ∧ n ∉ cancelled := by
  cases h with
  | checking h hk ht hm hc => exact ⟨rfl, h, ⟨_, hk, ht⟩, hm, hc⟩

theorem Course.showing_inv {record : Record} {rest : Program Value.Fields} {told : List Notice}
    {t : Nat} (h : Course f start x n m cancelled (some ⟨record, .showing rest⟩) told t) :
    told = [] ∧ Utters (start.said f record x) rest (start.fields f record (.ok x)) ∧
      (∃ k, Pauses k rest ∧ t + k < patience f) ∧ n ∉ cancelled := by
  cases h with
  | showing h hk ht hc => exact ⟨rfl, h, ⟨_, hk, ht⟩, hc⟩

end Sound

end Pipe

end AccessControl
