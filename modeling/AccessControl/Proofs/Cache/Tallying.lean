import AccessControl.Proofs.Cache.Contents
import AccessControl.Proofs.Cache.Shapes
import AccessControl.Proofs.Program.Running

/-!
What the cache counts of its own use. Whatever its server holds and whichever of the commands fail,
each call is answered, and counted once.
-/

namespace AccessControl

/-! ### Commands that may fail -/

namespace Cache.Server

def accepts (s : Server) (v : Verb) : Bool := (s.faults v 0).isNone

def Gives (s : Server) (key text : String) : Prop :=
  s.accepts .get = true ∧ s.entries.text? key = some text

variable {s : Server} {c : Command}

theorem serve_of_accepts (h : s.accepts c.verb = true) :
    s.serve c = (.ok (s.entries.reply c), ⟨s.entries.after c, s.faults.skip c.verb⟩) := by
  have hnone : s.faults c.verb 0 = none := by simpa [accepts] using h
  rw [serve, Faults.take, hnone]
  rfl

theorem serve_of_not_accepts (h : s.accepts c.verb = false) : ∃ message,
    s.serve c = (.error message, { s with faults := s.faults.skip c.verb }) := by
  obtain ⟨message, hsome⟩ : ∃ message, s.faults c.verb 0 = some message := by
    simpa [accepts, Option.isSome_iff_exists] using h
  refine ⟨message, ?_⟩
  rw [serve, Faults.take, hsome]

theorem accepts_skip {v u : Verb} (huv : u ≠ v) (es : Entries) :
    (⟨es, s.faults.skip v⟩ : Server).accepts u = s.accepts u := by
  simp [accepts, Faults.skip, huv]

end Cache.Server

namespace GrantCache

open Program Cache

/-! ### Runs -/

inductive Call where
  | use (u : Use)
  | health
  | report

inductive Reply where
  | use (a : Answer)
  | health (answers : Bool)
  | report (s : Statistics)

def Call.program (cache : GrantCache) : Call → Program Reply
  | .use u => return .use (← u.program cache)
  | .health => return .health (← healthy)
  | .report => return .report (← perform .statistics)

/-- A call, the time at which it is made, and what others have made of the server meanwhile: of its
texts, and of its failures to come. -/
structure Occasion where
  meanwhile : Server → Server
  now : Instant
  isDated : now.IsDated
  call : Call

def Occasion.begin (o : Occasion) (w : World) : World :=
  { w with server := o.meanwhile w.server, clock := o.now }

structure Exchange where
  server : Server
  call : Call
  outcome : Except Error Reply

structure History where
  exchanges : List Exchange
  world : World

def History.next (cache : GrantCache) (h : History) (o : Occasion) : History :=
  let w := o.begin h.world
  let (outcome, v) := (o.call.program cache).run w
  ⟨h.exchanges ++ [⟨w.server, o.call, outcome⟩], v⟩

def history (cache : GrantCache) (w : World) (occasions : List Occasion) : History :=
  occasions.foldl (History.next cache) ⟨[], { w with statistics := {} }⟩

/-! ### What is counted -/

def clears (s : Server) : Bool := s.accepts .scan && s.accepts .delete

namespace Exchange

def isRead (x : Exchange) : Bool :=
  match x.call with
  | .use (.rows _) | .use .table => true
  | _ => false

def isHit (x : Exchange) : Bool :=
  match x.outcome with
  | .ok (.use (.rows found)) => found.isSome
  | .ok (.use (.table found)) => found.isSome
  | _ => false

def isDone (x : Exchange) : Bool :=
  match x.outcome with
  | .ok (.use (.done b)) => b
  | _ => false

def isSet (x : Exchange) : Bool :=
  match x.call with
  | .use (.putRows ..) | .use (.putTable _) => x.isDone
  | _ => false

def isInvalidation (x : Exchange) : Bool :=
  match x.call with
  | .use (.dropRows _) | .use .dropTable => x.isDone
  | .use .clear => clears x.server
  | _ => false

end Exchange

/-- The statistics of a cache tell what its calls have come to. -/
structure Tells (s : Statistics) (past : List Exchange) : Prop where
  reads : s.hits + s.misses = past.countP Exchange.isRead
  hits : s.hits = past.countP Exchange.isHit
  sets : s.sets = past.countP Exchange.isSet
  invalidations : s.invalidations = past.countP Exchange.isInvalidation
  rate : s.hitRate = if past.countP Exchange.isRead = 0 then (0, 1)
    else (past.countP Exchange.isHit, past.countP Exchange.isRead)

def Use.verb : Use → Verb
  | .putRows .. | .putTable _ => .set
  | _ => .delete

def Use.tally : Use → Tally
  | .putRows .. | .putTable _ => .set
  | _ => .invalidation

inductive Call.Answered (s : Server) (past : List Exchange) : Call → Reply → Prop
  | rows {a : String} {found : Option Rulesets}
    (h : found.isSome ↔ ∃ text, s.Gives (accountKey a) text ∧ Rulesets.IsReadable text) :
    Answered s past (.use (.rows a)) (.use (.rows found))
  | table {found : Option (List Entitlement)}
    (h : found.isSome ↔ ∃ text, s.Gives entitlementsKey text ∧ Entitlement.AllReadable text) :
    Answered s past (.use .table) (.use (.table found))
  | written {u : Use} (h : u.IsWrite) : Answered s past (.use u) (.use (.done (s.accepts u.verb)))
  | cleared : Answered s past (.use .clear)
    (.use (.cleared (if clears s then s.entries.rows.countP fun e => isOwn e.key else 0)))
  | health : Answered s past .health (.health (s.accepts .ping))
  | report {t : Statistics} (h : Tells t past) : Answered s past .report (.report t)

/-- Each call was answered, given those before it. -/
inductive AllAnswered : List Exchange → Prop
  | nil : AllAnswered []
  | concat {past : List Exchange} {s : Server} {c : Call} {r : Reply} (hpast : AllAnswered past)
    (h : c.Answered s past r) : AllAnswered (past ++ [⟨s, c, .ok r⟩])

/-! ### One call -/

def Leaves {α : Type} (p : Program α) (w : World) (a : α) (s : Statistics) : Prop :=
  (p.run w).1 = .ok a ∧ (p.run w).2.statistics = s

structure Exchange.Counts (x : Exchange) (t : Option Tally) : Prop where
  isRead : x.isRead = (t == some .hit || t == some .miss)
  isHit : x.isHit = (t == some .hit)
  isSet : x.isSet = (t == some .set)
  isInvalidation : x.isInvalidation = (t == some .invalidation)

def counted (s : Statistics) (t : Option Tally) : Statistics := t.elim s s.add

variable {α : Type} {w : World} {s : Statistics}

theorem Leaves.map {β : Type} {p : Program α} {a : α} (h : Leaves p w a s) (f : α → β) :
    Leaves (p >>= fun a => pure (f a)) w (f a) s := by
  rw [Leaves, run_bind_ok h.1]
  exact ⟨rfl, h.2⟩

theorem Leaves.of_now {f : Instant → Program α} {a : α} (h : Leaves (f w.clock) w a s) :
    Leaves (perform .now >>= f) w a s :=
  h

section Commands

variable {c : Command} {f : Except String c.Reply → Program α} {a : α}

theorem Leaves.of_accepts (h : w.server.accepts c.verb = true)
    (hf : Leaves (f (.ok (w.server.entries.reply c)))
      { w with server := ⟨w.server.entries.after c, w.server.faults.skip c.verb⟩ } a s) :
    Leaves (perform (.cache c) >>= f) w a s := by
  have hanswer : w.answer (.cache c) = (.ok (w.server.entries.reply c),
      { w with server := ⟨w.server.entries.after c, w.server.faults.skip c.verb⟩ }) := by
    rw [World.answer, Server.serve_of_accepts h]
  rw [Leaves, run_bind, run_perform, hanswer]
  exact hf

theorem Leaves.of_refuses (h : w.server.accepts c.verb = false)
    (hf : ∀ message, Leaves (f (.error message))
      { w with server := ⟨w.server.entries, w.server.faults.skip c.verb⟩ } a s) :
    Leaves (perform (.cache c) >>= f) w a s := by
  obtain ⟨message, hserve⟩ := Server.serve_of_not_accepts h
  have hanswer : w.answer (.cache c) = (.error message,
      { w with server := ⟨w.server.entries, w.server.faults.skip c.verb⟩ }) := by
    rw [World.answer, hserve]
  rw [Leaves, run_bind, run_perform, hanswer]
  exact hf message

end Commands

theorem leaves_succeeded (c : Command) (t : Tally) (message : String) (fields : Value.Fields) :
    Leaves (succeeded c t message fields) w (w.server.accepts c.verb)
      (counted w.statistics (if w.server.accepts c.verb then some t else none)) := by
  rw [succeeded]
  cases h : w.server.accepts c.verb with
  | true =>
    apply Leaves.of_accepts h
    exact ⟨rfl, rfl⟩
  | false =>
    apply Leaves.of_refuses h
    intro reason
    exact ⟨rfl, rfl⟩

theorem leaves_healthy : Leaves healthy w (w.server.accepts .ping) w.statistics := by
  rw [healthy]
  cases h : w.server.accepts .ping with
  | true =>
    apply Leaves.of_accepts h
    exact ⟨rfl, rfl⟩
  | false =>
    apply Leaves.of_refuses h
    intro reason
    exact ⟨rfl, rfl⟩

theorem leaves_understood (read? : Instant → String → Option α) (key message : String)
    (fields : Value.Fields) : ∃ found, Leaves (understood message fields read? key) w found
      (counted w.statistics (some (if found.isSome then .hit else .miss))) ∧
        (found.isSome ↔ ∃ text, w.server.Gives key text ∧ (read? w.clock text).isSome) := by
  rw [understood]
  by_cases hget : w.server.accepts .get = true
  · simp only [Server.Gives, hget, true_and]
    cases htext : w.server.entries.text? key with
    | none =>
      refine ⟨none, ?_, by simp⟩
      apply Leaves.of_accepts hget
      simp only [Entries.reply, htext]
      exact ⟨rfl, rfl⟩
    | some text =>
      refine ⟨read? w.clock text, ?_, by simp⟩
      apply Leaves.of_accepts hget
      simp only [Entries.reply, htext]
      apply Leaves.of_now
      cases read? w.clock text with
      | none => exact ⟨rfl, rfl⟩
      | some a => exact ⟨rfl, rfl⟩
  · refine ⟨none, ?_, by simp [Server.Gives, hget]⟩
    apply Leaves.of_refuses (Bool.eq_false_of_not_eq_true hget)
    intro reason
    exact ⟨rfl, rfl⟩

theorem leaves_clear : Leaves GrantCache.clear w
    (if clears w.server then w.server.entries.rows.countP fun e => isOwn e.key else 0)
    (counted w.statistics (if clears w.server then some .invalidation else none)) := by
  rw [GrantCache.clear, clears]
  cases hscan : w.server.accepts .scan with
  | false =>
    apply Leaves.of_refuses hscan
    intro reason
    exact ⟨rfl, rfl⟩
  | true =>
    apply Leaves.of_accepts hscan
    have hrest (es : Entries) : (⟨es, w.server.faults.skip .scan⟩ : Server).accepts .delete =
        w.server.accepts .delete := Server.accepts_skip (by decide) es
    cases hdelete : w.server.accepts .delete with
    | false =>
      apply Leaves.of_refuses ((hrest _).trans hdelete)
      intro reason
      exact ⟨rfl, rfl⟩
    | true =>
      have hcount : w.server.entries.reply (.delete (w.server.entries.reply (.scan rulesetsStart) ++
          [entitlementsKey])) = w.server.entries.rows.countP fun e => isOwn e.key :=
        List.countP_congr fun e he => by rw [contains_cleared he]
      apply Leaves.of_accepts ((hrest _).trans hdelete)
      exact ⟨congrArg Except.ok hcount, rfl⟩

theorem counted_eq (s : Statistics) (t : Option Tally) : counted s t =
    { hits := s.hits + (t == some .hit).toNat
      misses := s.misses + (t == some .miss).toNat
      sets := s.sets + (t == some .set).toNat
      invalidations := s.invalidations + (t == some .invalidation).toNat } := by
  cases t with
  | none => rfl
  | some t => cases t <;> rfl

theorem Tells.concat {past : List Exchange} {x : Exchange} {t : Option Tally} (h : Tells s past)
    (hx : x.Counts t) : Tells (counted s t) (past ++ [x]) := by
  have hone (p : Exchange → Bool) : (past ++ [x]).countP p = past.countP p + (p x).toNat := by
    rw [List.countP_append, List.countP_singleton]
    cases p x <;> rfl
  have hreads :
      (counted s t).hits + (counted s t).misses = (past ++ [x]).countP Exchange.isRead := by
    -- a read is a hit or a miss, and never both
    have hread : (t == some .hit || t == some .miss).toNat =
        (t == some .hit).toNat + (t == some .miss).toNat := by
      cases t with
      | none => rfl
      | some t => cases t <;> rfl
    rw [hone, ← h.reads, hx.isRead, hread, counted_eq]
    exact Nat.add_add_add_comm _ _ _ _
  have hhits : (counted s t).hits = (past ++ [x]).countP Exchange.isHit := by
    rw [hone, ← h.hits, hx.isHit, counted_eq]
  refine ⟨hreads, hhits, ?_, ?_, ?_⟩
  · rw [hone, ← h.sets, hx.isSet, counted_eq]
  · rw [hone, ← h.invalidations, hx.isInvalidation, counted_eq]
  · rw [Statistics.hitRate, hreads, hhits]

section

variable {past : List Exchange}

theorem exists_leaves_written {u : Use} (hu : u.IsWrite) {p : Program Bool}
    (hp : Leaves p w (w.server.accepts u.verb)
      (counted w.statistics (if w.server.accepts u.verb then some u.tally else none))) :
    ∃ r t, Leaves (return Reply.use (← (return Answer.done (← p)))) w r (counted w.statistics t) ∧
      (Call.use u).Answered w.server past r ∧ Exchange.Counts ⟨w.server, .use u, .ok r⟩ t := by
  refine ⟨_, _, (hp.map Answer.done).map Reply.use, .written hu, ?_⟩
  cases u with
  | putRows | putTable | dropRows | dropTable =>
    generalize w.server.accepts _ = b
    cases b <;> exact ⟨rfl, rfl, rfl, rfl⟩
  | rows | table | clear => cases hu

theorem exists_leaves_use (cache : GrantCache) (u : Use) (hnow : w.clock.IsDated) :
    ∃ r t, Leaves (Call.program cache (.use u)) w r (counted w.statistics t) ∧
      (Call.use u).Answered w.server past r ∧ Exchange.Counts ⟨w.server, .use u, .ok r⟩ t := by
  cases u with
  | putRows a rows =>
    exact exists_leaves_written (u := .putRows a rows) trivial (leaves_succeeded _ _ _ _)
  | dropRows a =>
    exact exists_leaves_written (u := .dropRows a) trivial (leaves_succeeded _ _ _ _)
  | putTable es =>
    exact exists_leaves_written (u := .putTable es) trivial (leaves_succeeded _ _ _ _)
  | dropTable =>
    exact exists_leaves_written (u := .dropTable) trivial (leaves_succeeded _ _ _ _)
  | rows a =>
    obtain ⟨found, hleaves, hfound⟩ := leaves_understood (w := w) Rulesets.read?
      (accountKey a) "Error reading cached rulesets" [("account_id", .text a)]
    simp only [Rulesets.isSome_read?_iff hnow] at hfound
    refine ⟨_, _, (hleaves.map Answer.rows).map Reply.use, .rows hfound, ?_⟩
    cases found <;> exact ⟨rfl, rfl, rfl, rfl⟩
  | table =>
    obtain ⟨found, hleaves, hfound⟩ := leaves_understood (w := w) Entitlement.readAll?
      entitlementsKey "Error reading cached entitlements" []
    simp only [Entitlement.isSome_readAll?_iff hnow] at hfound
    refine ⟨_, _, (hleaves.map Answer.table).map Reply.use, .table hfound, ?_⟩
    cases found <;> exact ⟨rfl, rfl, rfl, rfl⟩
  | clear =>
    refine ⟨_, _, (leaves_clear.map Answer.cleared).map Reply.use, .cleared, ?_⟩
    cases h : clears w.server with
    | true => exact ⟨rfl, rfl, rfl, h⟩
    | false => exact ⟨rfl, rfl, rfl, h⟩

theorem exists_leaves (cache : GrantCache) (c : Call) (hpast : Tells w.statistics past)
    (hnow : w.clock.IsDated) : ∃ r t,
      Leaves (c.program cache) w r (counted w.statistics t) ∧ c.Answered w.server past r ∧
        Exchange.Counts ⟨w.server, c, .ok r⟩ t := by
  cases c with
  | use u => exact exists_leaves_use cache u hnow
  | health => exact ⟨_, none, leaves_healthy.map Reply.health, .health, ⟨rfl, rfl, rfl, rfl⟩⟩
  | report => exact ⟨_, none, ⟨rfl, rfl⟩, .report hpast, ⟨rfl, rfl, rfl, rfl⟩⟩

end

/-! ### A run -/

theorem tells_nil : Tells {} [] where
  reads := rfl
  hits := rfl
  sets := rfl
  invalidations := rfl
  rate := rfl

/-- Whatever texts its server holds and whichever commands fail, the cache answers each call: with
rows if and only if the server gives out a text that is JSON of the right shape. At every moment its
statistics tell how many reads, hits, writes and invalidations there have been. -/
theorem counts_each_call (cache : GrantCache) (w : World) (occasions : List Occasion) :
    (history cache w occasions).exchanges.map Exchange.call = occasions.map Occasion.call ∧
      AllAnswered (history cache w occasions).exchanges ∧
      Tells (history cache w occasions).world.statistics (history cache w occasions).exchanges := by
  induction occasions using List.reverseRecOn with
  | nil => exact ⟨rfl, .nil, tells_nil⟩
  | append_singleton occasions o ih =>
    obtain ⟨hcalls, hanswered, htells⟩ := ih
    obtain ⟨r, t, ⟨houtcome, hstatistics⟩, hr, ht⟩ :=
      exists_leaves (w := o.begin (history cache w occasions).world) cache o.call htells o.isDated
    have hnext : history cache w (occasions ++ [o]) =
        ⟨(history cache w occasions).exchanges ++
          [⟨(o.begin (history cache w occasions).world).server, o.call, .ok r⟩],
          ((o.call.program cache).run (o.begin (history cache w occasions).world)).2⟩ := by
      rw [history, List.foldl_append, ← houtcome]
      rfl
    rw [hnext]
    refine ⟨?_, .concat hanswered hr, ?_⟩
    · rw [List.map_append, List.map_append, hcalls]
      rfl
    · rw [hstatistics]
      exact htells.concat ht

end GrantCache

end AccessControl
