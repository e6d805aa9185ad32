import AccessControl.Proofs.Program.Interpretation
import AccessControl.Proofs.Program.Running
import Mathlib.Data.List.Infix

/-!
Nested blocks that attribute log lines. Whatever goes on in a block, and however it ends, the context
is afterwards what it was before, and inside a block the innermost values count.
-/

namespace AccessControl

/-! ### Contexts -/

namespace Log

namespace Correlation

theorem set_value (c : Correlation) (x : Variable) : c.set x (c.value x) = c := by
  cases x <;> rfl

theorem set_set (c : Correlation) (x : Variable) (v v' : Option Value) :
    (c.set x v).set x v' = c.set x v' := by
  cases x <;> rfl

theorem leave_bindOne (b : Binding) (state : Correlation × List Undo) (x : Variable) :
    (bindOne b state x).1.leave (bindOne b state x).2 = state.1.leave state.2 := by
  rw [bindOne]
  cases b.value x with
  | none => rfl
  | some v => rw [leave, List.foldl_cons, set_set, set_value, leave]

theorem leave_enter (c : Correlation) (b : Binding) : (c.enter b).1.leave (c.enter b).2 = c := by
  have hfold (xs : List Variable) (state : Correlation × List Undo) :
      (xs.foldl (bindOne b) state).1.leave (xs.foldl (bindOne b) state).2 =
        state.1.leave state.2 := by
    induction xs generalizing state with
    | nil => rfl
    | cons x xs ih => exact (ih _).trans (leave_bindOne b state x)
  exact hfold _ (c, [])

theorem value_enter (c : Correlation) (b : Binding) (x : Variable) :
    (c.enter b).1.value x = (b.value x).or (c.value x) := by
  rcases b with ⟨_ | a, _ | r⟩ <;> cases x <;> rfl

/-- The context in nested blocks, the innermost of them first. -/
def inside (c : Correlation) (blocks : List Binding) : Correlation :=
  blocks.foldr (fun b c => (c.enter b).1) c

/-- What the innermost of the blocks that bind a variable gives it; if none does, it has the value
that it had before. -/
def innermost (c : Correlation) (blocks : List Binding) (x : Variable) : Option Value :=
  (blocks.findSome? (·.value x)).or (c.value x)

theorem value_inside (c : Correlation) (blocks : List Binding) (x : Variable) :
    (c.inside blocks).value x = c.innermost blocks x := by
  induction blocks with
  | nil => rfl
  | cons b blocks ih =>
    change ((c.inside blocks).enter b).1.value x = _
    rw [value_enter, ih, innermost, innermost, List.findSome?_cons]
    cases b.value x <;> rfl

def entered (c : Correlation) (bs : List Binding) : List Correlation :=
  bs.inits.tail.map fun outer => c.inside outer.reverse

theorem entered_cons (c : Correlation) (b : Binding) (bs : List Binding) :
    c.entered (b :: bs) = (c.enter b).1 :: (c.enter b).1.entered bs := by
  have hinside (outer : List Binding) :
      c.inside (b :: outer).reverse = (c.enter b).1.inside outer.reverse := by
    rw [List.reverse_cons, inside, List.foldr_append]
    rfl
  have hinits : bs.inits = [] :: bs.inits.tail := by cases bs <;> rfl
  rw [entered, List.inits_cons, List.tail_cons, List.map_map, hinits, List.map_cons]
  exact congrArg (_ :: ·) (List.map_congr_left fun outer _ => hinside outer)

theorem trail_eq (c : Correlation) (bs : List Binding) :
    c.trail bs = (c.entered bs ++ (c.entered bs).reverse, c) := by
  induction bs generalizing c with
  | nil => rfl
  | cons b bs ih =>
    simp only [trail, ih, leave_enter, entered_cons, List.reverse_cons, List.cons_append,
      List.append_assoc]

end Correlation

def Variable.field : Variable → String
  | .account => "account_id"
  | .request => "request_id"

namespace Event

theorem lookup_cons (name field : String) (v : Value) (e : Event) :
    List.lookup field ((name, v) :: e) = if field = name then some v else e.lookup field := by
  rw [List.lookup_cons]
  by_cases h : field = name
  · rw [if_pos h, beq_iff_eq.mpr h]
  · rw [if_neg h, beq_eq_false_iff_ne.mpr h]

theorem lookup_put (name field : String) (v : Value) (e : Event) :
    List.lookup field (Value.Fields.put name v e) =
      if field = name then some v else e.lookup field := by
  induction e with
  | nil => exact lookup_cons name field v []
  | cons entry e ih =>
    obtain ⟨k, u⟩ := entry
    rw [Value.Fields.put, lookup_cons]
    by_cases hk : k = name
    · subst hk
      rw [if_pos rfl, lookup_cons]
      by_cases h : field = k <;> simp only [h, if_true, if_false]
    · rw [if_neg hk, lookup_cons, ih]
      by_cases h : field = k
      · rw [if_pos h, if_pos h, if_neg (h ▸ hk)]
      · rw [if_neg h, if_neg h]

theorem lookup_putSome (name field : String) (v : Option Value) (e : Event) :
    List.lookup field (putSome name v e) =
      if field = name then (v.filter Value.truthy).or (e.lookup field) else e.lookup field := by
  cases v with
  | none => exact (ite_self _).symm
  | some v =>
    rw [putSome, Option.filter_some]
    by_cases h : v.truthy = true
    · rw [if_pos h, if_pos h, lookup_put]
      rfl
    · rw [if_neg h, if_neg h]
      exact (ite_self _).symm

theorem lookup_withCorrelation (c : Correlation) (e : Event) (x : Variable) :
    (e.withCorrelation c).lookup x.field =
      ((c.value x).filter Value.truthy).or (e.lookup x.field) := by
  rw [withCorrelation, lookup_putSome, lookup_putSome]
  cases x <;> rfl

end Event

end Log

/-! ### Programs -/

open Log

def Effect.isBlock : Effect → Bool
  | .enter _ | .leave _ => true
  | _ => false

def Effect.blocksAfter : Effect → List Binding → List Binding
  | .enter b, blocks => b :: blocks
  | .leave _, blocks => blocks.tail
  | _, blocks => blocks

theorem Effect.blocksAfter_of_not_isBlock {e : Effect} (he : e.isBlock = false)
    (blocks : List Binding) : e.blocksAfter blocks = blocks := by
  cases e with
  | enter | leave => cases he
  | _ => rfl

theorem World.correlation_answer {e : Effect} (he : e.isBlock = false) (w : World) :
    (w.answer e).2.correlation = w.correlation := by
  cases e with
  | enter | leave => cases he
  | _ => rfl

namespace Program

variable {α β : Type}

/-- Blocks are entered and left in pairs: a program does something else, or runs a program in a block
and goes on from its outcome, be it a value or a failure. -/
inductive Bracketed : {α : Type} → Program α → Prop where
  | done {α : Type} (a : α) : Bracketed (.done a)
  | fail {α : Type} (e : Error) : Bracketed (.fail e : Program α)
  | ask {α : Type} {e : Effect} {next : e.Reply → Program α} (he : e.isBlock = false)
    (h : ∀ r, Bracketed (next r)) : Bracketed (.ask e next)
  | block {α β : Type} (b : Binding) {p : Program β} {f : Except Error β → Program α}
    (hp : Bracketed p) (hf : ∀ r, Bracketed (f r)) : Bracketed ((within b p).attempt >>= f)

/-- An access in a run, with the blocks that were open then, the innermost first, and the context. -/
structure Sight where
  effect : Effect
  blocks : List Binding
  context : Correlation

def Sight.record (j : Journal) (s : Sight) : Journal :=
  match s.effect with
  | .record line => j.record s.context line
  | _ => j

structure Lookout where
  world : World
  blocks : List Binding
  sights : List Sight

def Lookout.answer : Interpreter Lookout := fun s e =>
  ((s.world.answer e).1, ⟨(s.world.answer e).2, e.blocksAfter s.blocks,
    s.sights ++ [⟨e, s.blocks, s.world.correlation⟩]⟩)

/-- What is seen of the run of a program. -/
def sights (p : Program α) (w : World) : List Sight :=
  (p.runBy Lookout.answer ⟨w, [], []⟩).2.sights

theorem world_runBy (p : Program α) (s : Lookout) :
    (p.runBy Lookout.answer s).2.world = (p.run s.world).2 := by
  induction p generalizing s with
  | done | fail => rfl
  | ask e next ih => exact ih _ (Lookout.answer s e).2

theorem runBy_within {σ : Type} {ι : Interpreter σ} (b : Binding) (p : Program α) (s : σ) :
    (within b p).runBy ι s = ((p.runBy ι (ι s (.enter b)).2).1,
      (ι (p.runBy ι (ι s (.enter b)).2).2 (.leave (ι s (.enter b)).1)).2) := by
  change (p.attempt >>= fun r => _).runBy ι (ι s (.enter b)).2 = _
  rw [runBy_bind, runBy_attempt]
  exact runBy_ofExcept _ _

namespace Lookout

/-- The context now and at each access so far is the one in the blocks that are open, from `c` on,
and the journal holds what was recorded, from `j` on. -/
structure IsAttributed (c : Correlation) (j : Journal) (s : Lookout) : Prop where
  now : s.world.correlation = c.inside s.blocks
  seen : ∀ x ∈ s.sights, x.context = c.inside x.blocks
  journal : s.world.journal = s.sights.foldl Sight.record j

variable {c : Correlation} {j : Journal} {s : Lookout}

theorem seen_answer (h : s.IsAttributed c j) (e : Effect) :
    ∀ x ∈ (answer s e).2.sights, x.context = c.inside x.blocks := by
  intro x hx
  obtain hx | hx := List.mem_append.mp hx
  · exact h.seen x hx
  · rw [List.mem_singleton.mp hx]
    exact h.now

theorem journal_answer (h : s.IsAttributed c j) (e : Effect) :
    (answer s e).2.world.journal = (answer s e).2.sights.foldl Sight.record j := by
  change _ = (s.sights ++ [_]).foldl Sight.record j
  rw [List.foldl_append, ← h.journal]
  cases e <;> rfl

theorem IsAttributed.pass (h : s.IsAttributed c j) {e : Effect} (he : e.isBlock = false) :
    (answer s e).2.IsAttributed c j := by
  refine ⟨?_, seen_answer h e, journal_answer h e⟩
  change (s.world.answer e).2.correlation = c.inside (e.blocksAfter s.blocks)
  rw [World.correlation_answer he, Effect.blocksAfter_of_not_isBlock he, h.now]

theorem IsAttributed.enter (h : s.IsAttributed c j) (b : Binding) :
    (answer s (.enter b)).2.IsAttributed c j := by
  refine ⟨?_, seen_answer h _, journal_answer h _⟩
  change (s.world.correlation.enter b).1 = ((c.inside s.blocks).enter b).1
  rw [h.now]

theorem IsAttributed.leave {t : Lookout} (ht : t.IsAttributed c j) (h : s.IsAttributed c j)
    {b : Binding} (hblocks : t.blocks = b :: s.blocks) :
    (answer t (.leave (answer s (.enter b)).1)).2.IsAttributed c j := by
  refine ⟨?_, seen_answer ht _, journal_answer ht _⟩
  change t.world.correlation.leave (s.world.correlation.enter b).2 = c.inside t.blocks.tail
  rw [ht.now, hblocks, List.tail_cons, h.now]
  exact Correlation.leave_enter _ b

end Lookout

theorem Bracketed.isAttributed {p : Program α} (hp : p.Bracketed) {c : Correlation} {j : Journal}
    {s : Lookout} (h : s.IsAttributed c j) : (p.runBy Lookout.answer s).2.IsAttributed c j ∧
      (p.runBy Lookout.answer s).2.blocks = s.blocks := by
  induction hp generalizing s with
  | done | fail => exact ⟨h, rfl⟩
  | @ask _ e _ he _ ih =>
    obtain ⟨hend, hblocks⟩ := ih (Lookout.answer s e).1 (h.pass he)
    exact ⟨hend, hblocks.trans (Effect.blocksAfter_of_not_isBlock he s.blocks)⟩
  | block b _ _ ihp ihf =>
    obtain ⟨hinner, hopen⟩ := ihp (h.enter b)
    rw [runBy_bind, runBy_attempt, runBy_within]
    obtain ⟨hend, hblocks⟩ := ihf _ (hinner.leave h hopen)
    exact ⟨hend, hblocks.trans (congrArg List.tail hopen)⟩

/-! Programs that are put together from such programs. -/

theorem bracketed_ofExcept (x : Except Error α) : (ofExcept x).Bracketed := by
  cases x with
  | ok a => exact .done a
  | error e => exact .fail e

theorem bracketed_log (level : Level) (logger message : String) (fields : Value.Fields) :
    (log level logger message fields).Bracketed :=
  .ask rfl .done

theorem Bracketed.bind {p : Program α} {f : α → Program β} (hp : p.Bracketed)
    (hf : ∀ a, (f a).Bracketed) : (p >>= f).Bracketed := by
  induction hp with
  | done a => exact hf a
  | fail e => exact .fail e
  | ask he _ ih => exact .ask he fun r => ih r hf
  | block b hp _ _ ih =>
    rw [bind_assoc]
    exact .block b hp fun r => ih r hf

theorem attempt_attempt_bind (p : Program α) (f : Except Error α → Program β) :
    (p.attempt >>= f).attempt = p.attempt >>= fun r => (f r).attempt := by
  induction p with
  | done | fail => rfl
  | ask e next ih => exact congrArg (ask e) (funext ih)

theorem Bracketed.attempt {p : Program α} (hp : p.Bracketed) : p.attempt.Bracketed := by
  induction hp with
  | done | fail => exact .done _
  | ask he _ ih => exact .ask he ih
  | block b hp _ _ ih =>
    rw [attempt_attempt_bind]
    exact .block b hp ih

theorem Bracketed.within {p : Program α} (hp : p.Bracketed) (b : Binding) :
    (within b p).Bracketed := by
  rw [← attempt_ofExcept (Program.within b p)]
  exact .block b hp bracketed_ofExcept

/-- Nested blocks end with the contexts with which they started, and the last one leads back to what
was before them. In a run of a program, whatever its outcome is, each access finds the context of the
blocks that are open then, and the context afterwards is the one before the run. So a recorded event
has for each of the two identifiers the innermost value if that counts as true, else its own. -/
theorem contexts_nest (w : World) :
    (∀ bs, w.correlation.trail bs =
      (w.correlation.entered bs ++ (w.correlation.entered bs).reverse, w.correlation)) ∧
    ∀ {α : Type} (p : Program α), p.Bracketed →
      (p.run w).2.correlation = w.correlation ∧
      (p.run w).2.journal = (p.sights w).foldl Sight.record w.journal ∧
      ∀ s ∈ p.sights w, s.context = w.correlation.inside s.blocks ∧
        ∀ (x : Variable), s.context.value x = w.correlation.innermost s.blocks x ∧
          ∀ e : Event, (e.withCorrelation s.context).lookup x.field =
            ((w.correlation.innermost s.blocks x).filter Value.truthy).or (e.lookup x.field) := by
  refine ⟨w.correlation.trail_eq, fun p hp => ?_⟩
  have hstart : Lookout.IsAttributed w.correlation w.journal ⟨w, [], []⟩ :=
    ⟨rfl, List.forall_mem_nil _, rfl⟩
  obtain ⟨hend, hblocks⟩ := hp.isAttributed hstart
  have hworld := world_runBy p ⟨w, [], []⟩
  refine ⟨?_, ?_, fun s hs => ?_⟩
  · have hnow := hend.now
    rwa [hworld, hblocks] at hnow
  · have hjournal := hend.journal
    rwa [hworld] at hjournal
  · have hcontext := hend.seen s hs
    refine ⟨hcontext, fun x => ?_⟩
    have hvalue : s.context.value x = w.correlation.innermost s.blocks x := by
      rw [hcontext, Correlation.value_inside]
    exact ⟨hvalue, fun e => hvalue ▸ Event.lookup_withCorrelation s.context e x⟩

def forAccount : Binding := { account := some (.text "ann") }

def forRequest : Binding := { account := some (.text ""), request := some (.text "r-1") }

def rehearsal : Program Unit :=
  within forAccount do
    let outcome ← (within forRequest (do
      log .error "permissions.test" "Inside" []
      fail (.storage "probe"))).attempt
    log .error "permissions.test" "Outside" []
    ofExcept outcome

theorem bracketed_rehearsal : rehearsal.Bracketed := by
  refine Bracketed.within (Bracketed.bind (Bracketed.attempt (Bracketed.within ?_ _)) ?_) _
  · exact (bracketed_log _ _ _ _).bind fun _ => .fail _
  · exact fun outcome => (bracketed_log _ _ _ _).bind fun _ => bracketed_ofExcept outcome

theorem contexts_nest_rehearsed :
    let w := World.initial .info none { path := "" }
    rehearsal.Bracketed ∧ (rehearsal.run w).1 = .error (.storage "probe") ∧
      (rehearsal.run w).2.correlation = {} ∧
      (rehearsal.sights w).map Sight.blocks =
        [[], [forAccount], [forRequest, forAccount], [forRequest, forAccount], [forAccount],
          [forAccount]] ∧
      ∀ s ∈ rehearsal.sights w, s.blocks = [forRequest, forAccount] → ∀ e : Event,
        (e.withCorrelation s.context).lookup "account_id" = e.lookup "account_id" ∧
        (e.withCorrelation s.context).lookup "request_id" = some (.text "r-1") := by
  intro w
  obtain ⟨hafter, -, hsights⟩ := (contexts_nest w).2 rehearsal bracketed_rehearsal
  refine ⟨bracketed_rehearsal, rfl, hafter, rfl, fun s hs hblocks e => ?_⟩
  have hids := (hsights s hs).2
  rw [hblocks] at hids
  exact ⟨(hids .account).2 e, (hids .request).2 e⟩

end Program

end AccessControl
