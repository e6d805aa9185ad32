import AccessControl.Proofs.Cache.Contents
import AccessControl.Proofs.Cache.Sweeping
import AccessControl.Proofs.Grant.Filling
import AccessControl.Proofs.Program.Interleaving

/-!
A resolution and a mutation that are under way together, without a lock between them. What the
resolution puts on a shelf stays behind the tables only when the mutation overtakes it: when it was
read before the mutation wrote, and arrives after the mutation has swept the shelf.
-/

namespace AccessControl

open Access Concurrent Program Store

/-- Some accesses came one after the other, each of its own kind. -/
def Passed : List (Access → Bool) → List Access → Prop
  | [], _ => True
  | _ :: _, [] => False
  | kind :: kinds, a :: h => kind a = true ∧ Passed kinds h ∨ Passed (kind :: kinds) h

theorem passed_nil (h : List Access) : Passed [] h := by
  cases h <;> trivial

instance decidablePassed : (kinds : List (Access → Bool)) → (h : List Access) →
    Decidable (Passed kinds h)
  | [], h => .isTrue (passed_nil h)
  | _ :: _, [] => .isFalse id
  | kind :: kinds, _ :: h =>
    have := decidablePassed kinds h
    have := decidablePassed (kind :: kinds) h
    inferInstanceAs (Decidable (_ ∧ _ ∨ _))

section Passed

variable {kinds : List (Access → Bool)} {h : List Access}

theorem Passed.append (hp : Passed kinds h) (more : List Access) : Passed kinds (h ++ more) := by
  induction h generalizing kinds with
  | nil =>
    cases kinds with
    | nil => exact passed_nil _
    | cons kind kinds => cases hp
  | cons a h ih =>
    cases kinds with
    | nil => exact passed_nil _
    | cons kind kinds => exact hp.imp (And.imp_right ih) ih

theorem Passed.concat (hp : Passed kinds h) {kind : Access → Bool} {a : Access}
    (ha : kind a = true) : Passed (kinds ++ [kind]) (h ++ [a]) := by
  induction h generalizing kinds with
  | nil =>
    cases kinds with
    | nil => exact .inl ⟨ha, passed_nil _⟩
    | cons kind kinds => cases hp
  | cons b h ih =>
    cases kinds with
    | nil => exact .inr (ih (passed_nil h))
    | cons kind kinds => exact hp.imp (And.imp_right ih) ih

end Passed

namespace Access

/-! The resolution is the first of the tasks, the mutation the second. -/

def reads (s : Shelf) : Access → Bool
  | ⟨0, .store c, _⟩ => s.concerns c
  | _ => false

def writes : Access → Bool
  | ⟨1, .store c, _⟩ => c.isWrite
  | _ => false

def drops (s : Shelf) : Access → Bool
  | ⟨1, .cache (.delete keys), _⟩ => s.key ∈ keys
  | _ => false

def fills (s : Shelf) : Access → Bool
  | ⟨0, .cache (.set key _ _), _⟩ => key = s.key
  | _ => false

end Access

/-- What belongs on the shelf was read before the mutation wrote, and put there after the mutation
had dropped what it held. -/
def Shelf.IsOvertaken (s : Shelf) (h : List Access) : Prop :=
  Passed [reads s, writes, drops s, fills s] h

instance (s : Shelf) (h : List Access) : Decidable (s.IsOvertaken h) :=
  decidablePassed _ h

theorem Grants.run_rulesets_of_cached {w : World} (hfaults : w.server.faults = .none)
    {rows : Rulesets} (hrows : rows.IsDated) {account : String}
    (htext : w.server.entries.text? (GrantCache.accountKey account) =
      some (Wire.write rows.value)) (cache : GrantCache) :
    ((Grants.rulesets ⟨some cache⟩ account).run w).1 = .ok rows := by
  have hfound : w.server.entries.text? (GrantCache.accountKey account) =
      (some rows).map fun rows => Wire.write rows.value :=
    htext
  have hread (r : Rulesets) (hr : some rows = some r) :
      Rulesets.read? w.clock (Wire.write r.value) = some r := by
    rw [← Option.some.inj hr, Rulesets.read?_write hrows]
  obtain ⟨v, hv, -⟩ := GrantCache.run_understood hfaults hfound hread
    "Error reading cached rulesets" [("account_id", .text account)]
  rw [Grants.rulesets, run_bind, GrantCache.rulesets?, hv]
  rfl

namespace Mutation

/-- The world is as it is on record. -/
structure Bears (g : Sweep) (w : World) : Prop where
  ledger : w.ledger = ⟨g.tables, .none⟩
  faults : w.server.faults = .none
  minted : w.minted = g.minted
  clock : w.clock.IsDated

/-- What was found is what the store returns, or was read before the mutation wrote: if it belongs
on a shelf that is not stale any more, then even before the shelf was swept. So is what the shelves
hold. -/
structure Explains (filled swept : Shelf → Prop) (g : Sweep) (f : Findings) (es : Cache.Entries)
    (h : List Access) : Prop where
  stale : ∀ s, g.stale s → swept s
  found : ∀ (s : Shelf) c r, s.concerns c = true → ⟨c, r⟩ ∈ f →
    r = g.tables.reply c ∧ Passed [reads s] h ∨
      g.stale s ∧ Passed [reads s, writes] h ∨ swept s ∧ Passed [reads s, writes, drops s] h
  held : ∀ (s : Shelf) text, es.text? s.key = some text →
    text = s.text g.tables.reply ∨ g.stale s ∨ filled s ∧ swept s ∧ s.IsOvertaken h

section Explains

variable {filled swept : Shelf → Prop} {g : Sweep} {f : Findings} {es : Cache.Entries}
  {h : List Access} {a : Access}

theorem Explains.append (he : Explains filled swept g f es h) (a : Access) :
    Explains filled swept g f es (h ++ [a]) where
  stale := he.stale
  found s c r hc hr := by
    obtain ⟨rfl, hp⟩ | ⟨hs, hp⟩ | hp := he.found s c r hc hr
    · exact .inl ⟨rfl, hp.append [a]⟩
    · exact .inr (.inl ⟨hs, hp.append [a]⟩)
    · exact .inr (.inr (hp.imp_right (·.append [a])))
  held s text ht := by
    obtain ht | hs | ⟨hf, hs, ho⟩ := he.held s text ht
    · exact .inl ht
    · exact .inr (.inl hs)
    · exact .inr (.inr ⟨hf, hs, ho.append [a]⟩)

theorem Explains.read (he : Explains filled swept g f es h) {c : Call}
    (ha : ∀ s : Shelf, s.concerns c = true → reads s a = true) :
    Explains filled swept g (⟨c, g.tables.reply c⟩ :: f) es (h ++ [a]) where
  stale := he.stale
  held := (he.append a).held
  found s d r hd hr := by
    obtain hr | hr := List.mem_cons.1 hr
    · cases hr
      exact .inl ⟨rfl, (passed_nil h).concat (ha s hd)⟩
    · exact (he.append a).found s d r hd hr

theorem Explains.fill (he : Explains filled swept g f es h) {s : Shelf} (hs : filled s)
    {reply : (c : Call) → c.Reply} (hf : f.Tell s reply) {ttl : Int} (ha : fills s a = true) :
    Explains filled swept g f (es.after (.set s.key ttl (s.text reply))) (h ++ [a]) where
  stale := he.stale
  found := (he.append a).found
  held s' text ht := by
    rw [Cache.Entries.text?_set] at ht
    by_cases hkey : s.key = s'.key
    · obtain rfl := Shelf.key_injective hkey
      rw [if_pos rfl, Option.some.injEq] at ht
      by_cases hreply : ∀ c, s.concerns c = true → reply c = g.tables.reply c
      · exact .inl (ht.symm.trans (Shelf.text_congr hreply))
      -- one of the replies was not what the store returns now, so it was read before a write
      · push Not at hreply
        obtain ⟨c, hc, hne⟩ := hreply
        obtain ⟨heq, -⟩ | ⟨hstale, -⟩ | ⟨hswept, hp⟩ := he.found s c (reply c) hc (hf c hc)
        · exact absurd heq hne
        · exact .inr (.inl hstale)
        · exact .inr (.inr ⟨hs, hswept, hp.concat ha⟩)
    · rw [if_neg hkey] at ht
      exact (he.append a).held s' text ht

theorem Explains.write (he : Explains filled swept g f es h) {c : Call}
    (hsame : ∀ s, ¬ swept s → s.Same g.tables (g.tables.after c)) (ha : writes a = true) :
    Explains filled swept ⟨g.tables.after c, g.minted, swept⟩ f es (h ++ [a]) where
  stale _ := id
  found s d r hd hr := by
    obtain ⟨rfl, hp⟩ | ⟨hs, hp⟩ | hp := he.found s d r hd hr
    -- what was the reply of the store still is, unless the shelf is to be swept
    · by_cases hs : swept s
      · exact .inr (.inl ⟨hs, hp.concat ha⟩)
      · exact .inl ⟨(hsame s hs d hd).symm, hp.append [a]⟩
    · exact .inr (.inl ⟨he.stale s hs, hp.append [a]⟩)
    · exact .inr (.inr (hp.imp_right (·.append [a])))
  held s text ht := by
    by_cases hs : swept s
    · exact .inr (.inl hs)
    · obtain ht | hs' | ⟨-, hs', -⟩ := he.held s text ht
      · exact .inl (ht.trans (hsame s hs).text.symm)
      · exact absurd (he.stale s hs') hs
      · exact absurd hs' hs

theorem Explains.drop (he : Explains filled swept g f es h) {keys : List String}
    (ha : ∀ s : Shelf, s.key ∈ keys → drops s a = true) :
    Explains filled swept { g with stale := fun s => g.stale s ∧ s.key ∉ keys } f
      (es.without keys) (h ++ [a]) where
  stale s hs := he.stale s hs.1
  found s c r hc hr := by
    obtain ⟨rfl, hp⟩ | ⟨hs, hp⟩ | hp := he.found s c r hc hr
    · exact .inl ⟨rfl, hp.append [a]⟩
    · by_cases hkey : s.key ∈ keys
      · exact .inr (.inr ⟨he.stale s hs, hp.concat (ha s hkey)⟩)
      · exact .inr (.inl ⟨⟨hs, hkey⟩, hp.append [a]⟩)
    · exact .inr (.inr (hp.imp_right (·.append [a])))
  held s text ht := by
    rw [Cache.Entries.text?_without] at ht
    split at ht
    · cases ht
    · rename_i hkey
      obtain ht | hs | ⟨hf, hs, ho⟩ := he.held s text ht
      · exact .inl ht
      · exact .inr (.inl ⟨hs, hkey⟩)
      · exact .inr (.inr ⟨hf, hs, ho.append [a]⟩)

end Explains

/-! One move. -/

section Moves

variable {filled swept : Shelf → Prop} {g : Sweep} {f : Findings} {h : List Access} {w : World}

theorem Bears.quiet (hw : Bears g w) {e : Effect} (he : e.isQuiet = true) :
    Bears g (w.answer e).2 ∧ (w.answer e).2.server.entries = w.server.entries := by
  obtain ⟨hsame, hserver⟩ := w.same_quiet he
  refine ⟨⟨?_, ?_, ?_, ?_⟩, congrArg Cache.Server.entries hserver⟩
  · rw [hsame.ledger, hw.ledger]
  · rw [hserver, hw.faults]
  · rw [hsame.minted, hw.minted]
  · rw [hsame.clock]
    exact hw.clock

theorem Bears.call (hw : Bears g w) (c : Call) (stale : Shelf → Prop) :
    (w.answer (.store c)).1 = .ok (g.tables.reply c) ∧
      Bears ⟨g.tables.after c, g.minted, stale⟩ (w.answer (.store c)).2 ∧
      (w.answer (.store c)).2.server.entries = w.server.entries := by
  have hfaults : w.ledger.faults = .none := by rw [hw.ledger]
  rw [World.answer_store hfaults, hw.ledger]
  exact ⟨rfl, ⟨rfl, hw.faults, hw.minted, hw.clock⟩, rfl⟩

theorem Bears.command (hw : Bears g w) (c : Cache.Command) (stale : Shelf → Prop) :
    Bears { g with stale } (w.answer (.cache c)).2 ∧
      (w.answer (.cache c)).2.server.entries = w.server.entries.after c := by
  rw [World.answer_command hw.faults]
  exact ⟨⟨hw.ledger, rfl, hw.minted, hw.clock⟩, rfl⟩

theorem Explains.answer_resolution (he : Explains filled swept g f w.server.entries h)
    (hw : Bears g w) {e : Effect} (hallows : (Findings.law filled).allows f e) :
    Bears g (w.answer e).2 ∧
      Explains filled swept g ((Findings.law filled).record f e (w.answer e).1)
        (w.answer e).2.server.entries (h ++ [⟨0, e, (w.answer e).1⟩]) := by
  have hquiet (he' : e.isQuiet = true) : Bears g (w.answer e).2 ∧ Explains filled swept g f
      (w.answer e).2.server.entries (h ++ [⟨0, e, (w.answer e).1⟩]) := by
    obtain ⟨hbears, hentries⟩ := hw.quiet he'
    rw [hentries]
    exact ⟨hbears, he.append _⟩
  cases e with
  | store c =>
    obtain ⟨hreply, hbears, hentries⟩ := hw.call c g.stale
    rw [Tables.after_eq_self hallows] at hbears
    rw [hentries, hreply]
    exact ⟨hbears, he.read fun _ => id⟩
  | cache c =>
    obtain ⟨hbears, hentries⟩ := hw.command c g.stale
    rw [hentries]
    refine ⟨hbears, ?_⟩
    cases c with
    | get key => exact he.append _
    | set key ttl text =>
      obtain ⟨s, reply, hs, hf, rfl, rfl⟩ := hallows
      exact he.fill hs hf (decide_eq_true rfl)
    | ping | delete | scan => cases hallows
  | database | publish | mint => cases hallows
  | _ => exact hquiet rfl

theorem Explains.answer_mutation (he : Explains filled swept g f w.server.entries h)
    (hw : Bears g w) {e : Effect} (hallows : (Sweep.law swept).allows g e) :
    (Sweep.law swept).expects g e (w.answer e).1 ∧
      Bears ((Sweep.law swept).record g e (w.answer e).1) (w.answer e).2 ∧
      Explains filled swept ((Sweep.law swept).record g e (w.answer e).1) f
        (w.answer e).2.server.entries (h ++ [⟨1, e, (w.answer e).1⟩]) := by
  have hquiet (he' : e.isQuiet = true) : Bears g (w.answer e).2 ∧ Explains filled swept g f
      (w.answer e).2.server.entries (h ++ [⟨1, e, (w.answer e).1⟩]) := by
    obtain ⟨hbears, hentries⟩ := hw.quiet he'
    rw [hentries]
    exact ⟨hbears, he.append _⟩
  cases e with
  | store c =>
    obtain ⟨hreply, hbears, hentries⟩ := hw.call c swept
    refine ⟨hreply, ?_⟩
    rw [hentries]
    change Bears (ite _ _ _) _ ∧ Explains filled swept (ite _ _ _) f _ _
    by_cases hc : c.isWrite = true
    · rw [if_pos hc]
      exact ⟨hbears, he.write hallows hc⟩
    · rw [if_neg hc]
      obtain ⟨-, hbears, -⟩ := hw.call c g.stale
      rw [Tables.after_eq_self (Bool.eq_false_of_not_eq_true hc)] at hbears
      exact ⟨hbears, he.append _⟩
  | cache c =>
    cases c with
    | delete keys =>
      obtain ⟨hbears, hentries⟩ := hw.command (.delete keys) fun s => g.stale s ∧ s.key ∉ keys
      rw [hentries]
      exact ⟨trivial, hbears, he.drop fun _ => decide_eq_true⟩
    | ping | get | set | scan => cases hallows
  | database => cases hallows
  | mint =>
    refine ⟨congrArg identifier hw.minted, ⟨hw.ledger, hw.faults, ?_, hw.clock⟩, ?_⟩
    · exact congrArg (· + 1) hw.minted
    · exact ⟨he.stale, (he.append _).found, (he.append _).held⟩
  | now => exact ⟨hw.clock, hquiet rfl⟩
  | publish text =>
    exact ⟨trivial, ⟨hw.ledger, hw.faults, hw.minted, hw.clock⟩, he.append _⟩
  | _ => exact ⟨trivial, hquiet rfl⟩

end Moves

/-! Runs. -/

def underway (m : Mutation) (cache : GrantCache) (account : String) (w : World) : Concurrent Unit :=
  .ofPrograms w [do let _ ← Grants.ofAccount ⟨some cache⟩ account, m.program cache]

/-- Both are about the shelf, and it was overtaken. -/
structure Overtakes (m : Mutation) (t : Tables) (account : String) (s : Shelf) (h : List Access) :
    Prop where
  swept : m.swept t s
  filled : s = .rows account ∨ s = .table
  overtaken : s.IsOvertaken h

structure Tracks (filled swept : Shelf → Prop) (x : Watched Unit) (g : Sweep) (f : Findings)
    (resolution mutation : Task Unit) : Prop where
  tasks : x.state.tasks = [resolution, mutation]
  fills : Findings.Fills filled resolution.rest (fun _ _ => True) f
  heeds : mutation.rest.Heeds (Sweep.law swept) (fun _ => Sweep.IsClean) Sweep.IsClean g
  bears : Bears g x.state.world
  explains : Explains filled swept g f x.state.world.server.entries x.history

theorem tracks_underway {w : World} (hfit : w.IsFit) (hcoherent : w.IsCoherent [])
    (cache : GrantCache) (m : Mutation) (account : String) :
    Tracks (fun s => s = .rows account ∨ s = .table) (m.swept w.ledger.tables)
      ⟨m.underway cache account w, []⟩ ⟨w.ledger.tables, w.minted, fun _ => False⟩ []
      ⟨do let _ ← Grants.ofAccount ⟨some cache⟩ account, {}⟩ ⟨m.program cache, {}⟩ := by
  have hclean : Sweep.IsClean ⟨w.ledger.tables, w.minted, fun _ => False⟩ :=
    ⟨⟨hfit.tables, hfit.entitlements⟩, fun _ => id⟩
  have hledger : w.ledger = ⟨w.ledger.tables, .none⟩ := by rw [← hfit.faults]
  have htext := (World.isCoherent_iff.1 hcoherent).2
  constructor
  case tasks => rfl
  case fills => exact (Grants.fills_ofAccount cache account).bind fun _ _ _ => trivial
  case heeds => exact m.heeds_program hclean cache
  case bears => exact ⟨hledger, hcoherent.faults, rfl, hfit.clock⟩
  case explains =>
    constructor
    case stale => exact fun _ => False.elim
    case found => exact fun _ _ _ _ hr => absurd hr List.not_mem_nil
    case held => exact fun s text ht => .inl (htext s text ht)

def IsDated : Move → Prop
  | .turn _ => True
  | .tick now => now.IsDated

section Tracks

variable {filled swept : Shelf → Prop} {x y : Watched Unit} {g : Sweep} {f : Findings}
  {r m : Task Unit}

theorem Tracks.goes (hx : Tracks filled swept x g f r m) {move : Move} (hmove : IsDated move)
    (hgo : x.Goes move y) : ∃ g f r m, Tracks filled swept y g f r m := by
  have hbears (t : Task Unit) : Bears g { x.state.world with correlation := t.correlation } :=
    ⟨hx.bears.ledger, hx.bears.faults, hx.bears.minted, hx.bears.clock⟩
  have htasks := hx.tasks
  cases hgo with
  | tick now =>
    refine ⟨g, f, r, m, hx.tasks, hx.fills, hx.heeds, ?_, hx.explains⟩
    exact ⟨hx.bears.ledger, hx.bears.faults, hx.bears.minted, hmove⟩
  | wait => exact ⟨g, f, r, m, hx⟩
  | @access n t e next htask hrest hadmits =>
    rw [htasks] at htask
    match n, htask with
    -- the resolution goes on: what the mutation has on record still holds
    | 0, htask =>
      obtain rfl : r = t := Option.some.inj htask
      let v : World := { x.state.world with correlation := r.correlation }
      have hfills := hx.fills
      rw [hrest] at hfills
      obtain ⟨hallows, hnext⟩ := hfills
      obtain ⟨hw, he⟩ := Explains.answer_resolution (w := v) hx.explains (hbears r) hallows
      refine ⟨g, _, ⟨next (v.answer e).1, (v.answer e).2.correlation⟩, m, ?_, hnext _ trivial,
        hx.heeds, ?_, he⟩
      · change x.state.tasks.set 0 _ = _
        rw [htasks]
        rfl
      · exact ⟨hw.ledger, hw.faults, hw.minted, hw.clock⟩
    -- the mutation goes on: what was found stays found
    | 1, htask =>
      obtain rfl : m = t := Option.some.inj htask
      let v : World := { x.state.world with correlation := m.correlation }
      have hheeds := hx.heeds
      rw [hrest] at hheeds
      obtain ⟨hallows, hnext⟩ := hheeds
      obtain ⟨hexpects, hw, he⟩ := Explains.answer_mutation (w := v) hx.explains (hbears m) hallows
      refine ⟨_, f, r, ⟨next (v.answer e).1, (v.answer e).2.correlation⟩, ?_, hx.fills,
        hnext _ hexpects, ?_, he⟩
      · change x.state.tasks.set 1 _ = _
        rw [htasks]
        rfl
      · exact ⟨hw.ledger, hw.faults, hw.minted, hw.clock⟩

theorem Tracks.isClean (hx : Tracks filled swept x g f r m) {earlier : Option (Except Error Unit)}
    {outcome : Except Error Unit} (hended : x.state.outcomes = [earlier, some outcome]) :
    g.IsClean := by
  have hm : m.outcome? = some outcome := by
    rw [Concurrent.outcomes, hx.tasks] at hended
    exact (List.cons.inj (List.cons.inj hended).2).1
  have hheeds := hx.heeds
  obtain ⟨rest, correlation⟩ := m
  cases rest with
  | done a => exact hheeds
  | fail e => exact hheeds
  | ask e next => cases hm

end Tracks

theorem exists_tracks {w : World} (hfit : w.IsFit) (hcoherent : w.IsCoherent [])
    (cache : GrantCache) (m : Mutation) (account : String) {moves : List Move}
    (hmoves : ∀ move ∈ moves, IsDated move) {x : Watched Unit}
    (hx : x = (m.underway cache account w).watch moves) :
    ∃ g f r t, Tracks (fun s => s = .rows account ∨ s = .table) (m.swept w.ledger.tables) x g f r
      t := by
  subst hx
  refine watch_induction_of (P := IsDated) (I := fun x => ∃ g f r t, Tracks
    (fun s => s = .rows account ∨ s = .table) (m.swept w.ledger.tables) x g f r t)
    ⟨_, _, _, _, tracks_underway hfit hcoherent cache m account⟩ ?_ hmoves
  rintro x move y hmove ⟨g, f, r, t, hx⟩ hgo
  exact hx.goes hmove hgo

/-- Once a mutation has ended, each shelf that it has not overtaken a resolution on is empty or
holds what the store returns. A resolution that begins then gets what the store returns, unless one
of the two shelves that it needs was overtaken. -/
theorem isCurrent_unless_overtaken {w : World} (hfit : w.IsFit) (hcoherent : w.IsCoherent [])
    (cache : GrantCache) (m : Mutation) (account : String) {moves : List Move}
    (hmoves : ∀ move ∈ moves, IsDated move) {x : Watched Unit}
    (hx : x = (m.underway cache account w).watch moves) {resolved : Option (Except Error Unit)}
    {outcome : Except Error Unit} (hended : x.state.outcomes = [resolved, some outcome]) :
    (∀ s, ¬ m.Overtakes w.ledger.tables account s x.history → s.IsCurrent x.state.world) ∧
      ∀ a, ¬ m.Overtakes w.ledger.tables account (.rows a) x.history →
        ¬ m.Overtakes w.ledger.tables account .table x.history →
        ((Grants.ofAccount ⟨some cache⟩ a).run x.state.world).1 =
          .ok ⟨a, x.state.world.ledger.tables.grantsOf a⟩ := by
  obtain ⟨g, f, r, t, hx⟩ := exists_tracks hfit hcoherent cache m account hmoves hx
  have hclean := hx.isClean hended
  have htables : x.state.world.ledger.tables = g.tables := by rw [hx.bears.ledger]
  have hworld : x.state.world.IsFit :=
    { faults := by rw [hx.bears.ledger]
      tables := by rw [htables, hx.bears.minted]; exact hclean.tables
      entitlements := by rw [htables]; exact hclean.entitlements
      clock := hx.bears.clock }
  have hcurrent (s : Shelf) (hs : ¬ m.Overtakes w.ledger.tables account s x.history) :
      s.IsCurrent x.state.world := by
    intro text ht
    obtain rfl | hstale | ⟨hfilled, hswept, ho⟩ := hx.explains.held s text ht
    · rw [htables]
      exact Shelf.conveys_text hclean.tables hclean.entitlements s
    · exact absurd hstale (hclean.stale s)
    · exact absurd ⟨hswept, hfilled, ho⟩ hs
  refine ⟨hcurrent, fun a hrows htable => ?_⟩
  exact Grants.run_ofAccount_of_isCurrent hworld hx.bears.faults (hcurrent _ hrows)
    (hcurrent _ htable) cache

/-! An account whose only ruleset is taken away while its rows are on their way to the cache. -/

def granted : World :=
  let now := Instant.ofSeconds 0
  { World.initial .error none ⟨"", none, none, none⟩ with
    minted := 2
    ledger :=
      { tables :=
          { Tables.empty with
            entitlements :=
              ⟨[⟨identifier 0, "curve-analyst", "", "", [], [], ["export"], [], now, now⟩],
                List.nodup_singleton _⟩
            accountRulesets :=
              ⟨[⟨identifier 1, "ann", "curve-analyst", "t1", [], now⟩], List.nodup_singleton _⟩ }
        faults := .none } }

theorem isFit_granted : granted.IsFit where
  faults := rfl
  tables :=
    { roles := fun _ h => absurd h List.not_mem_nil
      memberships := fun _ h => absurd h List.not_mem_nil
      roleRulesets := fun _ h => absurd h List.not_mem_nil
      accountRulesets := fun r hr => by
        rw [List.mem_singleton.1 hr]
        exact ⟨isMade_identifier 1, by decide⟩ }
  entitlements e he := by
    rw [List.mem_singleton.1 he]
    exact ⟨by simp, by decide, by decide⟩
  clock := by decide

theorem isCoherent_granted : granted.IsCoherent [] where
  faults := rfl
  rows _ _ _ ht := nomatch ht
  table _ _ ht := nomatch ht

def revokesAnn : Mutation := .operation (.revokeAccountRuleset "ann" "curve-analyst" "t1")

def inTurn (turns : List (Nat × Nat)) : List Move :=
  turns.flatMap fun (n, count) => List.replicate count (.turn n)

theorem isDated_inTurn (turns : List (Nat × Nat)) : ∀ move ∈ inTurn turns, IsDated move := by
  intro move hmove
  obtain ⟨⟨n, count⟩, -, hmove⟩ := List.mem_flatMap.1 hmove
  rw [List.eq_of_mem_replicate hmove]
  trivial

def arrivedEarly : Watched Unit :=
  (revokesAnn.underway {} "ann" granted).watch (inTurn [(0, 7), (1, 2), (0, 20), (1, 20)])

theorem isCurrent_unless_overtaken_granted :
    (Shelf.rows "ann").IsCurrent arrivedEarly.state.world ∧
      ((Grants.ofAccount ⟨some {}⟩ "ann").run arrivedEarly.state.world).1 = .ok ⟨"ann", []⟩ := by
  have hended : arrivedEarly.state.outcomes = [some (.ok ()), some (.ok ())] := by decide +kernel
  have hrows : ¬ (Shelf.rows "ann").IsOvertaken arrivedEarly.history := by decide +kernel
  have htable : ¬ Shelf.table.IsOvertaken arrivedEarly.history := by decide +kernel
  have hgrants : arrivedEarly.state.world.ledger.tables.grantsOf "ann" = [] := by decide +kernel
  obtain ⟨hcurrent, hgranted⟩ := isCurrent_unless_overtaken isFit_granted isCoherent_granted {}
    revokesAnn "ann" (isDated_inTurn _) (x := arrivedEarly) rfl hended
  refine ⟨hcurrent _ fun h => hrows h.overtaken, ?_⟩
  rw [hgranted "ann" (fun h => hrows h.overtaken) (fun h => htable h.overtaken), hgrants]

def arrivedLate : Watched Unit :=
  (revokesAnn.underway {} "ann" granted).watch (inTurn [(0, 7), (1, 20), (0, 20)])

/-- Whoever asks then is told what was taken away. -/
theorem overtaken_granted :
    granted.IsFit ∧ granted.IsCoherent [] ∧
      arrivedLate.state.outcomes = [some (.ok ()), some (.ok ())] ∧
      ¬ (Shelf.rows "ann").IsCurrent arrivedLate.state.world ∧
      ((Grants.rulesets ⟨some {}⟩ "ann").run arrivedLate.state.world).1 =
        .ok (granted.ledger.tables.reachable "ann") ∧
      arrivedLate.state.world.ledger.tables.reachable "ann" ≠
        granted.ledger.tables.reachable "ann" := by
  obtain ⟨_, _, _, _, hx⟩ := exists_tracks isFit_granted isCoherent_granted {} revokesAnn "ann"
    (isDated_inTurn _) (x := arrivedLate) rfl
  have htext : arrivedLate.state.world.server.entries.text? (GrantCache.accountKey "ann") =
      some (Wire.write (granted.ledger.tables.reachable "ann").value) := by
    decide +kernel
  have htaken : arrivedLate.state.world.ledger.tables.reachable "ann" ≠
      granted.ledger.tables.reachable "ann" := by
    decide +kernel
  have hdated := isFit_granted.tables.isDated "ann"
  refine ⟨isFit_granted, isCoherent_granted, by decide +kernel, fun hcurrent => htaken ?_, ?_,
    htaken⟩
  · have hconveys := (hcurrent _ htext).rows (.ofSeconds 0)
    rw [Rulesets.read?_write hdated] at hconveys
    exact (Option.some.inj hconveys).symm
  · exact Grants.run_rulesets_of_cached hx.bears.faults hdated htext {}

end Mutation

end AccessControl
