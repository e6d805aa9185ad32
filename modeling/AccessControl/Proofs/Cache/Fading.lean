import AccessControl.Proofs.Cache.Entries
import AccessControl.Proofs.Decision.Answers

/-!
A cache server that works, but whose texts may expire before any access. As long as what it holds
is what the store would say, resolution gets the rows of the store.
-/

namespace AccessControl

open Program Store

namespace World

structure Same (v w : World) : Prop where
  ledger : v.ledger = w.ledger
  minted : v.minted = w.minted
  clock : v.clock = w.clock
  disk : v.disk = w.disk

theorem Same.refl (w : World) : w.Same w :=
  ⟨rfl, rfl, rfl, rfl⟩

theorem Same.symm {v w : World} (h : v.Same w) : w.Same v :=
  ⟨h.ledger.symm, h.minted.symm, h.clock.symm, h.disk.symm⟩

theorem Same.trans {u v w : World} (h : u.Same v) (h' : v.Same w) : u.Same w :=
  ⟨h.ledger.trans h'.ledger, h.minted.trans h'.minted, h.clock.trans h'.clock, h.disk.trans h'.disk⟩

/-- The store does not fail, its rows and the time can be written. -/
structure IsFit (w : World) : Prop where
  faults : w.ledger.faults = .none
  tables : w.ledger.tables.IsKept w.minted
  entitlements : ∀ e ∈ w.ledger.tables.entitlements.rows, e.IsWritable
  clock : w.clock.IsDated

theorem Same.isFit {v w : World} (h : v.Same w) (hw : w.IsFit) : v.IsFit where
  faults := by rw [h.ledger]; exact hw.faults
  tables := by rw [h.ledger, h.minted]; exact hw.tables
  entitlements := by rw [h.ledger]; exact hw.entitlements
  clock := by rw [h.clock]; exact hw.clock

/-- The cache server does not fail, and every text that it holds is what the store would say, but
for those under some keys. -/
structure IsCoherent (stale : List String) (w : World) : Prop where
  faults : w.server.faults = .none
  rows : ∀ a text, GrantCache.accountKey a ∉ stale →
    w.server.entries.text? (GrantCache.accountKey a) = some text →
    text = Wire.write (w.ledger.tables.reachable a).value
  table : ∀ text, GrantCache.entitlementsKey ∉ stale →
    w.server.entries.text? GrantCache.entitlementsKey = some text →
    text = Wire.write (Entitlement.listing w.ledger.tables.entitlements.rows)

def without (w : World) (keys : List String) : World :=
  { w with server := ⟨w.server.entries.without keys, w.server.faults⟩ }

theorem same_without (w : World) (keys : List String) : (w.without keys).Same w :=
  ⟨rfl, rfl, rfl, rfl⟩

theorem text?_without {w : World} {keys : List String} {key text : String}
    (h : (w.without keys).server.entries.text? key = some text) :
    key ∉ keys ∧ w.server.entries.text? key = some text := by
  change (w.server.entries.without keys).text? key = some text at h
  rw [Cache.Entries.text?_without] at h
  split at h
  · cases h
  · exact ⟨‹_›, h⟩

theorem IsCoherent.without {stale : List String} {w : World} (h : w.IsCoherent stale)
    (keys : List String) : (w.without keys).IsCoherent (stale.filter (· ∉ keys)) where
  faults := h.faults
  rows a text hstale ht := by
    obtain ⟨hkey, ht⟩ := text?_without ht
    exact h.rows a text (fun hm => hstale (List.mem_filter.2 ⟨hm, decide_eq_true hkey⟩)) ht
  table text hstale ht := by
    obtain ⟨hkey, ht⟩ := text?_without ht
    exact h.table text (fun hm => hstale (List.mem_filter.2 ⟨hm, decide_eq_true hkey⟩)) ht

theorem IsCoherent.mono {stale stale' : List String} {w : World} (h : w.IsCoherent stale)
    (hs : ∀ key ∈ stale, key ∈ stale') : w.IsCoherent stale' where
  faults := h.faults
  rows a text hstale := h.rows a text fun hm => hstale (hs _ hm)
  table text hstale := h.table text fun hm => hstale (hs _ hm)

theorem same_quiet (w : World) {e : Effect} (he : e.isQuiet) :
    (w.answer e).2.Same w ∧ (w.answer e).2.server = w.server := by
  cases e with
  | store | cache | database | publish | mint => cases he
  | _ => exact ⟨⟨rfl, rfl, rfl, rfl⟩, rfl⟩

theorem same_command (w : World) (c : Cache.Command) : (w.answer (.cache c)).2.Same w :=
  ⟨rfl, rfl, rfl, rfl⟩

theorem answer_store {w : World} (h : w.ledger.faults = .none) (c : Call) :
    w.answer (.store c) = (.ok (w.ledger.tables.reply c),
      { w with ledger := ⟨w.ledger.tables.after c, .none⟩ }) := by
  have hcall : w.ledger.call c =
      (.ok (w.ledger.tables.reply c), ⟨w.ledger.tables.after c, .none⟩) := by
    rw [← Ledger.call_none, ← h]
  simp only [answer, hcall]

theorem answer_command {w : World} (h : w.server.faults = .none) (c : Cache.Command) :
    w.answer (.cache c) = (.ok (w.server.entries.reply c),
      { w with server := ⟨w.server.entries.after c, .none⟩ }) := by
  simp only [answer, Cache.Server.serve, h, Faults.take_none]

theorem IsCoherent.set_rows {w : World} (h : w.IsCoherent []) (ttl : Int) (a : String) :
    (w.answer (.cache (.set (GrantCache.accountKey a) ttl
      (Wire.write (w.ledger.tables.reachable a).value)))).2.IsCoherent [] := by
  rw [answer_command h.faults]
  refine ⟨rfl, fun b text hstale ht => ?_, fun text hstale ht => ?_⟩
  · rw [Cache.Entries.text?_set] at ht
    by_cases hab : a = b
    · subst hab
      rw [if_pos rfl] at ht
      exact (Option.some.inj ht).symm
    · rw [if_neg fun h => hab (GrantCache.accountKey_injective h)] at ht
      exact h.rows b text hstale ht
  · rw [Cache.Entries.text?_set, if_neg (GrantCache.accountKey_ne_entitlementsKey a)] at ht
    exact h.table text hstale ht

theorem IsCoherent.set_table {w : World} (h : w.IsCoherent []) (ttl : Int) :
    (w.answer (.cache (.set GrantCache.entitlementsKey ttl
      (Wire.write (Entitlement.listing w.ledger.tables.entitlements.rows))))).2.IsCoherent [] := by
  rw [answer_command h.faults]
  refine ⟨rfl, fun a text hstale ht => ?_, fun text hstale ht => ?_⟩
  · rw [Cache.Entries.text?_set, if_neg (Ne.symm (GrantCache.accountKey_ne_entitlementsKey a))] at ht
    exact h.rows a text hstale ht
  · rw [Cache.Entries.text?_set, if_pos rfl] at ht
    exact (Option.some.inj ht).symm

theorem IsCoherent.of_same {stale : List String} {v w : World} (h : v.IsCoherent stale)
    (hsame : w.Same v) (hserver : w.server = v.server) : w.IsCoherent stale where
  faults := by rw [hserver]; exact h.faults
  rows a text hstale ht := by
    rw [hserver] at ht
    rw [hsame.ledger]
    exact h.rows a text hstale ht
  table text hstale ht := by
    rw [hserver] at ht
    rw [hsame.ledger]
    exact h.table text hstale ht

end World

/-- A world, and which texts expire before each access to come. -/
structure Fading where
  world : World
  expiring : Nat → List String

namespace Fading

def faded (s : Fading) : World :=
  s.world.without (s.expiring 0)

def answer : Interpreter Fading := fun s e =>
  ((s.faded.answer e).1, ⟨(s.faded.answer e).2, fun n => s.expiring (n + 1)⟩)

/-- The world is the same as another one, but for a cache that is coherent. -/
structure Copies (stale : List String) (w : World) (s : Fading) : Prop where
  same : s.world.Same w
  coherent : s.world.IsCoherent stale

variable {stale : List String} {w : World} {s : Fading}

theorem Copies.faded (h : s.Copies stale w) : s.faded.Same w ∧ s.faded.IsCoherent stale := by
  refine ⟨(World.same_without _ _).trans h.same, (h.coherent.without _).mono fun key hkey => ?_⟩
  exact List.mem_of_mem_filter hkey

theorem Copies.quiet (h : s.Copies stale w) {e : Effect} (he : e.isQuiet) :
    (answer s e).2.Copies stale w := by
  obtain ⟨hsame, hcoherent⟩ := h.faded
  obtain ⟨hquiet, hserver⟩ := s.faded.same_quiet he
  exact ⟨hquiet.trans hsame, hcoherent.of_same hquiet hserver⟩

theorem Copies.ping (h : s.Copies stale w) :
    (answer s (.cache .ping)).1 = .ok () ∧ (answer s (.cache .ping)).2.Copies stale w := by
  obtain ⟨hsame, hcoherent⟩ := h.faded
  have hanswer := World.answer_command hcoherent.faults .ping
  refine ⟨?_, (s.faded.same_command _).trans hsame, ?_⟩
  · simp only [answer, hanswer]
  · simp only [answer, hanswer]
    exact ⟨rfl, hcoherent.rows, hcoherent.table⟩

theorem Copies.delete {key : String} (h : s.Copies (key :: stale) w) :
    (answer s (.cache (.delete [key]))).1 =
        .ok (s.faded.server.entries.reply (.delete [key])) ∧
      (answer s (.cache (.delete [key]))).2.Copies stale w := by
  obtain ⟨hsame, hcoherent⟩ := h.faded
  have hanswer := World.answer_command hcoherent.faults (.delete [key])
  have hdropped : (s.faded.without [key]).IsCoherent stale :=
    (hcoherent.without [key]).mono (by simpa using fun _ hkey _ => hkey)
  refine ⟨?_, (s.faded.same_command _).trans hsame, ?_⟩
  · simp only [answer, hanswer]
  · simp only [answer, hanswer]
    exact ⟨rfl, hdropped.rows, hdropped.table⟩

end Fading

theorem supplies_copies {w : World} (hw : w.IsFit) (cache : GrantCache) :
    SuppliesAll Fading.answer (Fading.Copies [] w) w.ledger.tables (some cache) where
  inert e he s hs := hs.quiet he
  store c hc s hs := by
    obtain ⟨hsame, hcoherent⟩ := hs.faded
    have hanswer := World.answer_store (hsame.isFit hw).faults c
    rw [hsame.ledger, hc] at hanswer
    simp only [Fading.answer, hanswer]
    have hledger : (⟨w.ledger.tables, .none⟩ : Ledger) = w.ledger := by rw [← hw.faults]
    refine ⟨⟨⟨hledger, hsame.minted, hsame.clock, hsame.disk⟩, ?_⟩, rfl⟩
    exact hcoherent.of_same ⟨hledger.trans hsame.ledger.symm, rfl, rfl, rfl⟩ rfl
  rows _ := rfl
  table := rfl
  get _ key s hs := by
    obtain ⟨hsame, hcoherent⟩ := hs.faded
    refine ⟨(s.faded.same_command _).trans hsame, ?_⟩
    simp only [Fading.answer, World.answer_command hcoherent.faults]
    exact ⟨rfl, hcoherent.rows, hcoherent.table⟩
  set_rows c _ a s hs := by
    obtain ⟨hsame, hcoherent⟩ := hs.faded
    rw [← hsame.ledger]
    exact ⟨(s.faded.same_command _).trans hsame, hcoherent.set_rows _ a⟩
  set_table c _ s hs := by
    obtain ⟨hsame, hcoherent⟩ := hs.faded
    rw [← hsame.ledger]
    exact ⟨(s.faded.same_command _).trans hsame, hcoherent.set_table _⟩
  read_rows _ a s hs text htext now rows hrows := by
    obtain ⟨hsame, hcoherent⟩ := hs.faded
    have hanswer := World.answer_command hcoherent.faults (.get (GrantCache.accountKey a))
    simp only [Fading.answer, hanswer] at htext
    rw [hcoherent.rows a text List.not_mem_nil (Except.ok.inj htext), hsame.ledger,
      Rulesets.read?_write (hw.tables.isDated a)] at hrows
    exact (Option.some.inj hrows).symm
  read_table _ s hs text htext now es hes := by
    obtain ⟨hsame, hcoherent⟩ := hs.faded
    have hanswer := World.answer_command hcoherent.faults (.get GrantCache.entitlementsKey)
    simp only [Fading.answer, hanswer] at htext
    rw [hcoherent.table text List.not_mem_nil (Except.ok.inj htext), hsame.ledger,
      Entitlement.readAll?_write hw.entitlements] at hes
    exact (Option.some.inj hes).symm

theorem supplies_same {w : World} (hw : w.IsFit) :
    SuppliesAll World.answer (World.Same · w) w.ledger.tables none := by
  refine supplies_uncached (fun e he v hv => (v.same_quiet he).1.trans hv) fun c hc v hv => ?_
  have hanswer := World.answer_store (hv.isFit hw).faults c
  rw [hv.ledger, hc] at hanswer
  rw [hanswer]
  exact ⟨⟨by rw [← hw.faults], hv.minted, hv.clock, hv.disk⟩, rfl⟩

def Fading.lasting (w : World) : Fading :=
  ⟨w, fun _ => []⟩

theorem Fading.faded_lasting (w : World) : (lasting w).faded = w := by
  have hentries : w.server.entries.without [] = w.server.entries := by
    simp [Cache.Entries.without, Table.filter]
  change { w with server := ⟨w.server.entries.without [], w.server.faults⟩ } = w
  rw [hentries]

theorem Fading.runBy_lasting {α : Type} (p : Program α) (w : World) :
    p.runBy answer (lasting w) = ((p.run w).1, lasting (p.run w).2) := by
  induction p generalizing w with
  | done | fail => rfl
  | ask e next ih =>
    rw [runBy, run, answer, faded_lasting]
    exact ih _ _

theorem World.copies_lasting {w : World} (hw : w.IsCoherent []) :
    (Fading.lasting w).Copies [] w :=
  ⟨.refl w, hw⟩

/-- A store that does not fail holds the tables, and what is cached is what it would say. -/
def World.Provides (grants : Grants) (t : Tables) (w : World) : Prop :=
  w.Stores t ∧ (grants.cache = none ∨ w.IsFit ∧ w.IsCoherent [])

/-- What a program comes to however its resolutions are supplied with the rows of the tables, it comes
to in a world that provides the tables. -/
theorem World.Provides.run_eq {α : Type} {grants : Grants} {t : Tables} {w : World}
    (hw : w.Provides grants t) {p : Program α} {x : Except Error α}
    (hp : ∀ {σ : Type} {ι : Interpreter σ} {I : σ → Prop}, SuppliesAll ι I t grants.cache →
      (∃ s, I s) → Settles ι I p x) : (p.run w).1 = x := by
  rcases grants with ⟨_ | cache⟩
  · rw [← runBy_answer]
    exact ((hp (supplies_stores t) ⟨w, hw.1⟩).run hw.1).1
  · obtain ⟨hfit, hcoherent⟩ := hw.2.resolve_left (by simp)
    have htables : w.ledger.tables = t := by rw [hw.1]
    have hcopies := World.copies_lasting hcoherent
    have hrun := ((hp (htables ▸ supplies_copies hfit cache) ⟨_, hcopies⟩).run hcopies).1
    rwa [Fading.runBy_lasting] at hrun

theorem Grants.run_ofAccount {grants : Grants} {w : World} {t : Tables} (hw : w.Stores t)
    (hcache : grants.cache = none ∨ w.IsFit ∧ w.IsCoherent []) (account : String) :
    ((grants.ofAccount account).run w).1 = .ok ⟨account, t.grantsOf account⟩ :=
  World.Provides.run_eq ⟨hw, hcache⟩ fun hs _ => Grants.settles_ofAccount hs account

end AccessControl
