import AccessControl.Proofs.Administration.Operations
import AccessControl.Proofs.Cache.Entries
import AccessControl.Proofs.Grant.Resolution
import AccessControl.Proofs.Pipe.Keeping
import AccessControl.Proofs.Text.Order

/-!
Revoked rows in the cache, under failures of the store and of the cache server. A row that an account
no longer reaches stays cached exactly when the operation that removed it failed, or failed to drop
the cached rows of the account.
-/

namespace AccessControl

open Program Administration Store

/-! What is cached, and what is reached. -/

namespace World

def Caches (w : World) (account : String) (r : Ruleset) : Prop :=
  ∃ text now rows, w.server.entries.text? (GrantCache.accountKey account) = some text ∧
    Rulesets.read? now text = some rows ∧ r ∈ rows.toList

def Reaches (w : World) (account : String) (r : Ruleset) : Prop :=
  r ∈ (w.ledger.tables.reachable account).toList

/-- Every row that is cached for an account is reached by it. -/
def IsSound (w : World) : Prop :=
  ∀ account r, w.Caches account r → w.Reaches account r

structure IsTended (w : World) : Prop where
  tables : w.ledger.tables.IsKept w.minted
  clock : w.clock.IsDated

def Drops (w : World) (accounts : List String) (account : String) : Prop :=
  ∃ i, accounts[i]? = some account ∧ w.server.faults .delete i = none

/-- The deletion for an account is among those to come for a list of accounts, and fails. -/
def Misses (w : World) (accounts : List String) (account : String) : Prop :=
  ∃ i reason, accounts[i]? = some account ∧ w.server.faults .delete i = some reason

/-- Nothing but what the cache server holds is different. -/
structure Beside (v w : World) : Prop where
  ledger : v.ledger = w.ledger
  minted : v.minted = w.minted
  clock : v.clock = w.clock

theorem Beside.trans {u v w : World} (h : u.Beside v) (h' : v.Beside w) : u.Beside w :=
  ⟨h.ledger.trans h'.ledger, h.minted.trans h'.minted, h.clock.trans h'.clock⟩

end World

namespace GrantCache

theorem run_dropAccount (account : String) (w : World) :
    ∃ b v, (dropAccount account).run w = (.ok b, v) ∧ v.Beside w ∧
      (∀ i, v.server.faults .delete i = w.server.faults .delete (i + 1)) ∧
      ∀ key text, v.server.entries.text? key = some text ↔
        w.server.entries.text? key = some text ∧
          ¬ (key = accountKey account ∧ w.server.faults .delete 0 = none) := by
  have hskip (i : Nat) : w.server.faults.skip .delete .delete i = w.server.faults .delete (i + 1) :=
    if_pos rfl
  cases hf : w.server.faults .delete 0 with
  | some reason =>
    have hanswer : w.answer (.cache (.delete [accountKey account])) = (.error reason,
        { w with server := ⟨w.server.entries, w.server.faults.skip .delete⟩ }) := by
      rw [World.answer, Cache.Server.serve, Cache.Command.verb, Faults.take, hf]
    refine ⟨false, ?v, ?run, ?beside, ?faults, ?entries⟩
    case run =>
      rw [dropAccount, succeeded, run_bind, run_perform, hanswer]
      rfl
    case beside => exact ⟨rfl, rfl, rfl⟩
    case faults => exact hskip
    case entries =>
      intro key text
      change w.server.entries.text? key = some text ↔ _
      simp
  | none =>
    have hanswer : w.answer (.cache (.delete [accountKey account])) =
        (.ok (w.server.entries.reply (.delete [accountKey account])), { w with server :=
          ⟨w.server.entries.without [accountKey account], w.server.faults.skip .delete⟩ }) := by
      rw [World.answer, Cache.Server.serve, Cache.Command.verb, Faults.take, hf]
      rfl
    refine ⟨true, ?u, ?run, ?beside, ?faults, ?entries⟩
    case run =>
      rw [dropAccount, succeeded, run_bind, run_perform, hanswer]
      rfl
    case beside => exact ⟨rfl, rfl, rfl⟩
    case faults => exact hskip
    case entries =>
      intro key text
      change (w.server.entries.without [accountKey account]).text? key = some text ↔ _
      simp only [Cache.Entries.text?_without, List.mem_singleton]
      by_cases hk : key = accountKey account <;> simp [hk]

theorem run_dropAll (accounts : List String) (w : World) :
    ∃ v, (accounts.forM fun a => do let _ ← dropAccount a).run w = (.ok (), v) ∧ v.Beside w ∧
      ∀ key text, v.server.entries.text? key = some text ↔
        w.server.entries.text? key = some text ∧
          ¬ ∃ a, key = accountKey a ∧ w.Drops accounts a := by
  induction accounts generalizing w with
  | nil => exact ⟨w, rfl, ⟨rfl, rfl, rfl⟩, fun key text => by simp [World.Drops]⟩
  | cons a as ih =>
    obtain ⟨b, u, hu, hbeside, hfaults, hentries⟩ := run_dropAccount a w
    obtain ⟨v, hv, hbeside', hentries'⟩ := ih u
    -- once the deletion for `a` is over, the failures to come are one place nearer
    have hdrops (c : String) :
        w.Drops (a :: as) c ↔ (c = a ∧ w.server.faults .delete 0 = none) ∨ u.Drops as c := by
      constructor
      · rintro ⟨i, hi, hf⟩
        cases i with
        | zero => exact .inl ⟨(Option.some.inj hi).symm, hf⟩
        | succ i => exact .inr ⟨i, hi, (hfaults i).trans hf⟩
      · rintro (⟨rfl, hf⟩ | ⟨i, hi, hf⟩)
        · exact ⟨0, rfl, hf⟩
        · exact ⟨i + 1, hi, (hfaults i).symm.trans hf⟩
    refine ⟨v, ?_, hbeside'.trans hbeside, fun key text => ?_⟩
    · change ((dropAccount a >>= fun _ => pure ()) >>= fun _ => List.forM as _).run w = _
      rw [run_bind, run_bind, hu]
      exact hv
    · rw [hentries', hentries, and_assoc]
      refine and_congr_right fun _ => ?_
      constructor
      · rintro ⟨ha, has⟩ ⟨c, rfl, hc⟩
        rcases (hdrops c).1 hc with ⟨rfl, hf⟩ | hc
        · exact ha ⟨rfl, hf⟩
        · exact has ⟨c, rfl, hc⟩
      · intro h
        refine ⟨?_, ?_⟩
        · rintro ⟨rfl, hf⟩
          exact h ⟨a, rfl, (hdrops a).2 (.inl ⟨rfl, hf⟩)⟩
        · rintro ⟨c, rfl, hc⟩
          exact h ⟨c, rfl, (hdrops c).2 (.inr hc)⟩

end GrantCache

/-! One operation. -/

namespace Operation

theorem server_change (op : Operation) (w : World) : (op.change.run w).2.server = w.server := by
  have hkeeps : Keeps World.answer (fun v => v.server = w.server) op.change := by
    refine op.only_change.keeps fun e he v hv => ?_
    cases e with
    | store | mint | now | record => exact hv
    | _ => cases he
  rw [← runBy_answer]
  exact (hkeeps.run rfl).2

theorem run_settle (cache : GrantCache) (u : Upshot) (w : World) :
    ∃ v, (u.settle (some cache)).run w = (.ok (), v) ∧ v.Beside w ∧
      ∀ key text, v.server.entries.text? key = some text ↔
        w.server.entries.text? key = some text ∧
          ¬ ∃ a, key = GrantCache.accountKey a ∧ w.Drops (Text.members u.accounts) a := by
  obtain ⟨v, hv, hbeside, hentries⟩ := GrantCache.run_dropAll (Text.members u.accounts) w
  have hrun : (u.settle (some cache)).run w = (u.settle none).run v := by
    rw [settle_some, run_bind, GrantCache.dropAccounts]
    simp only [hv]
  obtain ⟨accounts, line⟩ := u
  cases line with
  | none => exact ⟨v, hrun, hbeside, hentries⟩
  | some line => exact ⟨_, hrun, ⟨hbeside.ledger, hbeside.minted, hbeside.clock⟩, hentries⟩

/-- An operation keeps the tables. When it fails it leaves the cache alone; otherwise it drops
cached rows of accounts that may reach other rows than before. -/
theorem run_tended {w : World} (hw : w.IsTended) (cache : GrantCache) (op : Operation) :
    ((op.run (some cache)).run w).2.IsTended ∧
      ((∃ e, ((op.run (some cache)).run w).1 = .error e) ∧
          ((op.run (some cache)).run w).2.server = w.server ∨
        ((op.run (some cache)).run w).1 = .ok () ∧
          (∀ a, a ∉ op.touched w.ledger.tables → ∀ r,
            ((op.run (some cache)).run w).2.Reaches a r ↔ w.Reaches a r) ∧
          ∀ key text, ((op.run (some cache)).run w).2.server.entries.text? key = some text ↔
            w.server.entries.text? key = some text ∧ ¬ ∃ a, key = GrantCache.accountKey a ∧
              w.Drops (Text.members (op.touched w.ledger.tables)) a) := by
  have hat : w.At False w.ledger.tables w.minted := ⟨rfl, rfl, hw.clock, False.elim⟩
  have hchange := attains_change hw.tables False op w hat
  have hserver := op.server_change w
  rw [runBy_answer] at hchange
  rw [run_eq, run_bind]
  revert hchange hserver
  rcases op.change.run w with ⟨e | u, v⟩
  · rintro ⟨t, n, hv, hk, -⟩ hserver
    exact ⟨⟨by rw [hv.tables, hv.minted]; exact hk, hv.clock⟩, .inl ⟨⟨e, rfl⟩, hserver⟩⟩
  · rintro ⟨hu, t, n, hv, hk, -, hreach⟩ hserver
    obtain ⟨v', hrun, hbeside, hentries⟩ := run_settle cache u v
    have htables : v'.ledger.tables = t := by rw [hbeside.ledger, hv.tables]
    have hminted : v'.minted = n := by rw [hbeside.minted, hv.minted]
    have hserver : v.server = w.server := hserver
    simp only [hrun]
    refine ⟨⟨?_, ?_⟩, .inr ⟨trivial, fun a ha r => ?_, fun key text => ?_⟩⟩
    · rw [htables, hminted]
      exact hk
    · rw [hbeside.clock]
      exact hv.clock
    · rw [World.Reaches, World.Reaches, htables, hreach a ha]
    · rw [hentries, hserver, hu]
      simp only [World.Drops, hserver]

/-- An operation slips on a row that is cached for an account: the account does not reach the row
any more, but the operation failed, or its deletion of what is cached for the account did. -/
def Slips (cache : GrantCache) (op : Operation) (w : World) : Prop :=
  ∃ a r, w.Caches a r ∧ ¬ ((op.run (some cache)).run w).2.Reaches a r ∧
    ((∃ e, ((op.run (some cache)).run w).1 = .error e) ∨
      w.Misses (Text.members (op.touched w.ledger.tables)) a)

theorem not_drops_of_misses {w : World} {names : List String} {a : String}
    (h : w.Misses (Text.members names) a) : ¬ w.Drops (Text.members names) a := by
  obtain ⟨i, reason, hi, hfails⟩ := h
  rintro ⟨j, hj, hsucceeds⟩
  obtain ⟨hlt, -⟩ := List.getElem?_eq_some_iff.1 hi
  have hij : i = j := (List.getElem?_inj hlt (Text.nodup_members names)).1 (hi.trans hj.symm)
  rw [hij, hsucceeds] at hfails
  cases hfails

theorem misses_of_not_drops {w : World} {names : List String} {a : String} (ha : a ∈ names)
    (h : ¬ w.Drops (Text.members names) a) : w.Misses (Text.members names) a := by
  obtain ⟨i, hi⟩ := List.mem_iff_getElem?.1 (Text.mem_members.2 ha)
  cases hf : w.server.faults .delete i with
  | none => exact absurd ⟨i, hi, hf⟩ h
  | some reason => exact ⟨i, reason, hi, hf⟩

/-- Cached rows are reached after an operation exactly when it did not slip. -/
theorem isSound_iff {w : World} (hw : w.IsTended) (hs : w.IsSound) (cache : GrantCache)
    (op : Operation) : ((op.run (some cache)).run w).2.IsSound ↔ ¬ op.Slips cache w := by
  obtain ⟨-, ⟨hfailed, hserver⟩ | ⟨hok, hreach, hentries⟩⟩ := run_tended hw cache op
  · have hcaches (a : String) (r : Ruleset) :
        ((op.run (some cache)).run w).2.Caches a r ↔ w.Caches a r := by
      rw [World.Caches, World.Caches, hserver]
    constructor
    · rintro hsound ⟨a, r, hc, hn, -⟩
      exact hn (hsound a r ((hcaches a r).2 hc))
    · intro hslips a r hc
      by_contra hn
      exact hslips ⟨a, r, (hcaches a r).1 hc, hn, .inl hfailed⟩
  · have hcaches (a : String) (r : Ruleset) : ((op.run (some cache)).run w).2.Caches a r ↔
        w.Caches a r ∧ ¬ w.Drops (Text.members (op.touched w.ledger.tables)) a := by
      constructor
      · rintro ⟨text, now, rows, ht, hr, hm⟩
        obtain ⟨ht, hd⟩ := (hentries _ _).1 ht
        exact ⟨⟨text, now, rows, ht, hr, hm⟩, fun h => hd ⟨a, rfl, h⟩⟩
      · rintro ⟨⟨text, now, rows, ht, hr, hm⟩, hd⟩
        refine ⟨text, now, rows, (hentries _ _).2 ⟨ht, ?_⟩, hr, hm⟩
        rintro ⟨b, hb, h⟩
        exact hd (GrantCache.accountKey_injective hb ▸ h)
    constructor
    · rintro hsound ⟨a, r, hc, hn, ⟨e, he⟩ | hmisses⟩
      · cases hok.symm.trans he
      · exact hn (hsound a r ((hcaches a r).2 ⟨hc, not_drops_of_misses hmisses⟩))
    · intro hslips a r hc
      obtain ⟨hc, hd⟩ := (hcaches a r).1 hc
      by_cases ha : a ∈ op.touched w.ledger.tables
      · by_contra hn
        exact hslips ⟨a, r, hc, hn, .inr (misses_of_not_drops ha hd)⟩
      · exact (hreach a ha r).2 (hs a r hc)

end Operation

end AccessControl
