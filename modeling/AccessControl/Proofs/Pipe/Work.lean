import AccessControl.Proofs.Grant.Isolation
import AccessControl.Proofs.Pipe.Calls
import AccessControl.Proofs.Pipe.Pauses
import AccessControl.Proofs.Program.Running

/-!
One turn of the work of a pipe, in a world. Nobody hears of a call before its last access, and the
resolution finds what it would find alone.
-/

namespace AccessControl

open Program

theorem Effect.alike_of_isSilent {e : Effect} (he : e.isSilent = true) (w : World) :
    (w.answer e).2.Alike w ∧ (w.answer e).2.heard = w.heard := by
  cases e with
  | pause | enter | leave | record | count => exact ⟨⟨rfl, rfl, rfl⟩, rfl⟩
  | _ => cases he

theorem Effect.heard_of_isResolving {e : Effect} (he : e.isResolving = true) (w : World) :
    (w.answer e).2.heard = w.heard := by
  cases e with
  | store | cache | now | timed | tally | pause | record | count => rfl
  | _ => cases he

namespace Program

variable {α β : Type}

theorem turn_ask {e : Effect} (he : e ≠ .pause) (next : e.Reply → Program α) :
    (Program.ask e next).turn = .ask e fun r => (next r).turn := by
  cases e with
  | pause => exact absurd rfl he
  | _ => rfl

theorem Pauses.next {e : Effect} {next : e.Reply → Program α} {k : Nat}
    (h : Pauses k (.ask e next)) (he : e ≠ .pause) (r : e.Reply) : Pauses k (next r) := by
  cases h with
  | pause => exact absurd rfl he
  | ask _ h => exact h r

/-- A program is silent but for its last access, which may give notice. It comes to the same
whatever the replies are. -/
inductive Utters {α : Type} : List Notice → Program α → Except Error α → Prop where
  | done (a : α) : Utters [] (.done a) (.ok a)
  | fail (e : Error) : Utters [] (.fail e) (.error e)
  | ask {e : Effect} {next : e.Reply → Program α} {ns : List Notice} {x : Except Error α}
    (he : e.isSilent = true) (h : ∀ r, Utters ns (next r) x) : Utters ns (.ask e next) x
  | notify {n : Notice} {next : Unit → Program α} {x : Except Error α} (h : next () = ofExcept x) :
    Utters [n] (.ask (.notify n) next) x

theorem Fixed.utters {p : Program α} {x : Except Error α} (hp : Fixed Effect.isSilent p x) :
    Utters [] p x := by
  induction hp with
  | done a => exact .done a
  | fail e => exact .fail e
  | ask he _ ih => exact .ask he ih

theorem Fixed.utters_bind {p : Program α} {a : α} {f : α → Program β} {ns : List Notice}
    {y : Except Error β} (hp : Fixed Effect.isSilent p (.ok a)) (hf : Utters ns (f a) y) :
    Utters ns (p >>= f) y := by
  generalize hx : Except.ok a = x at hp
  induction hp with
  | done b => exact Except.ok.inj hx ▸ hf
  | fail e => cases hx
  | ask he _ ih => exact .ask he fun r => ih _ hx

inductive Turned {α : Type} (ns : List Notice) (x : Except Error α) (k : Nat) :
    Progress α → List Notice → Prop where
  | paused {rest : Program α} {m : Nat} (hm : m < k) (hrest : Utters ns rest x)
    (hpauses : Pauses m rest) : Turned ns x k (.paused rest) []
  | ended : Turned ns x k (.ended x) ns

theorem Utters.turn {ns : List Notice} {p : Program α} {x : Except Error α} {k : Nat}
    (hp : Utters ns p x) (hk : Pauses k p) (w : World) :
    ∃ progress v news, p.turn.run w = (.ok progress, v) ∧ v.Alike w ∧ v.heard = news ++ w.heard ∧
      Turned ns x k progress news := by
  induction hp generalizing w k with
  | done a => exact ⟨_, w, [], rfl, .refl w, rfl, .ended⟩
  | fail e => exact ⟨_, w, [], rfl, .refl w, rfl, .ended⟩
  | @notify n next x h =>
    refine ⟨.ended x, { w with heard := n :: w.heard }, [n], ?_, .refl w, rfl, .ended⟩
    change (next ()).turn.run _ = _
    rw [h]
    cases x <;> rfl
  | @ask e next ns x he hrest ih =>
    obtain ⟨halike, hheard⟩ := Effect.alike_of_isSilent he w
    -- a pause ends the turn, and any other access is a part of it
    by_cases hpause : e = .pause
    · subst hpause
      cases hk with
      | pause hk => exact ⟨_, w, [], rfl, .refl w, rfl, .paused (Nat.lt_succ_self _) (hrest ()) hk⟩
      | ask hne => exact absurd rfl hne
    · obtain ⟨progress, v, news, hrun, hv, hnews, hturned⟩ :=
        ih _ (hk.next hpause _) (w.answer e).2
      rw [hheard] at hnews
      exact ⟨progress, v, news, turn_ask hpause next ▸ hrun, hv.trans halike, hnews, hturned⟩

theorem alike_within (b : Log.Binding) (p : Program α) (w : World) :
    ∃ v, v.Alike w ∧ v.heard = w.heard ∧ ((within b p).run w).1 = (p.run v).1 ∧
      ((within b p).run w).2.Alike (p.run v).2 ∧
      ((within b p).run w).2.heard = (p.run v).2.heard := by
  refine ⟨(w.answer (.enter b)).2, ⟨rfl, rfl, rfl⟩, rfl, ?_⟩
  rw [run_within]
  exact ⟨rfl, ⟨rfl, rfl, rfl⟩, rfl⟩

/-- A turn of a resolution, which has found `x` when it ends. -/
inductive Sought {α : Type} (x : Except Error α) (k : Nat) (v : World) : Progress α → Prop where
  | paused {rest : Program α} {m : Nat} (hm : m < k) (hpauses : Pauses m rest)
    (honly : Only Effect.isResolving rest) (hrun : (rest.run v).1 = x) : Sought x k v (.paused rest)
  | ended : Sought x k v (.ended x)

theorem Sought.alike {x : Except Error α} {k : Nat} {v w : World} {progress : Progress α}
    (h : Sought x k v progress) (hw : w.Alike v) : Sought x k w progress := by
  cases h with
  | ended => exact .ended
  | paused hm hpauses honly hrun =>
    refine .paused hm hpauses honly ?_
    rw [← hrun]
    exact honly.run_eq (fun _ he _ _ h => h.answer he) hw

theorem Only.turn {p : Program α} {k : Nat} (hp : Only Effect.isResolving p) (hk : Pauses k p)
    (w : World) :
    ∃ progress v, p.turn.run w = (.ok progress, v) ∧ v.heard = w.heard ∧
      Sought (p.run w).1 k v progress := by
  induction p generalizing w k with
  | done a => exact ⟨_, w, rfl, rfl, .ended⟩
  | fail e => exact ⟨_, w, rfl, rfl, .ended⟩
  | ask e next ih =>
    obtain ⟨he, hrest⟩ := hp
    by_cases hpause : e = .pause
    · subst hpause
      cases hk with
      | pause hk =>
        exact ⟨_, w, rfl, rfl, .paused (Nat.lt_succ_self _) hk (hrest ()) rfl⟩
      | ask hne => exact absurd rfl hne
    · obtain ⟨progress, v, hrun, hv, hsought⟩ :=
        ih _ (hrest _) (hk.next hpause _) (w.answer e).2
      rw [Effect.heard_of_isResolving he w] at hv
      exact ⟨progress, v, turn_ask hpause next ▸ hrun, hv, hsought⟩

end Program

namespace Pipe

variable {f : Filter} {p : Pipe}

theorem run_work {α : Type} (p : Pipe) {q : Program α} {ns : List Notice} {x : Except Error α}
    {k : Nat} (hq : Utters ns q x) (hk : Pauses k q) (w : World) :
    ∃ progress v news, (p.work q).run w = (.ok progress, v) ∧ v.Alike w ∧
      v.heard = news ++ w.heard ∧ Turned ns x k progress news := by
  obtain ⟨u, hu, huheard, hfst, hsnd, hheard⟩ :=
    alike_within { account := some (.text p.account.id) } q.turn w
  obtain ⟨progress, v, news, hrun, hv, hnews, hturned⟩ := hq.turn hk u
  rw [hrun] at hfst hsnd hheard
  refine ⟨progress, ((p.work q).run w).2, news, Prod.ext hfst rfl, hsnd.trans (hv.trans hu), ?_,
    hturned⟩
  rw [← huheard, ← hnews]
  exact hheard

theorem run_search (p : Pipe) {q : Program Standing} {k : Nat} (hq : Only Effect.isResolving q)
    (hk : Pauses k q) (w : World) :
    ∃ progress v, (p.work q).run w = (.ok progress, v) ∧ v.heard = w.heard ∧
      Sought (q.run w).1 k v progress := by
  obtain ⟨u, hu, huheard, hfst, hsnd, hheard⟩ :=
    alike_within { account := some (.text p.account.id) } q.turn w
  obtain ⟨progress, v, hrun, hv, hsought⟩ := hq.turn hk u
  rw [hrun] at hfst hsnd hheard
  have hsame : (q.run u).1 = (q.run w).1 := hq.run_eq (fun _ he _ _ h => h.answer he) hu
  exact ⟨progress, ((p.work q).run w).2, Prod.ext hfst rfl, hheard.trans (hv.trans huheard),
    hsame ▸ hsought.alike hsnd⟩

theorem only_standing (f : Filter) (p : Pipe) : Only Effect.isResolving (p.standing f) := by
  refine ((f.authority.policy.waits_admits (some p.account)).fixed rfl).only.bind fun a => ?_
  cases a with
  | true => exact only_pure _
  | false => exact (Grants.only_ofAccount _ _).bind fun _ => only_pure _

def notices (p : Pipe) (record : Record) (visible : Value.Fields) : List Notice :=
  match p.listener, visible with
  | some _, _ :: _ => [.filtered record.id visible]
  | _, _ => []

theorem utters_announce (p : Pipe) (record : Record) (visible : Value.Fields) :
    Utters (p.notices record visible)
      (do
        p.announce record visible
        return visible)
      (do
        p.announced visible
        return visible) := by
  unfold announce announced notices
  cases p.listener with
  | none => exact .done visible
  | some l =>
    cases visible with
    | nil => exact .done []
    | cons field fields =>
      refine .notify ?_
      change _ = ofExcept (l.failure.elim (.ok ()) .error >>= fun _ => pure (field :: fields))
      cases l.failure <;> rfl

end Pipe

end AccessControl
