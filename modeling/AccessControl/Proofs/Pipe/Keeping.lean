import AccessControl.Proofs.Decision.Keeping
import AccessControl.Proofs.Pipe.Laws
import AccessControl.Proofs.Program.Pausing

/-!
The calls of a pipe keep what the way to the grants keeps, in whatever order they go on.
-/

namespace AccessControl

open Program

variable {σ α : Type} {ι : Interpreter σ} {I : σ → Prop}

namespace Pipe

def Stage.Keeps (ι : Interpreter σ) (I : σ → Prop) : Stage → Prop
  | .checking rest => Program.Keeps ι I rest
  | .showing rest => Program.Keeps ι I rest
  | .waiting | .ended _ => True

end Pipe

namespace Program.Closed

variable {L : {α : Type} → Program α → Prop} (hL : Closed L) {f : Filter}

include hL

theorem blocked? (p : Pipe) (record : Record) : L (p.blocked? f record) :=
  hL.bind (hL.ofExcept _) fun _ => hL.bind (hL.found _ _ _ _) fun _ => hL.pure _

theorem standing {p : Pipe} (hgrants : L (f.authority.grants.ofAccount p.account.id)) :
    L (p.standing f) := by
  refine hL.bind (hL.waits (f.authority.policy.waits_admits _)) fun a => ?_
  cases a with
  | true => exact hL.pure _
  | false => exact hL.bind hgrants fun _ => hL.pure _

theorem shown (p : Pipe) (record : Record) (standing : Standing) :
    L (p.shown f record standing) := by
  cases standing with
  | admin => exact hL.bind (hL.counted _ _) fun _ => hL.pure _
  | grants s =>
    refine hL.bind (hL.found _ _ _ _) fun d => ?_
    cases d with
    | some d => exact hL.pure _
    | none => exact hL.partly f _ s record _

theorem announce (p : Pipe) (record : Record) (visible : Value.Fields) :
    L (p.announce record visible) := by
  unfold Pipe.announce
  split
  · refine hL.bind (hL.quiet rfl) fun _ => ?_
    split
    · exact hL.ofExcept (.error _)
    · exact hL.pure ()
  · exact hL.pure ()

theorem conclude (p : Pipe) (record : Record) (ending : Ending Standing) :
    L (p.conclude f record ending) :=
  hL.bind (hL.ofExcept _) fun standing => hL.bind (hL.shown p record standing) fun visible =>
    hL.bind (hL.announce p record visible) fun _ => hL.pure visible

end Program.Closed

namespace Pipe

variable {f : Filter} {p start : Pipe}

def Law.keeping (hI : Inert ι I) (hne : ∃ s, I s)
    (hgrants : Program.Keeps ι I (f.authority.grants.ofAccount start.account.id)) :
    Law ι I f start where
  stage _ stage := stage.Keeps ι I
  search rest := Program.Keeps ι I rest
  ending _ := True
  arrives record := (closed_keeps hI).blocked? start record
  checks h := (Upholds.turn h hne).mono fun progress hprogress => by
    rcases progress with rest | e | _ | visible <;> exact hprogress
  concludes _ _ := (closed_keeps hI).conclude start _ _
  shows h := (Upholds.turn h hne).mono fun progress hprogress => by
    cases progress <;> exact hprogress
  starts := (closed_keeps hI).standing hgrants
  searches h := (Upholds.turn h hne).mono fun progress hprogress => by
    cases progress <;> exact hprogress

/-- No resolution is in flight, and no call is under way. -/
structure IsIdle (p : Pipe) : Prop where
  finding : p.finding = none
  calls : ∀ c ∈ p.calls, c.stage.isUnderWay = false

theorem IsIdle.keeps (h : p.IsIdle) (hI : Inert ι I) (hne : ∃ s, I s)
    (hgrants : Program.Keeps ι I (f.authority.grants.ofAccount p.account.id)) :
    (Law.keeping hI hne hgrants).Holds p where
  account := rfl
  action := rfl
  listener := rfl
  calls c hc := by
    have := h.calls c hc
    change c.stage.Keeps ι I
    revert this
    cases c.stage with
    | checking | showing => exact fun h => nomatch h
    | waiting | ended => exact fun _ => trivial
  finding q hq := by
    rw [h.finding] at hq
    cases hq
  resolution := ⟨fun _ _ => trivial, fun _ _ => trivial⟩

end Pipe

end AccessControl
