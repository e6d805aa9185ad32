import AccessControl.Pipe
import AccessControl.Proofs.Decision.Answers
import AccessControl.Proofs.Program.Fixed

/-!
What the calls of a pipe come to: what a record shows follows from how the account stands.
-/

namespace AccessControl

open Program

namespace Policy

theorem fixed_find? (os : List Override) (r : Request) :
    Fixed Effect.isSilent (find? os r) (Override.pick? r os) := by
  have h : Fixed Effect.isSilent (find? os r) (Override.pick? r os >>= fun o => .ok o) := by
    refine ((Override.waits_first? r os).fixed rfl).bind fun o _ => ?_
    cases o with
    | none => exact .done none
    | some o => exact .ask rfl fun _ => .done (some o)
  rwa [show (Override.pick? r os >>= fun o => .ok o) = Override.pick? r os from bind_pure _] at h

theorem fixed_counted (entryPoint : String) (d : Decision) :
    Fixed Effect.isSilent (counted entryPoint d) (.ok d) :=
  .ask rfl fun _ => .done d

theorem fixed_found (os : List Override) (r : Request) (entryPoint : String)
    (decision : Override → Decision) :
    Fixed Effect.isSilent
      (do match ← find? os r with
        | some o => return some (← counted entryPoint (decision o))
        | none => return none)
      ((Override.pick? r os).map fun o => o.map decision) := by
  have h := (fixed_find? os r).bind
    (y := fun o => .ok (o.map decision)) (f := fun
      | some o => do return some (← counted entryPoint (decision o))
      | none => return none) fun o _ => by
    cases o with
    | none => exact .done none
    | some o => exact (fixed_counted _ _).ok_bind (.done _)
  cases hp : Override.pick? r os <;> rw [hp] at h <;> exact h

end Policy

namespace Pipe

/-- What shows of a record that is blocked; nothing is known yet of another one. -/
def blockedFields (f : Filter) (p : Pipe) (record : Record) :
    Except Error (Option Value.Fields) := do
  let _ ← f.entities.require record.entityType
  let o ← Override.pick? (p.request record) f.authority.policy.overrides.blocks
  return o.map fun o => Filter.whole record (.block o)

def shownFields (f : Filter) (p : Pipe) (record : Record) : Standing → Except Error Value.Fields
  | .admin => .ok (Filter.whole record .admin)
  | .grants s => do
    match ← Override.pick? (p.request record) f.authority.policy.overrides.bypasses with
    | some o => return Filter.whole record (.bypass o)
    | none => f.visible s record p.action

def announced (p : Pipe) (visible : Value.Fields) : Except Error Unit :=
  match p.listener, visible with
  | some l, _ :: _ => l.failure.elim (.ok ()) .error
  | _, _ => .ok ()

/-- What a record that is not blocked shows, from how the account stands. -/
def concludedFields (f : Filter) (p : Pipe) (record : Record) (standing : Except Error Standing) :
    Except Error Value.Fields := do
  let visible ← p.shownFields f record (← standing)
  p.announced visible
  return visible

def fields (f : Filter) (p : Pipe) (record : Record) (standing : Except Error Standing) :
    Except Error Value.Fields := do
  match ← p.blockedFields f record with
  | some visible => return visible
  | none => p.concludedFields f record standing

variable {f : Filter}

theorem fixed_blocked? (f : Filter) (p : Pipe) (record : Record) :
    Fixed Effect.isSilent (p.blocked? f record) (p.blockedFields f record) := by
  refine (fixed_ofExcept _).bind fun _ _ => ?_
  have h := (Policy.fixed_found f.authority.policy.overrides.blocks (p.request record)
    entryPoint .block).bind (f := fun d => pure (d.map (Filter.whole record)))
    (y := fun d => .ok (d.map (Filter.whole record))) fun d _ => .done _
  cases hp : Override.pick? (p.request record) f.authority.policy.overrides.blocks with
  | error e =>
    rw [hp] at h
    exact h
  | ok o =>
    rw [hp] at h
    cases o <;> exact h

theorem fixed_partly (entryPoint : String) (f : Filter) (s : Snapshot) (record : Record)
    (action : String) :
    Fixed Effect.isSilent (f.partly entryPoint s record action) (f.visible s record action) := by
  have hvisible : Fixed Effect.isSilent (ofExcept (f.visible s record action))
      (f.visible s record action) :=
    fixed_ofExcept _
  have h := hvisible.bind
    (f := fun visible => do
      let _ ← Policy.counted entryPoint (.ofVerdict !visible.isEmpty)
      return visible)
    (y := .ok) fun visible _ => (Policy.fixed_counted _ _).ok_bind (.done visible)
  cases hv : f.visible s record action with
  | error e =>
    rw [hv] at h
    rw [Filter.partly, hv]
    exact h
  | ok visible =>
    rw [hv] at h
    rw [Filter.partly, hv]
    exact h

theorem fixed_shown (f : Filter) (p : Pipe) (record : Record) (standing : Standing) :
    Fixed Effect.isSilent (p.shown f record standing) (p.shownFields f record standing) := by
  cases standing with
  | admin => exact (Policy.fixed_counted _ _).ok_bind (.done _)
  | grants s =>
    have heq : p.shownFields f record (.grants s) =
        ((Override.pick? (p.request record) f.authority.policy.overrides.bypasses).map fun o =>
          o.map .bypass) >>= fun d =>
            d.elim (f.visible s record p.action) fun d => .ok (Filter.whole record d) := by
      rw [shownFields]
      rcases Override.pick? (p.request record) f.authority.policy.overrides.bypasses with
        e | _ | o <;> rfl
    rw [heq, shown]
    refine (Policy.fixed_found f.authority.policy.overrides.bypasses (p.request record) entryPoint
      .bypass).bind fun d _ => ?_
    cases d with
    | some d => exact .done _
    | none => exact fixed_partly entryPoint f s record p.action

section Settles

variable {σ : Type} {ι : Interpreter σ} {I : σ → Prop} (hI : Inert ι I)

include hI

theorem settles_blocked? (p : Pipe) (record : Record) :
    Settles ι I (p.blocked? f record) (p.blockedFields f record) :=
  (fixed_blocked? f p record).settles hI Effect.isQuiet_of_isSilent

theorem settles_announce (p : Pipe) (record : Record) (visible : Value.Fields) :
    Settles ι I (p.announce record visible) (p.announced visible) := by
  unfold announce announced
  cases p.listener with
  | none => exact settles_pure
  | some l =>
    cases visible with
    | nil => exact settles_pure
    | cons field fields =>
      change Settles ι I (l.hear _) (l.failure.elim (.ok ()) .error)
      refine (settles_quiet hI rfl (a := ()) fun _ => rfl).ok_bind ?_
      cases l.failure with
      | none => exact settles_pure
      | some e => exact settles_ofExcept (x := .error e)

theorem settles_conclude (p : Pipe) (record : Record) (ending : Ending Standing) :
    Settles ι I (p.conclude f record ending) (p.concludedFields f record ending.toExcept) := by
  refine ((waits_ofExcept _).settles hI).bind fun standing => ?_
  refine ((fixed_shown f p record standing).settles hI Effect.isQuiet_of_isSilent).bind
    fun visible => ?_
  exact (settles_announce hI p record visible).bind fun _ => settles_pure

end Settles

end Pipe

end AccessControl
