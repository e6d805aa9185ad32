import AccessControl.Proofs.Administration.Slots
import AccessControl.Proofs.Program.Heeding

/-!
How a task goes about the one row that it is to add or to remove. It looks for a row first; it adds
one only after it has found none, and removes only one that it has found. Others may go on between
the two.
-/

namespace AccessControl

open Program Administration Store

inductive Errand where
  | idle
  | vacant
  | made (id : String)
  | found (id : String)

namespace Errand

inductive Allows (s : Slot) : Errand → Call → Prop where
  | unrelated {g : Errand} {c : Call} (hread : c.isWrite = false) (hseek : c.seeks? = none) :
    Allows s g c
  | seek {g : Errand} {c : Call} (h : c.seeks? = some s) : Allows s g c
  | add {id : String} {c : Call} (h : c.adds? = some (s, id)) : Allows s (made id) c
  | remove {role account id : String} (h : s = .membership role account) :
    Allows s (found id) (.dropMembership id)

def told (g : Errand) : (c : Call) → c.Reply → Errand
  | .membership .., some m => found m.id
  | c, r => if c.misses r then vacant else if c.isWrite then idle else g

def named : Errand → String → Errand
  | vacant, id => made id
  | g, _ => g

def law (s : Slot) : Law Errand where
  allows g
    | .store c => Allows s g c
    | _ => True
  expects _ _ _ := True
  record g
    | .store _, .error _ => g
    | .store c, .ok r => g.told c r
    | .mint, id => g.named id
    | _, _ => g

/-- From there on, a program does nothing but what is allowed for a slot. -/
abbrev Minds {α : Type} (s : Slot) (p : Program α) (g : Errand) : Prop :=
  p.Heeds (law s) (fun _ _ => True) (fun _ => True) g

theorem Allows.of_adds {s : Slot} {g : Errand} {c : Call} {x : Slot × String}
    (h : Allows s g c) (hx : c.adds? = some x) : ∃ id, g = made id ∧ x = (s, id) := by
  have hwrite := Call.isWrite_of_adds? hx
  cases h with
  | unrelated hread =>
    rw [hwrite] at hread
    cases hread
  | seek hseek =>
    rw [Call.not_isWrite_of_seeks? hseek] at hwrite
    cases hwrite
  | add hadds => exact ⟨_, rfl, Option.some.inj (hx.symm.trans hadds)⟩
  | remove => cases hx

section Told

variable {g : Errand} {c : Call} {r : c.Reply}

theorem told_unrelated (hread : c.isWrite = false) (hseek : c.seeks? = none) : g.told c r = g := by
  cases c with
  | membership | roleRuleset | accountRuleset => cases hseek
  | _ => first | rfl | cases hread

theorem told_of_finds (hread : c.isWrite = false) (h : c.misses r = false) :
    g.told c r = g ∨ ∃ id, g.told c r = found id := by
  cases c with
  | membership =>
    obtain ⟨m, rfl⟩ := Option.isSome_iff_exists.1 (Option.isNone_eq_false_iff.1 h)
    exact .inr ⟨m.id, rfl⟩
  | roleRuleset | accountRuleset =>
    obtain ⟨r, rfl⟩ := Option.isSome_iff_exists.1 (Option.isNone_eq_false_iff.1 h)
    exact .inl rfl
  | _ => first | exact .inl rfl | cases hread

theorem told_add {x : Slot × String} (h : c.adds? = some x) : g.told c r = idle := by
  cases c <;> first | rfl | cases h

end Told

end Errand

def Effect.isUnrelated : Effect → Bool
  | .store c => !c.isWrite && c.seeks?.isNone
  | .mint => false
  | _ => true

namespace Errand

variable {α β : Type} {s : Slot} {g : Errand} {p : Program α}

theorem ignores {e : Effect} (he : e.isUnrelated = true) : (law s).Ignores e := by
  intro g
  cases e with
  | store c =>
    rw [Effect.isUnrelated, Bool.and_eq_true, Bool.not_eq_true', Option.isNone_iff_eq_none] at he
    refine ⟨.unrelated he.1 he.2, fun r => ?_⟩
    cases r with
    | error e => rfl
    | ok r => exact told_unrelated he.1 he.2
  | mint => cases he
  | _ => exact ⟨trivial, fun _ => rfl⟩

theorem minds_unrelated {f : α → Program β} (hp : Only Effect.isUnrelated p)
    (hf : ∀ a, Minds s (f a) g) : Minds s (p >>= f) g := by
  refine ((hp.heeds fun _ => ignores).mono (fun _ _ h => h) fun _ _ => trivial).bind ?_
  rintro a _ rfl
  exact hf a

theorem minds_call {c : Call} {f : c.Reply → Program α} (hc : Allows s g c)
    (hf : ∀ r, Minds s (f r) (g.told c r)) : Minds s (call c >>= f) g := by
  refine heeds_perform hc fun r _ => ?_
  cases r with
  | error e => trivial
  | ok r => exact hf r

theorem minds_storing {f : α → Program β} {logger operation : String} (hp : Minds s p g)
    (hf : ∀ a g, Minds s (f a) g) : Minds s (storing logger operation p >>= f) g :=
  (hp.storing (fun _ => ignores rfl) logger operation).bind fun a g _ => hf a g

theorem only_uncache (cache : Option GrantCache) (accounts : List String) :
    Only Effect.isUnrelated (uncache cache accounts) := by
  cases cache with
  | none => trivial
  | some c =>
    refine only_forM fun a => Only.bind ((only_perform rfl).bind fun x => ?_) fun _ => trivial
    cases x with
    | error reason => exact (only_log rfl).bind fun _ => trivial
    | ok n => exact (only_perform rfl).bind fun _ => trivial

theorem minds_made {f : String → Instant → Program α}
    (hf : ∀ id now, Minds s (f id now) (.made id)) :
    Minds s (do f (← perform .mint) (← perform .now)) .vacant := by
  refine heeds_perform trivial fun id _ => ?_
  exact heeds_ignored (ignores rfl) fun now _ => hf id now

theorem minds_change {op : Operation} (hs : op.slot? = some s) : Minds s op.change .idle := by
  cases op with
  | grantMembership role account =>
    obtain rfl := Option.some.inj hs
    refine minds_unrelated (only_demand rfl fun _ => rfl) fun _ => minds_storing ?_ ?_
    · refine minds_call (.seek rfl) fun held => ?_
      cases held with
      | some m => trivial
      | none => exact minds_made fun id now => minds_call (.add rfl) fun _ => trivial
    · rintro ⟨m, _ | _⟩ g <;> trivial
  | revokeMembership role account =>
    obtain rfl := Option.some.inj hs
    refine minds_storing (minds_call (.seek rfl) fun held => ?_) fun _ _ => trivial
    cases held with
    | none => trivial
    | some m => exact minds_call (.remove rfl) fun _ => trivial
  | grantRoleRuleset role entitlement target name description featureScopes =>
    obtain rfl := Option.some.inj hs
    refine minds_unrelated (only_demand rfl fun _ => rfl) fun _ =>
      minds_unrelated (only_demandEntitlement rfl fun _ => rfl) fun _ =>
        minds_storing ?_ fun _ _ => trivial
    refine minds_call (.seek rfl) fun held => ?_
    cases held with
    | some r => trivial
    | none =>
      refine minds_unrelated (only_ofExcept _) fun scopes => minds_made fun id now => ?_
      exact minds_call (.add rfl) fun _ => minds_unrelated (only_accounts rfl) fun _ => trivial
  | grantAccountRuleset account entitlement target featureScopes =>
    obtain rfl := Option.some.inj hs
    refine minds_unrelated (only_demandEntitlement rfl fun _ => rfl) fun _ =>
      minds_storing ?_ fun _ _ => trivial
    refine minds_call (.seek rfl) fun held => ?_
    cases held with
    | some r => trivial
    | none =>
      refine minds_unrelated (only_ofExcept _) fun scopes => minds_made fun id now => ?_
      exact minds_call (.add rfl) fun _ => trivial
  | _ => cases hs

theorem minds_run {op : Operation} (hs : op.slot? = some s) (cache : Option GrantCache) :
    Minds s (op.run cache) .idle := by
  rw [Operation.run_eq]
  refine (minds_change hs).bind fun u g _ => ?_
  refine minds_unrelated (only_uncache cache u.accounts) fun _ => ?_
  obtain ⟨accounts, line⟩ := u
  cases line with
  | none => trivial
  | some line => exact heeds_ignored (ignores rfl) fun _ _ => trivial

end Errand

end AccessControl
