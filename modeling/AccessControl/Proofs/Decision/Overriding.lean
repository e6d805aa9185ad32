import AccessControl.Proofs.Decision.Composition

/-!
What is decided before the rulesets: as long as an override or the privilege has its say, no grants
are looked for.
-/

namespace AccessControl

open Program

namespace Policy

/-- A block applies to a request, or the account has the privilege, or a bypass applies. -/
inductive IsOverridden (p : Policy) (r : Request) : Prop where
  | block {o : Override} (ho : o ∈ p.overrides.blocks) (h : o.verdict r = .ok true)
  | admin (h : p.privilege r.account = .ok true)
  | bypass {o : Override} (ho : o ∈ p.overrides.bypasses) (h : o.verdict r = .ok true)

end Policy

theorem Override.pick?_ne_none {os : List Override} {o : Override} {r : Request} (ho : o ∈ os)
    (h : o.verdict r = .ok true) : pick? r os ≠ .ok none := by
  induction os with
  | nil => cases ho
  | cons p os ih =>
    rw [pick?, List.findM?]
    cases hp : p.verdict r with
    | error e => rintro ⟨⟩
    | ok b =>
      cases b with
      | true => rintro ⟨⟩
      | false =>
        rcases List.mem_cons.1 ho with rfl | ho
        · rw [h] at hp
          cases hp
        · exact ih ho

namespace Policy

variable {p : Policy} {r : Request}

theorem IsOverridden.stage_ne_none (h : p.IsOverridden r) : p.stage r ≠ .ok none := by
  rw [stage]
  cases hblocks : Override.pick? r p.overrides.blocks with
  | error e => rintro ⟨⟩
  | ok o =>
    cases o with
    | some o => rintro ⟨⟩
    | none =>
      cases hprivilege : p.privilege r.account with
      | error e => rintro ⟨⟩
      | ok a =>
        cases a with
        | true => rintro ⟨⟩
        | false =>
          cases hbypasses : Override.pick? r p.overrides.bypasses with
          | error e => rintro ⟨⟩
          | ok o =>
            cases o with
            | some o => rintro ⟨⟩
            | none =>
              cases h with
              | block ho h => exact absurd hblocks (Override.pick?_ne_none ho h)
              | admin h =>
                rw [hprivilege] at h
                cases h
              | bypass ho h => exact absurd hbypasses (Override.pick?_ne_none ho h)

end Policy

namespace Policy

open Batched

variable {p : Policy} {r : Request} {i : Inquiry}

theorem returns_settled? (hi : i.admin = p.admits r.account) {b : Batch}
    (hb : Knows (p.privilege r.account) b) :
    (p.settled? i r b).Returns fun x => p.stage r = .ok x.1 := by
  have hright : b.IsRight (p.privilege r.account) (b.snapshot.getD ⟨"", []⟩) :=
    ⟨hb, fun u hu => by rw [hu, Option.getD_some]⟩
  obtain ⟨b', -, hfixed⟩ := comes_settled? compositional_fixed hi b hright
  refine (Fixed.returns hfixed).mono fun x hx => ?_
  cases hstage : p.stage r with
  | error e =>
    rw [hstage] at hx
    cases hx
  | ok d =>
    rw [hstage] at hx
    obtain rfl := Except.ok.inj hx
    rfl

end Policy

/-- When all that is decided is overridden, an evaluation asks neither the store nor the cache, and
its answer is the same whatever the grants are. -/
theorem Evaluation.fixed_ask {f : Filter} {q : Evaluation} (h : ∀ cs, q.cases f = .ok cs →
      ∀ c ∈ cs, f.authority.policy.IsOverridden c.request) (s : Snapshot) :
    Fixed Effect.isQuiet (q.ask f) ((q.told f s).map Prod.fst) :=
  comes_ask compositional_fixed fun cs hcs c hc hstage =>
    absurd hstage (h cs hcs c hc).stage_ne_none

/-! Batches in which something else is decided by the rulesets. -/

namespace Batched

variable {α γ : Type} {privilege : Except Error Bool}

theorem returns_mapM {g : γ → Batched α} {xs : List γ} {x : γ} {Q : α → Prop}
    (hsame : ∀ x ∈ xs, Same privilege (g x) (g x))
    (hx : ∀ b, Knows privilege b → (g x b).Returns fun r => Q r.1) {n : Nat}
    (hn : xs[n]? = some x) {b : Batch} (hb : Knows privilege b) :
    (xs.mapM g b).Returns fun r => ∃ a, r.1[n]? = some a ∧ Q a := by
  induction xs generalizing n b with
  | nil => cases hn
  | cons z zs ih =>
    rw [List.mapM_cons]
    change (g z b >>= fun r => zs.mapM g r.2 >>= fun rs => pure (r.1 :: rs.1, rs.2)).Returns _
    cases n with
    | zero =>
      obtain rfl := Option.some.inj hn
      exact (hx b hb).bind fun r hr => (returns_true _).bind fun rs _ => ⟨r.1, rfl, hr⟩
    | succ n =>
      -- what is found out at members before the place keeps to what is known
      refine (hsame z List.mem_cons_self b hb).2.bind fun r hr => ?_
      exact (ih (fun x hx => hsame x (List.mem_cons_of_mem _ hx)) hn hr).bind fun rs hrs => hrs

theorem returns_run' {m : Batched α} {Q : α → Prop} (hm : (m {}).Returns fun r => Q r.1) :
    (m.run' {}).Returns Q :=
  hm.bind fun _ h => h

theorem knows_nothing : Knows privilege {} := by
  rintro a ⟨⟩

end Batched

namespace Evaluation

open Batched

variable {f : Filter} {i : Inquiry} {n : Nat} {record : Record} {records : List Record}

theorem same_decide {p : Policy} {r : Request} (hi : i.admin = p.admits r.account)
    (test : Snapshot → Except Error Bool) :
    Same (p.privilege r.account) (p.decide i r test) (p.decide i r test) := by
  have hwaits : Waits i.admin (p.privilege r.account) := hi ▸ p.waits_admits r.account
  refine (Policy.same_settled?_of_bypassed? rfl rfl rfl hwaits fun _ => rfl).bind fun d => ?_
  cases d with
  | some d => exact same_pure d
  | none => exact (same_snapshot i i rfl).bind fun s => (same_lift _).bind fun a => same_lift _

theorem same_one_self {account : Account} (hi : i.admin = f.authority.policy.admits (some account))
    (action : String) (record : Record) :
    Same (f.authority.policy.privilege (some account)) (f.one i account action record)
      (f.one i account action record) := by
  have hwaits : Waits i.admin (f.authority.policy.privilege (some account)) :=
    hi ▸ f.authority.policy.waits_admits (some account)
  refine (Policy.same_settled?_of_bypassed? rfl rfl rfl hwaits fun _ => rfl).bind fun d => ?_
  cases d with
  | some d => exact same_pure _
  | none => exact (same_snapshot i i rfl).bind fun s => same_lift _

theorem returns_decideEach {auth : Authority} {account : Option Account} {action : String}
    (hi : i.admin = auth.policy.admits account) (hn : records[n]? = some record)
    (h : auth.policy.IsOverridden (Authority.recordRequest account record action)) :
    (auth.decideEach i account records action {}).Returns fun r => ∃ d, r.1[n]? = some d ∧
      auth.policy.stage (Authority.recordRequest account record action) = .ok (some d) := by
  have hsame (x : Record) : Same (auth.policy.privilege account)
      (auth.policy.decide i (Authority.recordRequest account x action) (·.allows x action))
      (auth.policy.decide i (Authority.recordRequest account x action) (·.allows x action)) :=
    same_decide (r := Authority.recordRequest account x action) hi _
  refine returns_mapM (fun x _ => hsame x) (fun b hb => ?_) hn knows_nothing
  refine (Policy.returns_settled? (r := Authority.recordRequest account record action)
    hi hb).bind fun x hx => ?_
  rcases x with ⟨_ | d, b⟩
  · exact absurd hx h.stage_ne_none
  · exact hx

theorem returns_allowed {p : Program (List Decision)} {Q : Decision → Prop}
    (hp : p.Returns fun ds => ∃ d, ds[n]? = some d ∧ Q d) :
    (do return (← p).map Decision.allowed).Returns fun bs =>
      ∃ d : Decision, bs[n]? = some d.allowed ∧ Q d := by
  refine hp.bind ?_
  rintro ds ⟨d, hplace, hd⟩
  refine ⟨d, ?_, hd⟩
  rw [List.getElem?_map, hplace]
  rfl

theorem returns_verdicts {auth : Authority} {account : Account} {action : Action}
    (hn : records[n]? = some record)
    (h : auth.policy.IsOverridden (Authority.recordRequest account record action.name)) :
    (auth.verdicts account records action).Returns fun bs =>
      ∃ d : Decision, bs[n]? = some d.allowed ∧
        auth.policy.stage (Authority.recordRequest account record action.name) = .ok (some d) := by
  have heach := returns_decideEach (i := auth.inquiry "account_can_do" account) rfl hn h
  exact returns_allowed (Returns.within (returns_run' heach) _)

theorem returns_verdictsOfRoles {auth : Authority} {roles : List String} {action : Action}
    (hn : records[n]? = some record)
    (h : auth.policy.IsOverridden (Authority.recordRequest none record action.name)) :
    (auth.verdictsOfRoles roles records action).Returns fun bs =>
      ∃ d : Decision, bs[n]? = some d.allowed ∧
        auth.policy.stage (Authority.recordRequest none record action.name) = .ok (some d) := by
  have heach := returns_decideEach
    (i := ⟨"roles_can_do", auth.policy.admits none, auth.grants.ofRoles roles⟩) rfl hn h
  exact returns_allowed (returns_run' heach)

theorem returns_batch {account : Account} {action : Action} (hn : records[n]? = some record)
    (h : f.authority.policy.IsOverridden (Authority.recordRequest account record action.name)) :
    (f.batch account records action).Returns fun shown => ∃ fields, shown[n]? = some fields ∧
      ∃ d, f.authority.policy.stage (Authority.recordRequest account record action.name) =
        .ok (some d) ∧ fields = Filter.whole record d := by
  refine (returns_true _).bind fun _ _ => Returns.within (returns_run' ?_) _
  refine returns_mapM (fun x _ => same_one_self rfl action.name x) (fun b hb => ?_) hn knows_nothing
  refine (Policy.returns_settled? (r := Authority.recordRequest account record action.name)
    rfl hb).bind fun x hx => ?_
  rcases x with ⟨_ | d, b⟩
  · exact absurd hx h.stage_ne_none
  · exact ⟨d, hx, rfl⟩

end Evaluation

end AccessControl
