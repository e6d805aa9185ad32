import AccessControl.Proofs.Decision.Overriding
import AccessControl.Proofs.Pipe.Sequence

/-!
Overrides in a pipe: blocks and the privilege show or hide a record before any grant is looked for,
bypasses show it only when grants were found.
-/

namespace AccessControl

open Program

namespace Pipe

variable {σ : Type} {ι : Interpreter σ} {I : σ → Prop} {f : Filter} {p : Pipe} {record : Record}
  {x : Except Error Value.Fields}

theorem blockedFields_of_block {o : Override} (ho : o ∈ f.authority.policy.overrides.blocks)
    (h : o.verdict (p.request record) = .ok true) :
    ∃ x : Except Error Value.Fields, p.blockedFields f record = x.map some := by
  rw [blockedFields]
  cases f.entities.require record.entityType with
  | error e => exact ⟨.error e, rfl⟩
  | ok entity =>
    cases hblocks : Override.pick? (p.request record) f.authority.policy.overrides.blocks with
    | error e => exact ⟨.error e, rfl⟩
    | ok o' =>
      cases o' with
      | none => exact absurd hblocks (Override.pick?_ne_none ho h)
      | some o' => exact ⟨.ok (Filter.whole record (.block o')), rfl⟩

theorem fields_of_blockedFields (h : p.blockedFields f record = x.map some)
    (standing : Except Error Standing) : p.fields f record standing = x := by
  rw [fields, h]
  cases x <;> rfl

theorem settles_feed_blocked (hI : Inert ι I) (hne : ∃ s, I s) (hfinding : p.finding = none)
    (h : p.blockedFields f record = x.map some) :
    Settles ι I (p.feed f [record]) (.ok { p with calls := p.calls ++ [⟨record, .ended x⟩] }) := by
  have hcall : (p.arrive f record).stage? p.calls.length =
      some (.checking ((p.arrive f record).blocked? f record)) :=
    congrArg (Option.map Call.stage) List.getElem?_concat_length
  have hlength : p.calls.length < (p.arrive f record).calls.length := by
    rw [arrive, List.length_append]
    exact Nat.lt_succ_self _
  have hlimit := limit_arrive f p record
  rw [Overrides.predicates_eq] at hlimit
  change Settles ι I (takeAll f (turnLimit f (p.arrive f record)) _ [.call p.calls.length]) _
  refine upholds_checking hI hne (l := 0) _ hcall hlength hfinding (settles_blocked? hI p record)
    (pauses_blocked? f p record) (by omega) fun m _ => ?_
  rw [h]
  cases x <;> exact congrArg Except.ok (setStage_arrive f p record _)

theorem settles_results_blocked (hI : Inert ι I) (hne : ∃ s, I s) (hfinding : p.finding = none)
    (hcalls : p.calls = []) (h : p.blockedFields f record = x.map some) :
    Settles ι I (p.results f [record]) (.ok [some x]) := by
  have hserve : Settles ι I (p.serve f [record])
      (.ok { p with calls := p.calls ++ [⟨record, .ended x⟩] }) :=
    (settles_feed_blocked hI hne hfinding h).ok_bind settles_pure
  rw [hcalls] at hserve
  exact hserve.ok_bind settles_pure

theorem fields_of_bypass {o : Override} (hblocked : p.blockedFields f record = .ok none)
    (hbypasses : Override.pick? (p.request record) f.authority.policy.overrides.bypasses =
      .ok (some o)) (grants : Except Error Snapshot) :
    p.fields f record (grants.map .grants) = do
      let _ ← grants
      p.announced record.data
      return record.data := by
  rw [fields, hblocked]
  cases grants with
  | error e => rfl
  | ok s =>
    have hshown : p.shownFields f record (.grants s) = .ok record.data := by
      rw [shownFields, hbypasses]
      rfl
    change p.concludedFields f record (.ok (.grants s)) = _
    rw [concludedFields]
    change (p.shownFields f record (.grants s) >>= _) = _
    rw [hshown]
    rfl

theorem settles_results_privileged (hI : Inert ι I) (hne : ∃ s, I s) (account : Account)
    (action : String) (listener : Option Listener)
    (hadmin : f.authority.policy.privilege (some account) = .ok true) (records : List Record) :
    Settles ι I (results f { account, action, listener } records)
      (.ok (records.map fun record =>
        some (fields f { account, action, listener } record (.ok .admin)))) := by
  refine settles_results hI hne account action listener ?_ records
  have hadmits : Settles ι I (f.authority.policy.admits (some account)) (.ok true) :=
    hadmin ▸ (f.authority.policy.waits_admits (some account)).settles hI
  exact hadmits.ok_bind settles_pure

/-- Overrides and the privilege come before the grants. What they decide is decided without any
access to the store or the cache and comes to the same whatever these would reply; in a batch
with other requests it stands in its place. A pipe gets to its bypasses only when it knows how the
account stands: a record that nothing but a bypass lets through is shown whatever the grants are,
but fails as the search for them fails. -/
theorem overriding (f : Filter) :
    (∀ q : Evaluation,
      (∀ cs, q.cases f = .ok cs → ∀ c ∈ cs, f.authority.policy.IsOverridden c.request) →
        ∀ s, Fixed Effect.isQuiet (q.ask f) ((q.told f s).map Prod.fst)) ∧
    (∀ (records : List Record) (n : Nat) (record : Record) (action : Action),
      records[n]? = some record →
      (∀ account : Account,
        f.authority.policy.IsOverridden (Authority.recordRequest account record action.name) →
        ((f.authority.verdicts account records action).Returns fun bs =>
          ∃ d : Decision, bs[n]? = some d.allowed ∧ f.authority.policy.stage
            (Authority.recordRequest account record action.name) = .ok (some d)) ∧
        (f.batch account records action).Returns fun shown =>
          ∃ fields, shown[n]? = some fields ∧ ∃ d, f.authority.policy.stage
            (Authority.recordRequest account record action.name) = .ok (some d) ∧
              fields = Filter.whole record d) ∧
      ∀ roles, f.authority.policy.IsOverridden
          (Authority.recordRequest none record action.name) →
        (f.authority.verdictsOfRoles roles records action).Returns fun bs =>
          ∃ d : Decision, bs[n]? = some d.allowed ∧ f.authority.policy.stage
            (Authority.recordRequest none record action.name) = .ok (some d)) ∧
    ∀ (account : Account) (action : String) (listener : Option Listener),
      let p : Pipe := { account, action, listener }
      (∀ record, (∃ o ∈ f.authority.policy.overrides.blocks,
          o.verdict (p.request record) = .ok true) →
        ∀ standing, Fixed Effect.isQuiet (p.results f [record])
          (.ok [some (p.fields f record standing)])) ∧
      (f.authority.policy.privilege (some account) = .ok true →
        ∀ records, Fixed Effect.isQuiet (p.results f records)
          (.ok (records.map fun record => some (p.fields f record (.ok .admin))))) ∧
      (f.authority.policy.privilege (some account) = .ok false →
        ∀ record o, p.blockedFields f record = .ok none →
          Override.pick? (p.request record) f.authority.policy.overrides.bypasses =
            .ok (some o) →
          ∀ (σ : Type) (ι : Interpreter σ) (I : σ → Prop) (x : Except Error Snapshot),
            Inert ι I → (∃ s, I s) →
            Settles ι I (f.authority.grants.ofAccount account.id) x →
            Settles ι I (p.results f [record]) (.ok [some do
              let _ ← x
              p.announced record.data
              return record.data])) := by
  refine ⟨fun q h s => q.fixed_ask h s, fun records n record action hn => ?_,
    fun account action listener => ?_⟩
  · refine ⟨fun account h => ?_, fun roles h => Evaluation.returns_verdictsOfRoles hn h⟩
    exact ⟨Evaluation.returns_verdicts hn h, Evaluation.returns_batch hn h⟩
  · intro p
    refine ⟨fun record hblock standing => ?_, fun hadmin records => ?_, ?_⟩
    · obtain ⟨o, ho, h⟩ := hblock
      obtain ⟨x, hx⟩ := blockedFields_of_block ho h
      rw [fields_of_blockedFields hx]
      exact fixed_of_settles fun hI hne => settles_results_blocked hI hne rfl rfl hx
    · exact fixed_of_settles fun hI hne =>
        settles_results_privileged hI hne account action listener hadmin records
    · intro hadmin record o hblocked hbypasses σ ι I x hI hne hgrants
      have hstanding := comes_standing (p := p) (compositional_settles hI) hgrants
      have hresults := settles_results hI hne account action listener hstanding [record]
      change Settles ι I _ (.ok [some (p.fields f record (f.authority.policy.privilege
        (some account) >>= _))]) at hresults
      rw [hadmin] at hresults
      rw [← fields_of_bypass hblocked hbypasses]
      exact hresults

end Pipe

/-! A store of which every call fails. -/

def World.Refuses (e : Error) (w : World) : Prop :=
  w.ledger.faults = fun _ _ => some e

theorem inert_refuses (e : Error) : Inert World.answer (World.Refuses e) := by
  intro effect he w hw
  cases effect with
  | store | cache | database | publish | mint => cases he
  | _ => exact hw

theorem settles_call_refused (e : Error) {c : Store.Call} {method : Store.Method}
    {methods : List Store.Method} (hc : c.methods = method :: methods) :
    Settles World.answer (World.Refuses e) (call c) (.error e) := by
  have hperform : Settles World.answer (World.Refuses e) (perform (.store c)) (.ok (.error e)) := by
    refine upholds_perform fun w hw => ?_
    have htake : w.ledger.faults.take c.methods = (some e, fun _ _ => some e) := by
      rw [World.Refuses] at hw
      have hskip : Faults.skip (fun _ _ => some e) method = fun _ _ => some e := by
        funext l n
        exact ite_self _
      rw [hw, hc, Faults.take, hskip]
    simp [World.answer, Store.Ledger.call, htake, World.Refuses]
  exact hperform.ok_bind rfl

theorem Grants.settles_ofAccount_refused {e : Error} (he : e.isOwn = false) (account : String) :
    Settles World.answer (World.Refuses e) (Grants.ofAccount ⟨none⟩ account)
      (.error (.storage "rulesets_for_account")) := by
  have hI := inert_refuses e
  have hboth := (settles_call_refused e (c := .rulesetsThroughRoles account) rfl).both hI
    (settles_call_refused e (c := .rulesetsOfAccount account) rfl)
  have hstored := hboth.storing hI Grants.logger "rulesets_for_account"
  have hsealing : Error.sealing "rulesets_for_account"
      (.error e : Except Error (List RoleRuleset × List AccountRuleset)) =
        .error (.storage "rulesets_for_account") := by
    rw [Error.sealing, he]
    rfl
  have hsnapshot : Settles World.answer (World.Refuses e) (Grants.snapshot ⟨none⟩ account)
      (.error (.storage "rulesets_for_account")) := by
    refine Settles.error_bind (Settles.error_bind (Settles.error_bind ?_ _) _) _
    rw [← hsealing]
    exact hstored
  refine hsnapshot.attempt.ok_bind ?_
  exact (settles_quiet hI rfl (a := ()) fun _ => rfl).ok_bind settles_ofExcept

namespace Pipe

/-- A store that refuses everything, and a bypass for every record: a batch shows the record, and a
pipe fails. -/
theorem overriding_of_refused :
    let f : Filter := ⟨⟨⟨⟨[], [⟨.bypass, wildcard, wildcard, Override.always, []⟩]⟩,
      ⟨fun _ => .ok false, false⟩⟩, ⟨none⟩⟩, ⟨[⟨"note", ["age"]⟩]⟩⟩
    let account : Account := { id := "alice" }
    let record : Record := ⟨"note", [("age", .bool true)], .list []⟩
    let w : World := { World.initial .error none { path := "" } with
      ledger := ⟨.empty, fun _ _ => some (.outside .system "disk full")⟩ }
    ((f.batch account [record] (.field .read)).run w).1 = .ok [[("age", .bool true)]] ∧
      ((results f { account, action := "read" } [record]).run w).1 =
        .ok [some (.error (.storage "rulesets_for_account"))] := by
  intro f account record w
  obtain ⟨hask, -, hpipe⟩ := overriding f
  have hbypassed : f.authority.policy.IsOverridden
      (Authority.recordRequest account record (Action.field .read).name) :=
    .bypass List.mem_cons_self rfl
  have hw : w.Refuses (.outside .system "disk full") := rfl
  constructor
  · have hbatch := hask (.filtering account [record] (.field .read)) (fun cs hcs c hc => ?_)
      ⟨account.id, []⟩
    · exact hbatch.run w
    · obtain rfl : [Case.filtering f account (.field .read) record] = cs := Except.ok.inj hcs
      obtain rfl := List.mem_singleton.1 hc
      exact hbypassed
  · obtain ⟨-, -, hbypass⟩ := hpipe account "read" none
    have hresults := hbypass rfl record _ rfl rfl World _ _ _ (inert_refuses _) ⟨w, hw⟩
      (Grants.settles_ofAccount_refused rfl account.id)
    rw [← runBy_answer]
    exact (hresults.run hw).1

end Pipe

end AccessControl
