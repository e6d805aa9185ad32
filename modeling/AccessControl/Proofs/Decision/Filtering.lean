import AccessControl.Proofs.Cache.Fading
import AccessControl.Proofs.Decision.Overriding
import AccessControl.Proofs.Permission.Widening

/-!
What filtering shows of records. Grants are looked through twice, for the record and then for each
of its fields; the first look leaves out no grant that the second would let through.
-/

namespace AccessControl

open Program Store

namespace Capability

variable {c : Capability} {entityType action name : String} {fields : List String}

theorem allowsRecord_of_allows
    (h : c.allows entityType action (some name) (some fields) = true) :
    c.allowsRecord entityType action = true ∧ name ∈ fields := by
  obtain ⟨-, hknown, -⟩ := allows_iff.mp h
  exact ⟨allows_without_property h, hknown name rfl⟩

end Capability

namespace Filter

variable {f : Filter} {s : Snapshot} {record : Record} {action : String} {tags : List Value}

/-- Whether the grants let a field of a record with some tags through. -/
def lets (f : Filter) (grants : List Grant) (record : Record) (action : String)
    (tags : List Value) (name : String) : Bool :=
  (f.entities.fieldsOf record.entityType).contains name && grants.any fun g =>
    g.reaches tags && g.capability.allows record.entityType action (some name)
      (some (f.entities.fieldsOf record.entityType))

/-- Whether a field of a record with some tags shows: no block takes the request; and the account
has the privilege, or a bypass takes the request, or the grants let the field through. -/
def shows (f : Filter) (grants : List Grant) (account : Account) (action : String)
    (record : Record) (tags : List Value) (name : String) : Bool :=
  let r := Authority.recordRequest account record action
  !f.authority.policy.overrides.blocks.any (·.takes r) &&
    (f.authority.policy.isPrivileged r || f.authority.policy.overrides.bypasses.any (·.takes r) ||
      f.lets grants record action tags name)

theorem visible_eq (htags : record.tags = .ok tags) :
    f.visible s record action =
      .ok (record.data.filter fun (name, _) => f.lets s.grants record action tags name) := by
  rw [visible, Snapshot.reaching, htags]
  refine congrArg Except.ok (List.filter_congr ?_)
  rintro ⟨name, value⟩ -
  change (List.filter _ s.grants).any _ = f.lets s.grants record action tags name
  rw [List.any_filter, lets, Bool.eq_iff_iff]
  simp only [List.any_eq_true, Bool.and_eq_true, List.contains_iff_mem]
  constructor
  · rintro ⟨g, hg, ⟨hreaches, -⟩, hallows⟩
    exact ⟨(Capability.allowsRecord_of_allows hallows).2, g, hg, hreaches, hallows⟩
  · rintro ⟨-, g, hg, hreaches, hallows⟩
    exact ⟨g, hg, ⟨hreaches, (Capability.allowsRecord_of_allows hallows).1⟩, hallows⟩

theorem shown_ruling (hf : f.authority.policy.IsTotal) (s : Snapshot) (account : Account)
    (action : Action) (htags : record.tags = .ok tags) :
    ((Case.filtering f account action record).ruling f.authority.policy s).map
        (Evaluation.shown f s action.name record) =
      .ok (record.data.filter fun (name, _) =>
        f.shows s.grants account action.name record tags name) := by
  have hvisible : f.visible s record action.name = .ok (record.data.filter fun (name, _) =>
      f.lets s.grants record action.name tags name) :=
    f.visible_eq htags
  have hany (os : List Override) (r : Request) :
      os.any (·.takes r) = (os.find? (·.takes r)).isSome := by
    rw [Bool.eq_iff_iff, List.find?_isSome, List.any_eq_true]
  change (f.authority.policy.ruling (Authority.recordRequest account record action.name)
    ((f.visible s record action.name).map (!·.isEmpty))).map _ = _
  rw [Policy.ruling_eq hf, Policy.precedence, hvisible]
  simp only [shows, hany]
  generalize Authority.recordRequest (some account) record action.name = r
  cases f.authority.policy.overrides.blocks.find? (·.takes r) with
  | some o => simp [Except.map, Evaluation.shown, Decision.block, whole]
  | none =>
    cases f.authority.policy.isPrivileged r with
    | true => simp [Except.map, Evaluation.shown, Decision.admin, whole]
    | false =>
      cases f.authority.policy.overrides.bypasses.find? (·.takes r) with
      | some o => simp [Except.map, Evaluation.shown, Decision.bypass, whole]
      | none => simp [Except.map, Evaluation.shown_ofVerdict hvisible]

theorem forM_unknown {records : List Record}
    (h : records.find? (fun record => !f.entities.has record.entityType) = some record) :
    (records.forM fun record => do
        let _ ← ofExcept (f.entities.require record.entityType)) =
      fail (.unknownEntityType record.entityType) := by
  induction records with
  | nil => cases h
  | cons first records ih =>
    rw [List.find?_cons, Entities.has] at h
    rw [List.forM, Entities.require]
    cases hfirst : f.entities.get? first.entityType with
    | none =>
      rw [hfirst] at h
      obtain rfl : first = record := Option.some.inj h
      rfl
    | some entity =>
      rw [hfirst] at h
      exact ih h

theorem forM_known {records : List Record}
    (h : ∀ record ∈ records, f.entities.has record.entityType = true) :
    (records.forM fun record => do
        let _ ← f.entities.require record.entityType) = .ok () := by
  induction records with
  | nil => rfl
  | cons first records ih =>
    obtain ⟨entity, hfirst⟩ := Option.isSome_iff_exists.1 (h first List.mem_cons_self)
    rw [List.forM, Entities.require, hfirst]
    exact ih fun record hr => h record (List.mem_cons_of_mem _ hr)

/-- Filtering, record by record and field by field. A record of an unknown type fails the batch
before anything else is looked at. On a healthy store a batch of known records otherwise shows of
each record the fields that show, in their order. The grants are those of the store, unless a cache
says otherwise. The grants on the record, asked about each field, come to the same as all grants. -/
theorem batch_exact (f : Filter) (account : Account) (records : List Record) (action : Action) :
    (∀ record, records.find? (fun record => !f.entities.has record.entityType) = some record →
      f.batch account records action = fail (.unknownEntityType record.entityType)) ∧
    (f.authority.policy.IsTotal → ∀ (t : Tables) (w : World), w.Stores t →
      (∀ record ∈ records, f.entities.has record.entityType = true) →
      (∀ record ∈ records, ∃ tags, record.tags = .ok tags) →
      ∃ s, ((f.authority.grants.ofAccount account.id).run w).1 = .ok s ∧
        (f.authority.grants.cache = none ∨ w.IsFit ∧ w.IsCoherent [] →
          s.grants = t.grantsOf account.id) ∧
        ∃ shown, ((f.batch account records action).run w).1 = .ok shown ∧
          List.Forall₂ (fun record fields => ∀ tags, record.tags = .ok tags →
            fields = record.data.filter fun (name, _) =>
              f.shows s.grants account action.name record tags name) records shown) ∧
    ∀ (s : Snapshot) (record : Record) (tags : List Value), record.tags = .ok tags →
      f.visible s record action.name = .ok (record.data.filter fun (name, _) =>
        f.lets s.grants record action.name tags name) := by
  refine ⟨fun record h => ?_, fun hf t w hw hknown htags => ?_,
    fun s record tags h => f.visible_eq h⟩
  · rw [batch, forM_unknown h]
    rfl
  · obtain ⟨s, hs⟩ := (Evaluation.filtering account records action).run_grants f hw
    have hs : ((f.authority.grants.ofAccount account.id).run w).1 = .ok s := hs
    refine ⟨s, hs, fun hcache => ?_, ?_⟩
    · rw [Grants.run_ofAccount hw hcache] at hs
      obtain rfl := Except.ok.inj hs
      rfl
    · have hcs : (Evaluation.filtering account records action).cases f =
          .ok (records.map (.filtering f account action)) := by
        rw [Evaluation.cases, forM_known hknown]
        rfl
      have hask : ((f.batch account records action).run w).1 = _ :=
        Evaluation.run_ask f (.filtering account records action) hs
      have hmap := Outcome.mapM_map
        (fun record => Case.ruling f.authority.policy s (.filtering f account action record))
        (Evaluation.shown f s action.name) records
      rw [Evaluation.fst_told hcs, List.mapM_map] at hask
      -- what a record shows as a function of it alone, so that the decisions are mapped to it
      let reveal (record : Record) : Value.Fields := record.data.filter fun (name, _) =>
        f.shows s.grants account action.name record (record.tags.toOption.getD []) name
      have hreveal (record : Record) (hr : record ∈ records) :
          ((Case.filtering f account action record).ruling f.authority.policy s).map
            (Evaluation.shown f s action.name record) = .ok (reveal record) := by
        obtain ⟨tags, ht⟩ := htags record hr
        simp only [reveal, ht]
        exact shown_ruling hf s account action ht
      refine ⟨records.map reveal, ?_, ?_⟩
      · have hall : records.mapM (fun record =>
            ((Case.filtering f account action record).ruling f.authority.policy s).map
              (Evaluation.shown f s action.name record)) = .ok (records.map reveal) := by
          rw [Outcome.mapM_eq_ok_iff, List.forall₂_map_right_iff, List.forall₂_same]
          exact hreveal
        rw [hask, ← hall]
        exact hmap.symm
      · rw [List.forall₂_map_right_iff, List.forall₂_same]
        intro record _ tags ht
        simp only [reveal, ht]
        rfl

def reading : Tables :=
  { Tables.empty with
    entitlements := Table.empty.insert
      { id := "e", name := "reader", group := "", description := "", appliesTo := []
        permissions := [.text "note:read:name"], features := [], defaultFeatureScopes := []
        createdAt := .ofSeconds 0, updatedAt := .ofSeconds 0 }
    accountRulesets := Table.empty.insert
      { id := "r", account := "ann", entitlement := "reader", target := "t1", featureScopes := []
        createdAt := .ofSeconds 0 } }

theorem grantsOf_reading : reading.grantsOf "ann" =
    [⟨.account { id := "r", account := "ann", entitlement := "reader", target := "t1"
                 featureScopes := [], createdAt := .ofSeconds 0 },
      ⟨"reader", "", [], [⟨"note", "read", "name"⟩], [], []⟩⟩] := by
  decide +kernel

theorem run_grants_reading {w : World} (hw : w.Stores reading) :
    ((Grants.ofAccount ⟨none⟩ "ann").run w).1 = .ok ⟨"ann", reading.grantsOf "ann"⟩ :=
  Grants.run_ofAccount hw (.inl rfl) "ann"

theorem batch_exact_of_reading :
    let f : Filter := ⟨⟨⟨{}, ⟨fun _ => .ok false, false⟩⟩, ⟨none⟩⟩, ⟨[⟨"note", ["body", "name"]⟩]⟩⟩
    let w : World := { World.initial .error none { path := "" } with ledger := ⟨reading, .none⟩ }
    let record : Record := ⟨"note", [("name", .text "draft"), ("body", .text "")], .texts ["t1"]⟩
    ((f.batch { id := "ann" } [record] (.field .read)).run w).1 =
      .ok [[("name", .text "draft")]] := by
  intro f w record
  have htotal : f.authority.policy.IsTotal :=
    ⟨by simp [f], by simp [f], fun _ => rfl⟩
  obtain ⟨-, hexact, -⟩ := batch_exact f { id := "ann" } [record] (.field .read)
  obtain ⟨s, -, hs, shown, hshown, hfields⟩ := hexact htotal reading w rfl
    (by simp [f, record, Entities.has, Entities.get?]) (by simpa [record] using ⟨_, rfl⟩)
  rw [hshown]
  cases hfields with
  | cons hfirst hrest =>
    cases hrest
    have hgrants := (hs (.inl rfl)).trans grantsOf_reading
    rw [hfirst [.text "t1"] rfl, hgrants]
    rfl

end Filter

end AccessControl
