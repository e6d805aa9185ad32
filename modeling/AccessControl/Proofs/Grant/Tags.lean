import AccessControl.Proofs.Grant.Order

/-!
The tags of records. Whether a grant is on a record is told by a search among them, or by the set that
they make; on a list both say the same.
-/

namespace AccessControl

namespace Value

theorem sameItem_text_iff {v : Value} {s : String} : v.sameItem (.text s) = true ↔ v = .text s := by
  have hwhole : (Value.text s).whole? = none := rfl
  cases v <;>
    simp [sameItem, same, isNaN, sameNumber, hwhole, Option.isSome_iff_ne_none]

theorem member_eq_ok {v m : Value} (h : v.member = .ok m) : v = m := by
  cases v <;> first | exact Except.ok.inj h | cases h

theorem members_list {vs tags : List Value} (h : (Value.list vs).members = .ok tags) : vs = tags := by
  have hall : vs.mapM member = .ok tags := h
  have hsame : List.Forall₂ Eq vs tags := (Outcome.mapM_eq_ok_iff.1 hall).imp fun _ _ => member_eq_ok
  rwa [List.forall₂_eq_eq_eq] at hsame

end Value

theorem Grant.reaches_iff {g : Grant} {tags : List Value} :
    g.reaches tags = true ↔ .text g.target ∈ tags := by
  rw [reaches, List.contains_iff_mem]

theorem Grant.reaches_texts_iff {g : Grant} {ss : List String} :
    g.reaches (ss.map Value.text) = true ↔ g.target ∈ ss := by
  rw [reaches_iff, List.mem_map]
  constructor
  · rintro ⟨s, hs, h⟩
    rwa [← Value.text.inj h]
  · intro h
    exact ⟨g.target, h, rfl⟩

namespace Record

variable {record : Record} {vs : List Value}

theorem hasTag_list (h : record.attributes = .list vs) (g : Grant) :
    record.hasTag g.target = .ok (g.reaches vs) := by
  rw [hasTag, h, Value.holds_list, Except.ok.injEq, Bool.eq_iff_iff, List.any_eq_true,
    Grant.reaches_iff]
  simp only [Value.sameItem_text_iff, exists_eq_right]

theorem exists_hasTag {tags : List Value} (h : record.tags = .ok tags) (tag : String) :
    ∃ b, record.hasTag tag = .ok b := by
  rw [Record.tags, Value.members] at h
  rw [hasTag]
  cases hv : record.attributes with
  | list | text | object => exact ⟨_, rfl⟩
  | _ =>
    rw [hv] at h
    cases h

end Record

namespace Snapshot

variable {s : Snapshot} {record : Record} {action : String}

theorem allows_of_hasTag {has : Grant → Bool}
    (h : ∀ g, record.hasTag g.target = .ok (has g)) :
    s.allows record action =
      .ok (s.grants.any fun g => has g && g.capability.allowsRecord record.entityType action) := by
  rw [← Outcome.anyM_ok (ε := Error), allows]
  congr 1
  funext g
  rw [Capability.allowsOn, h g]
  rfl

theorem allows_list {vs : List Value} (h : record.attributes = .list vs) :
    s.allows record action =
      .ok (s.grants.any fun g => g.reaches vs && g.capability.allowsRecord record.entityType action) :=
  allows_of_hasTag (record.hasTag_list h)

theorem exists_allows {tags : List Value} (h : record.tags = .ok tags) (s : Snapshot)
    (action : String) : ∃ b, s.allows record action = .ok b := by
  choose has hhas using record.exists_hasTag h
  exact ⟨_, allows_of_hasTag fun g => hhas g.target⟩

theorem allows_eq_reaching {vs tags : List Value} (h : record.attributes = .list vs)
    (htags : record.tags = .ok tags) :
    s.allows record action = (s.reaching record action).map (!·.isEmpty) := by
  have htags' : (Value.list vs).members = .ok tags := by rwa [← h]
  obtain rfl := Value.members_list htags'
  rw [allows_list h, reaching, htags]
  refine congrArg Except.ok ?_
  change _ = !(List.filter _ s.grants).isEmpty
  rw [Bool.eq_iff_iff, List.any_eq_true]
  simp [List.filter_eq_nil_iff]

end Snapshot

end AccessControl
