import AccessControl.Cache.Grants
import AccessControl.Proofs.Program.Interpretation
import AccessControl.Proofs.Store.Upkeep

/-!
The texts that a cache server holds, and what becomes of them.
-/

namespace AccessControl

open Keyed (key)

namespace Table

variable {ρ : Type} [Keyed ρ]

theorem get?_insert (t : Table ρ) (row : ρ) (k : String) :
    (t.insert row).get? k = if key row = k then some row else t.get? k := by
  change (upsert row t.rows).find? _ = _
  rw [get?]
  induction t.rows with
  | nil =>
    rw [upsert, List.find?_cons, List.find?_nil]
    by_cases hk : key row = k <;> simp [hk]
  | cons r rest ih =>
    rw [upsert]
    by_cases hr : key r = key row
    · by_cases hk : key row = k
      · simp [hr, hk]
      · simp [hr, hk]
    · by_cases hk : key row = k
      · have hrk : key r ≠ k := fun h => hr (h.trans hk.symm)
        simp only [if_neg hr, List.find?_cons, decide_eq_false hrk, ih]
      · simp only [if_neg hr, if_neg hk, List.find?_cons, ih]

end Table

namespace Cache.Entries

theorem text?_set (es : Entries) (key : String) (ttl : Int) (text k : String) :
    text? (es.after (.set key ttl text)) k = if key = k then some text else text? es k := by
  change ((Table.insert es ⟨key, some ttl, text⟩).get? k).map Entry.text = _
  rw [Table.get?_insert]
  change (if key = k then _ else _ : Option Entry).map _ = _
  split <;> rfl

theorem text?_without (es : Entries) (keys : List String) (k : String) :
    text? (without es keys) k = if k ∈ keys then none else text? es k := by
  rw [text?, without, Table.get?_filter, text?]
  cases hk : es.get? k with
  | none => simp
  | some e =>
    obtain ⟨-, rfl⟩ := Table.get?_eq_some_iff.1 hk
    change ((some e).filter fun e => !keys.contains e.key).map _ = if e.key ∈ keys then _ else _
    by_cases hm : e.key ∈ keys
    · simp [hm]
    · simp [hm]

end Cache.Entries

theorem Cache.Server.serve_cases (s : Server) (c : Command) :
    (∃ reason, (s.serve c).1 = .error reason) ∧ (s.serve c).2.entries = s.entries ∨
      (s.serve c).1 = .ok (s.entries.reply c) ∧ (s.serve c).2.entries = s.entries.after c := by
  rw [serve]
  rcases s.faults.take [c.verb] with ⟨_ | message, faults⟩
  · exact .inr ⟨rfl, rfl⟩
  · exact .inl ⟨⟨message, rfl⟩, rfl⟩

namespace GrantCache

theorem accountKey_injective : Function.Injective accountKey :=
  fun _ _ h => (String.append_right_inj rulesetsStart).1 h

theorem isPrefixOf_accountKey (account : String) :
    rulesetsStart.toList.isPrefixOf (accountKey account).toList = true := by
  rw [accountKey, String.toList_append, List.isPrefixOf_iff_prefix]
  exact List.prefix_append ..

theorem accountKey_ne_entitlementsKey (account : String) : accountKey account ≠ entitlementsKey := by
  intro h
  have hprefix := isPrefixOf_accountKey account
  rw [h] at hprefix
  revert hprefix
  decide

end GrantCache

end AccessControl
