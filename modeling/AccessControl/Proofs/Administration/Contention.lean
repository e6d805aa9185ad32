import AccessControl.Proofs.Administration.Errands
import AccessControl.Proofs.Administration.Races

/-!
Grants and revocations of memberships that are under way together with grants of rulesets, without a
lock between them. Two rows come to be about the same exactly when one of them is raced.
-/

namespace AccessControl

open Concurrent Program Store

/-! What holds of the rows, and of how far the tasks have come. -/

open Operation in
/-- Every identifier is made by one task for one row, and a membership that a task has found is
about the slot of the task. -/
structure Orderly (ops : List Operation) (t : Tables) (minted : Nat) (gs : Nat → Errand) :
    Prop where
  entries : ∀ x ∈ t.entries, IsMade minted x.2
  made : ∀ n id, gs n = .made id → IsMade minted id ∧ ∀ x ∈ t.entries, x.2 ≠ id
  apart : ∀ m n id, gs m = .made id → gs n = .made id → m = n
  found : ∀ n id, gs n = .found id → IsMade minted id ∧ (∀ m, gs m ≠ .made id) ∧
    ∀ s, slotAt? ops n = some s → ∀ role account,
      (Slot.membership role account, id) ∈ t.entries → s = .membership role account

namespace Orderly

variable {ops : List Operation} {t : Tables} {minted n : Nat} {gs : Nat → Errand} {s : Slot}

theorem update (h : Orderly ops t minted gs) {g : Errand}
    (hmade : ∀ id, g = .made id → IsMade minted id ∧ (∀ x ∈ t.entries, x.2 ≠ id) ∧
      ∀ m, gs m ≠ .made id ∧ gs m ≠ .found id)
    (hfound : ∀ id, g = .found id → IsMade minted id ∧ (∀ m, gs m ≠ .made id) ∧
      ∀ s, Operation.slotAt? ops n = some s → ∀ role account,
        (Slot.membership role account, id) ∈ t.entries → s = .membership role account) :
    Orderly ops t minted (Function.update gs n g) where
  entries := h.entries
  made m id hm := by
    rw [Function.update_apply] at hm
    split at hm
    · exact ⟨(hmade id hm).1, (hmade id hm).2.1⟩
    · exact h.made m id hm
  apart l m id hl hm := by
    rw [Function.update_apply] at hl hm
    split at hl <;> split at hm
    · rename_i hln hmn
      rw [hln, hmn]
    · exact absurd hm ((hmade id hl).2.2 m).1
    · exact absurd hl ((hmade id hm).2.2 l).1
    · exact h.apart l m id hl hm
  found m id hm := by
    rw [Function.update_apply] at hm
    split at hm
    · rename_i hmn
      subst hmn
      obtain ⟨hid, hnot, hrow⟩ := hfound id hm
      refine ⟨hid, fun l hl => ?_, hrow⟩
      rw [Function.update_apply] at hl
      split at hl
      · rw [hm] at hl
        cases hl
      · exact hnot l hl
    · obtain ⟨hid, hnot, hrow⟩ := h.found m id hm
      refine ⟨hid, fun l hl => ?_, hrow⟩
      rw [Function.update_apply] at hl
      split at hl
      · exact ((hmade id hl).2.2 m).2 hm
      · exact hnot l hl

theorem dismiss (h : Orderly ops t minted gs) {g : Errand} (hg : g = .idle ∨ g = .vacant) :
    Orderly ops t minted (Function.update gs n g) := by
  refine h.update (fun id hid => ?_) fun id hid => ?_
  · obtain rfl | rfl := hg <;> cases hid
  · obtain rfl | rfl := hg <;> cases hid

theorem remain (h : Orderly ops t minted gs) {g : Errand} (hg : g = gs n) :
    Orderly ops t minted (Function.update gs n g) := by
  rw [hg, Function.update_eq_self]
  exact h

theorem mint (h : Orderly ops t minted gs) (n : Nat) :
    Orderly ops t (minted + 1) (Function.update gs n ((gs n).named (identifier minted))) := by
  have hmono : Orderly ops t (minted + 1) gs :=
    { entries := fun x hx => (h.entries x hx).mono (Nat.le_succ _)
      made := fun m id hm => (h.made m id hm).imp_left (·.mono (Nat.le_succ _))
      apart := h.apart
      found := fun m id hm => (h.found m id hm).imp_left (·.mono (Nat.le_succ _)) }
  cases hg : gs n with
  | vacant =>
    refine hmono.update (fun id hid => ?_) fun id hid => nomatch hid
    obtain rfl : identifier minted = id := Errand.made.inj hid
    refine ⟨isMade_identifier minted, fun x hx heq => ?_, fun m => ⟨fun hm => ?_, fun hm => ?_⟩⟩
    · exact h.entries x hx minted le_rfl heq
    · exact (h.made m _ hm).1 minted le_rfl rfl
    · exact (h.found m _ hm).1 minted le_rfl rfl
  | idle | made | found => exact hmono.remain hg.symm

theorem seek (h : Orderly ops t minted gs) (hn : Operation.slotAt? ops n = some s) {c : Call}
    (hc : c.seeks? = some s) :
    Orderly ops t minted (Function.update gs n ((gs n).told c (t.reply c))) := by
  have hvacant : Orderly ops t minted (Function.update gs n .vacant) := h.dismiss (.inr rfl)
  cases c with
  | membership role account =>
    obtain rfl := Option.some.inj hc
    cases hm : t.reply (.membership role account) with
    | none => exact hvacant
    | some m =>
      obtain ⟨hmem, hparties⟩ := Tables.of_reply_membership hm
      have hentry : (m.slot, m.id) ∈ t.entries := Tables.mem_entries.2 (.inl ⟨m, hmem, rfl⟩)
      refine h.update (fun id hid => nomatch hid) fun id hid => ?_
      obtain rfl : m.id = id := Errand.found.inj hid
      refine ⟨h.entries _ hentry, fun l hl => (h.made l _ hl).2 _ hentry rfl, ?_⟩
      intro s hs r a hrow
      obtain rfl := Option.some.inj (hn.symm.trans hs)
      obtain ⟨m', hmem', heq⟩ | ⟨r, -, heq⟩ | ⟨r, -, heq⟩ := Tables.mem_entries.1 hrow
      · obtain rfl := Table.eq_of_key_eq hmem' hmem (congrArg Prod.snd heq)
        exact (Membership.slot_eq_iff.2 hparties).symm.trans (congrArg Prod.fst heq)
      · cases congrArg Prod.fst heq
      · cases congrArg Prod.fst heq
  | roleRuleset role entitlement target =>
    cases hr : t.reply (.roleRuleset role entitlement target) with
    | none => exact hvacant
    | some r => exact h.remain rfl
  | accountRuleset account entitlement target =>
    cases hr : t.reply (.accountRuleset account entitlement target) with
    | none => exact hvacant
    | some r => exact h.remain rfl
  | _ => cases hc

theorem mono_entries (h : Orderly ops t minted gs) {u : Tables} (hsub : u.entries ⊆ t.entries) :
    Orderly ops u minted gs where
  entries x hx := h.entries x (hsub hx)
  made n id hn := (h.made n id hn).imp_right fun hnew x hx => hnew x (hsub hx)
  apart := h.apart
  found n id hn := by
    obtain ⟨hid, hnot, hrow⟩ := h.found n id hn
    exact ⟨hid, hnot, fun s hs role account hx => hrow s hs role account (hsub hx)⟩

theorem add (h : Orderly ops t minted gs) {c : Call} {id : String} (hc : c.adds? = some (s, id))
    (hn : gs n = .made id) : Orderly ops (t.after c) minted (Function.update gs n .idle) := by
  obtain ⟨hmade, hnew⟩ := h.made n id hn
  have hperm := Tables.perm_entries_after hc hnew
  have hidle : Orderly ops t minted (Function.update gs n .idle) := h.dismiss (.inl rfl)
  -- no other task has to do with the identifier
  have hother {m : Nat} {g : Errand} (hm : Function.update gs n .idle m = g) (hg : g ≠ .idle) :
      m ≠ n ∧ gs m = g := by
    rw [Function.update_apply] at hm
    split at hm
    · exact absurd hm.symm hg
    · exact ⟨‹_›, hm⟩
  constructor
  case entries =>
    intro x hx
    obtain rfl | hx := List.mem_cons.1 (hperm.mem_iff.1 hx)
    · exact hmade
    · exact h.entries x hx
  case made =>
    intro m other hm
    refine ⟨(hidle.made m other hm).1, fun x hx => ?_⟩
    obtain rfl | hx := List.mem_cons.1 (hperm.mem_iff.1 hx)
    · rintro rfl
      obtain ⟨hne, hm⟩ := hother hm nofun
      exact hne (h.apart m n id hm hn)
    · exact (hidle.made m other hm).2 x hx
  case apart => exact hidle.apart
  case found =>
    intro m other hm
    obtain ⟨hid, hfree, hrow⟩ := hidle.found m other hm
    refine ⟨hid, hfree, fun s hs role account hx => ?_⟩
    obtain heq | hx := List.mem_cons.1 (hperm.mem_iff.1 hx)
    · obtain rfl : other = id := congrArg Prod.snd heq
      exact absurd hn ((h.found m other (hother hm nofun).2).2.1 n)
    · exact hrow s hs role account hx

end Orderly

section Shifts

variable {ops : List Operation} {t : Tables} {n : Nat} {s : Slot}

theorem shifts_read {c : Call} (hc : c.isWrite = false) (s : Slot) :
    Access.Shifts ops s ⟨n, .store c, .ok (t.reply c)⟩ (t.count s) (t.count s) where
  count := by
    cases c <;> first | rfl | cases hc
  vacant h := by
    obtain ⟨hseeks, hmisses⟩ := Bool.and_eq_true_iff.1 h
    exact Tables.count_eq_zero_of_misses (of_decide_eq_true hseeks) hmisses

theorem shifts_add {c : Call} {x : Slot × String} (hc : c.adds? = some x)
    (hnew : ∀ y ∈ t.entries, y.2 ≠ x.2) (s : Slot) :
    Access.Shifts ops s ⟨n, .store c, .ok (t.reply c)⟩ (t.count s) ((t.after c).count s) where
  count := by
    have hremoves : Access.removes ops s ⟨n, .store c, .ok (t.reply c)⟩ = false := by
      cases c <;> first | rfl | cases hc
    have hadds : Access.adds s ⟨n, .store c, .ok (t.reply c)⟩ = decide (x.1 = s) := by
      rw [Access.adds, hc, Option.any_some]
    rw [hremoves, hadds, Tables.count_of_perm (Tables.perm_entries_after hc hnew)]
    simp
  vacant h := by
    cases c <;> first | cases h | cases hc

theorem shifts_remove {id : String} {mine : Slot} (hn : Operation.slotAt? ops n = some mine)
    (hrow : ∀ role account, (Slot.membership role account, id) ∈ t.entries →
      mine = .membership role account) (s : Slot) :
    Access.Shifts ops s ⟨n, .store (.dropMembership id), .ok (t.reply (.dropMembership id))⟩
      (t.count s) ((t.after (.dropMembership id)).count s) where
  count := by
    cases hreply : t.reply (.dropMembership id) with
    | false =>
      rw [Tables.dropMembership_eq_self hreply]
      rfl
    | true =>
      obtain ⟨m, hm, rfl⟩ := Table.contains_iff.1 hreply
      have hslot : mine = m.slot := hrow _ _ (Tables.mem_entries.2 (.inl ⟨m, hm, rfl⟩))
      have hremoves : Access.removes ops s ⟨n, .store (.dropMembership m.id), .ok true⟩ =
          decide (m.slot = s) := by
        simp only [Access.removes, hn, hslot, Option.some.injEq]
      change
        (_ + if Access.removes ops s ⟨n, .store (.dropMembership m.id), .ok true⟩ then 1 else 0) = _
      rw [hremoves, Tables.count_of_perm (Tables.perm_entries_dropMembership hm)]
      simp only [decide_eq_true_eq]
      rfl
  vacant h := by cases h

end Shifts

/-! One access. -/

namespace Orderly

variable {ops : List Operation} {gs : Nat → Errand} {n : Nat} {mine : Slot}

theorem call {t : Tables} {minted : Nat} (h : Orderly ops t minted gs)
    (hn : Operation.slotAt? ops n = some mine) {c : Call} (hallows : Errand.Allows mine (gs n) c) :
    Orderly ops (t.after c) minted (Function.update gs n ((gs n).told c (t.reply c))) ∧
      ∀ s, Access.Shifts ops s ⟨n, .store c, .ok (t.reply c)⟩ (t.count s)
        ((t.after c).count s) := by
  generalize hg : gs n = g at hallows
  cases hallows with
  | unrelated hread hseek =>
    rw [Tables.after_eq_self hread]
    exact ⟨h.remain ((Errand.told_unrelated hread hseek).trans hg.symm), shifts_read hread⟩
  | seek hseek =>
    have hread := Call.not_isWrite_of_seeks? hseek
    rw [Tables.after_eq_self hread, ← hg]
    exact ⟨h.seek hn hseek, shifts_read hread⟩
  | add hadds =>
    rw [Errand.told_add hadds]
    exact ⟨h.add hadds hg, shifts_add hadds (h.made n _ hg).2⟩
  | @remove role account id hmine =>
    obtain ⟨-, -, hrow⟩ := h.found n id hg
    have hidle : Orderly ops t minted (Function.update gs n .idle) := h.dismiss (.inl rfl)
    exact ⟨hidle.mono_entries (Tables.entries_dropMembership_subset id),
      shifts_remove hn (hrow mine hn)⟩

theorem answer {w : World} (h : Orderly ops w.ledger.tables w.minted gs)
    (hn : Operation.slotAt? ops n = some mine) {e : Effect}
    (hallows : (Errand.law mine).allows (gs n) e) :
    Orderly ops (w.answer e).2.ledger.tables (w.answer e).2.minted
        (Function.update gs n ((Errand.law mine).record (gs n) e (w.answer e).1)) ∧
      ∀ s, Access.Shifts ops s ⟨n, e, (w.answer e).1⟩ (w.ledger.tables.count s)
        ((w.answer e).2.ledger.tables.count s) := by
  cases e with
  | store c =>
    cases hfails : w.ledger.fails c with
    | true =>
      obtain ⟨e, l, hcall, hl⟩ := Ledger.call_of_fails hfails
      simp only [World.answer, hcall, hl]
      refine ⟨h.remain rfl, fun s => ⟨?_, fun hmisses => by cases hmisses⟩⟩
      cases c <;> rfl
    | false =>
      simp only [World.answer, Ledger.call_of_not_fails hfails]
      exact h.call hn hallows
  | mint => exact ⟨h.mint n, fun s => ⟨rfl, fun hmisses => by cases hmisses⟩⟩
  | _ => exact ⟨h.remain rfl, fun s => ⟨rfl, fun hmisses => by cases hmisses⟩⟩

end Orderly

def Errand.isPending : Errand → Bool
  | vacant | made _ => true
  | _ => false

namespace Errand

variable {s mine : Slot} {g : Errand} {n : Nat} {e : Effect} {r : e.Reply}

theorem isPending_of_adds (hallows : (law mine).allows g e)
    (hadds : Access.adds s ⟨n, e, r⟩ = true) : s = mine ∧ g.isPending = true := by
  cases e with
  | store c =>
    cases r with
    | error e => cases hadds
    | ok r =>
      obtain ⟨x, hx, hs⟩ := (Option.any_eq_true _ _).1 hadds
      obtain ⟨id, rfl, rfl⟩ := Errand.Allows.of_adds hallows hx
      exact ⟨(of_decide_eq_true hs).symm, rfl⟩
  | _ => cases hadds

theorem isPending_record (hallows : (law mine).allows g e)
    (hpending : ((law mine).record g e r).isPending = true) :
    g.isPending = true ∨ Access.misses mine ⟨n, e, r⟩ = true := by
  cases e with
  | store c =>
    cases r with
    | error e => exact .inl hpending
    | ok r =>
      change (g.told c r).isPending = true at hpending
      cases hallows with
      | unrelated hread hseek =>
        rw [told_unrelated hread hseek] at hpending
        exact .inl hpending
      | seek hseek =>
        cases hmisses : c.misses r with
        | true => exact .inr (Bool.and_eq_true_iff.2 ⟨decide_eq_true hseek, hmisses⟩)
        | false =>
          obtain htold | ⟨id, htold⟩ := told_of_finds (g := g) (Call.not_isWrite_of_seeks? hseek)
            hmisses
          · exact .inl (htold ▸ hpending)
          · rw [htold] at hpending
            cases hpending
      | add hadds =>
        rw [told_add hadds] at hpending
        cases hpending
      | remove => cases hpending
  | mint =>
    cases g with
    | vacant | made => exact .inl rfl
    | idle | found => cases hpending
  | _ => exact .inl hpending

end Errand

/-! Runs. -/

def Operation.underway (cache : Option GrantCache) (ops : List Operation) (w : World) :
    Concurrent Unit :=
  .ofPrograms w (ops.map (Operation.run cache))

/-- Every task goes about its row as its errand says, and the rows are as the history says. -/
structure Tracks (ops : List Operation) (start : Slot → Nat) (x : Watched Unit)
    (gs : Nat → Errand) : Prop where
  minds : ∀ n t, x.state.tasks[n]? = some t →
    ∃ s, Operation.slotAt? ops n = some s ∧ Errand.Minds s t.rest (gs n)
  orderly : Orderly ops x.state.world.ledger.tables x.state.world.minted gs
  looked : ∀ n s, Operation.slotAt? ops n = some s → (gs n).isPending = true →
    ∃ a ∈ x.history, a.task = n ∧ a.misses s = true
  course : ∀ s, Course ops s (start s) x.history (x.state.world.ledger.tables.count s)

section Tracks

variable {ops : List Operation} {start : Slot → Nat} {x y : Watched Unit} {gs : Nat → Errand}

theorem Tracks.goes (hx : Tracks ops start x gs) {move : Move} (hgo : x.Goes move y) :
    ∃ gs, Tracks ops start y gs := by
  cases hgo with
  | tick now => exact ⟨gs, hx.minds, hx.orderly, hx.looked, hx.course⟩
  | wait => exact ⟨gs, hx⟩
  | @access n t e next htask hrest hadmits =>
    let v : World := { x.state.world with correlation := t.correlation }
    obtain ⟨mine, hn, hminds⟩ := hx.minds n t htask
    rw [hrest] at hminds
    obtain ⟨hallows, hnext⟩ := hminds
    obtain ⟨horderly, hshifts⟩ := Orderly.answer (w := v) hx.orderly hn hallows
    refine ⟨_, ?_, horderly, ?_, fun s => (hx.course s).concat (hshifts s) fun hadds => ?_⟩
    -- the task that went on, and all others, which are where they were
    · intro m u hu
      change (x.state.tasks.set n _)[m]? = some u at hu
      by_cases hnm : n = m
      · subst hnm
        rw [List.getElem?_set_self (List.getElem?_eq_some_iff.1 htask).1, Option.some.injEq] at hu
        rw [← hu, Function.update_self]
        exact ⟨mine, hn, hnext _ trivial⟩
      · rw [List.getElem?_set_ne hnm] at hu
        rw [Function.update_of_ne (Ne.symm hnm)]
        exact hx.minds m u hu
    -- what a task has found, it has found by this look or by an earlier one
    · intro m s hm hpending
      rw [Function.update_apply] at hpending
      split at hpending
      · rename_i hmn
        obtain rfl : s = mine := Option.some.inj (hm.symm.trans (hmn ▸ hn))
        obtain hpending | hmisses := Errand.isPending_record hallows hpending
        · obtain ⟨a, ha, hlook⟩ := hx.looked n s hn hpending
          exact ⟨a, List.mem_append_left _ ha, hmn ▸ hlook⟩
        · exact ⟨_, List.mem_append_right _ List.mem_cons_self, hmn.symm, hmisses⟩
      · obtain ⟨a, ha, hlook⟩ := hx.looked m s hm hpending
        exact ⟨a, List.mem_append_left _ ha, hlook⟩
    · obtain ⟨rfl, hpending⟩ := Errand.isPending_of_adds hallows hadds
      exact hx.looked n s hn hpending

end Tracks

namespace Operation

variable {cache : Option GrantCache} {ops : List Operation} {w : World}

theorem tracks_underway (cache : Option GrantCache) (hops : ∀ op ∈ ops, op.slot?.isSome = true)
    (hkept : w.ledger.tables.IsKept w.minted) :
    Tracks ops w.ledger.tables.count ⟨underway cache ops w, []⟩ fun _ => .idle := by
  constructor
  case minds =>
    intro n t ht
    change ((ops.map (run cache)).map fun rest => ({ rest } : Task Unit))[n]? = some t at ht
    rw [List.getElem?_map, List.getElem?_map, Option.map_map, Option.map_eq_some_iff] at ht
    obtain ⟨op, hop, rfl⟩ := ht
    obtain ⟨s, hs⟩ := Option.isSome_iff_exists.1 (hops op (List.mem_of_getElem? hop))
    exact ⟨s, by rw [slotAt?, hop, Option.bind_some, hs], Errand.minds_run hs cache⟩
  case orderly =>
    constructor
    case entries =>
      intro x hx
      obtain ⟨m, hm, rfl⟩ | ⟨r, hr, rfl⟩ | ⟨r, hr, rfl⟩ := Tables.mem_entries.1 hx
      · exact (hkept.memberships m hm).1
      · exact (hkept.roleRulesets r hr).1
      · exact (hkept.accountRulesets r hr).1
    case made => exact fun _ _ hn => nomatch hn
    case apart => exact fun _ _ _ hn => nomatch hn
    case found => exact fun _ _ hn => nomatch hn
  case looked => exact fun _ _ _ hpending => nomatch hpending
  case course => exact fun s => .start

theorem exists_tracks (cache : Option GrantCache) (hops : ∀ op ∈ ops, op.slot?.isSome = true)
    (hkept : w.ledger.tables.IsKept w.minted) (moves : List Move) :
    ∃ gs, Tracks ops w.ledger.tables.count ((underway cache ops w).watch moves) gs := by
  refine watch_induction (I := fun x => ∃ gs, Tracks ops w.ledger.tables.count x gs)
    ⟨_, tracks_underway cache hops hkept⟩ ?_ moves
  rintro x move y ⟨gs, hx⟩ hgo
  exact hx.goes hgo

def rows (x : Watched Unit) (s : Slot) : Nat := x.state.world.ledger.tables.count s

theorem exists_one_lt_rows (hops : ∀ op ∈ ops, op.slot?.isSome = true)
    (hkept : w.ledger.tables.IsKept w.minted) {moves : List Move} {s : Slot}
    (hraced : s.IsRaced ops ((underway cache ops w).watch moves).history) :
    ∃ past, past <+: moves ∧ 1 < rows ((underway cache ops w).watch past) s := by
  -- the last move ends the race, or the race was on before it
  induction moves using List.reverseRecOn with
  | nil =>
    obtain ⟨before, a, after, hnil, -⟩ := hraced
    exact absurd hnil (by simp [watch])
  | append_singleton moves move ih =>
    have hgo := Watched.goes_make ((underway cache ops w).watch moves) move
    rw [← watch_concat] at hgo
    obtain hr | ⟨a, hhistory, hadds, houtdated⟩ := hraced.of_goes hgo
    · obtain ⟨past, hpast, hrows⟩ := ih hr
      exact ⟨past, hpast.trans (List.prefix_append _ _), hrows⟩
    · obtain ⟨gs, hx⟩ := exists_tracks cache hops hkept (moves ++ [move])
      have hcourse := hx.course s
      rw [hhistory] at hcourse
      exact ⟨_, List.prefix_rfl, hcourse.one_lt hadds houtdated⟩

def editors : World :=
  let now := Instant.ofSeconds 0
  { World.initial .error none ⟨"", none, none, none⟩ with
    minted := 1
    ledger :=
      { tables :=
          { Tables.empty with
            roles := ⟨[⟨identifier 0, "editors", "", now, now⟩], List.nodup_singleton _⟩ }
        faults := .none } }

theorem isKept_editors : editors.ledger.tables.IsKept editors.minted where
  roles r hr := by
    rw [List.mem_singleton.1 hr]
    exact isMade_identifier 0
  memberships _ h := absurd h List.not_mem_nil
  roleRulesets _ h := absurd h List.not_mem_nil
  accountRulesets _ h := absurd h List.not_mem_nil

def annTwice : List Operation :=
  List.replicate 2 (.grantMembership (identifier 0) "ann")

def overlapping : List Move :=
  List.replicate 2 (.turn 0) ++ (List.replicate 6 (.turn 1) ++ List.replicate 4 (.turn 0))

end Operation

end AccessControl
