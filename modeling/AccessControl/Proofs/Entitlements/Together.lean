import AccessControl.Proofs.Entitlements.Locking

/-!
Any number of registrations that are made together, over a store whose calls may fail. Each name has
the row of the last registration that held its lock and could save it, and keeps the identifier and
the time of creation of its first row.
-/

namespace AccessControl.Entitlements

open Program Concurrent

section Sound

variable (ds : List (Except Error Definition)) (first : Table Entitlement)

/-- The row of a name is the first one, or it is that of the last registration to hold the lock of
the name whose save succeeded. -/
def IsAccounted (rows : Table Entitlement) (h : List Access) (name : String) : Prop :=
  match lastSaver? name h with
  | none => rows.get? name = first.get? name
  | some n => ∃ e f, Drafted ds h n e ∧ e.name = name ∧ Renews e f ∧ rows.get? name = some f

structure IsSound (rows : Table Entitlement) (locked : List String) (h : List Access)
    (stages : List Stage) : Prop where
  fits : ∀ (n : Nat) (s : Stage), stages[n]? = some s → s.Fits ds rows h n
  nodup : locked.Nodup
  held : ∀ name, name ∈ locked ↔ ∃ (n : Nat) (s : Stage), stages[n]? = some s ∧ s.holds? = some name
  row : ∀ name, IsAccounted ds first rows h name

variable {ds first} {rows rows' : Table Entitlement} {locked locked' : List String}
  {h : List Access} {stages : List Stage} {n k : Nat} {s s' t : Stage} {name : String}

theorem IsSound.eq_of_holds (hx : IsSound ds first rows locked h stages) (hs : stages[n]? = some s)
    (ht : stages[k]? = some t) (hholds : s.holds? = some name) (hholds' : t.holds? = some name) :
    n = k := by
  have hlast := (hx.fits n s hs).last name hholds
  rw [(hx.fits k t ht).last name hholds'] at hlast
  exact (Option.some.inj hlast).symm

variable {c : Entitlements} {e : Effect} {r : e.Reply}

theorem get?_of_goes (hgo : s.Goes c e r s') (hreplies : Replies rows locked e r rows' locked')
    (hname : s.holds? ≠ some name) : rows'.get? name = rows.get? name := by
  cases hreplies with
  | save f =>
    cases hgo with
    | aside h => cases h.isAside
    | save e f old =>
      rw [Table.get?_insert]
      refine if_neg fun heq => hname ?_
      rw [← heq]
      exact congrArg some (name_renewed e old).symm
  | _ => rfl

theorem keeps_of_goes (hs : s.Fits ds rows h n) (hgo : s.Goes c e r s')
    (hreplies : Replies rows locked e r rows' locked') : Keeps rows rows' := by
  cases hreplies with
  | save f =>
    cases hgo with
    | aside h => cases h.isAside
    | save e f old =>
      rintro g ⟨row, hrow, hid, hcreated⟩
      have hfound := hs.found e.name old rfl
      have hkey : Keyed.key (renewed e old) = e.name := name_renewed e old
      unfold IsKept
      rw [Table.get?_insert, hkey]
      by_cases hname : e.name = g.name
      · rw [← hname, hfound] at hrow
        subst hrow
        rw [if_pos hname]
        exact ⟨_, rfl, hid, hcreated⟩
      · rw [if_neg hname]
        exact ⟨row, hrow, hid, hcreated⟩
  | _ => exact fun _ => id

theorem eq_or_saves (hreplies : Replies rows locked e r rows' locked') (n : Nat) :
    rows' = rows ∨ Access.saves ⟨n, e, r⟩ = true := by
  cases hreplies with
  | save => exact .inr rfl
  | _ => exact .inl rfl

theorem not_takes_of_mem (hreplies : Replies rows locked e r rows' locked') (n : Nat)
    (hname : name ∈ locked) : Access.takes name ⟨n, e, r⟩ = false := by
  cases hreplies with
  | aside he => exact (isQuiet_of_isAside he r).takes name
  | lock hnew =>
    apply decide_eq_false
    rintro rfl
    exact hnew hname
  | _ => rfl

theorem IsSound.fits_goes (hx : IsSound ds first rows locked h stages) (hs : stages[n]? = some s)
    (hgo : s.Goes c e r s') (hreplies : Replies rows locked e r rows' locked') (k : Nat) (t : Stage)
    (ht : (stages.set n s')[k]? = some t) : t.Fits ds rows' (h ++ [⟨n, e, r⟩]) k := by
  rw [List.getElem?_set] at ht
  by_cases hk : n = k
  · subst hk
    obtain ⟨hn, -⟩ := List.getElem?_eq_some_iff.mp hs
    simp only [if_true, hn] at ht
    obtain rfl := Option.some.inj ht
    exact (hx.fits n s hs).goes hgo hreplies
  · rw [if_neg hk] at ht
    refine (hx.fits k t ht).frame hk (fun name hname => ⟨?_, ?_⟩)
      (keeps_of_goes (hx.fits n s hs) hgo hreplies)
    -- what another one holds is locked: it cannot be taken, and only its holder writes its row
    · exact not_takes_of_mem hreplies n ((hx.held name).mpr ⟨k, t, ht, hname⟩)
    · exact get?_of_goes hgo hreplies fun hholds => hk (hx.eq_of_holds hs ht hholds hname)

inductive Shifts (locked : List String) : List String → Option String → Option String → Prop where
  | stays (name? : Option String) : Shifts locked locked name? name?
  | takes {name : String} (h : name ∉ locked) : Shifts locked (name :: locked) none (some name)
  | gives (name : String) : Shifts locked (locked.erase name) (some name) none

theorem shifts_of_goes (hgo : s.Goes c e r s') (hreplies : Replies rows locked e r rows' locked') :
    Shifts locked locked' s.holds? s'.holds? := by
  cases hgo with
  | aside hgo =>
    obtain ⟨-, rfl⟩ := hreplies.of_isAside hgo.isAside
    have hsame : s'.holds? = s.holds? := by cases hgo <;> rfl
    rw [hsame]
    exact .stays _
  | lock e =>
    cases hreplies with
    | aside he => cases he
    | lock hnew => exact .takes hnew
  | unlock e x =>
    have hleft : (Stage.left c e x).holds? = none := by cases x <;> rfl
    rw [hleft]
    cases hreplies with
    | aside he => cases he
    | unlock => exact .gives e.name
  | read | save =>
    cases hreplies with
    | aside he => cases he
    | _ => exact .stays _
  | unread e x | unsaved e _ x =>
    have hfailing : (Stage.failing e x).holds? = some e.name := by
      unfold Stage.failing
      split <;> rfl
    rw [hfailing]
    cases hreplies with
    | aside he => cases he
    | _ => exact .stays _

theorem exists_set_iff (hs : stages[n]? = some s) (name : String) :
    (∃ (k : Nat) (t : Stage), (stages.set n s')[k]? = some t ∧ t.holds? = some name) ↔
      s'.holds? = some name ∨
        ∃ (k : Nat) (t : Stage), k ≠ n ∧ stages[k]? = some t ∧ t.holds? = some name := by
  obtain ⟨hn, -⟩ := List.getElem?_eq_some_iff.mp hs
  constructor
  · rintro ⟨k, t, ht, hname⟩
    by_cases hk : k = n
    · subst hk
      rw [List.getElem?_set_self hn] at ht
      obtain rfl := Option.some.inj ht
      exact .inl hname
    · rw [List.getElem?_set_ne fun heq => hk heq.symm] at ht
      exact .inr ⟨k, t, hk, ht, hname⟩
  · rintro (hname | ⟨k, t, hk, ht, hname⟩)
    · exact ⟨n, s', List.getElem?_set_self hn, hname⟩
    · exact ⟨k, t, by rwa [List.getElem?_set_ne fun heq => hk heq.symm], hname⟩

theorem IsSound.held_goes (hx : IsSound ds first rows locked h stages) (hs : stages[n]? = some s)
    (hshifts : Shifts locked locked' s.holds? s'.holds?) (name : String) :
    name ∈ locked' ↔
      ∃ (k : Nat) (t : Stage), (stages.set n s')[k]? = some t ∧ t.holds? = some name := by
  have hself : stages.set n s = stages := by
    obtain ⟨hn, rfl⟩ := List.getElem?_eq_some_iff.mp hs
    exact List.set_getElem_self hn
  have hbefore := hx.held name
  rw [← hself, exists_set_iff hs] at hbefore
  rw [exists_set_iff hs]
  generalize hholds : s.holds? = before at hshifts hbefore
  generalize s'.holds? = after at hshifts
  cases hshifts with
  | stays => exact hbefore
  | takes hnew =>
    rw [List.mem_cons, hbefore]
    simp [eq_comm]
  | gives given =>
    rw [hx.nodup.mem_erase_iff, hbefore]
    constructor
    · rintro ⟨hne, heq | hothers⟩
      · exact absurd (Option.some.inj heq).symm hne
      · exact .inr hothers
    · rintro (heq | ⟨k, t, hk, ht, hname⟩)
      · cases heq
      · refine ⟨?_, .inr ⟨k, t, hk, ht, hname⟩⟩
        rintro rfl
        exact hk (hx.eq_of_holds ht hs hname hholds)

theorem Shifts.nodup {before after : Option String} (h : Shifts locked locked' before after)
    (hlocked : locked.Nodup) : locked'.Nodup := by
  cases h with
  | stays => exact hlocked
  | takes hnew => exact List.nodup_cons.mpr ⟨hnew, hlocked⟩
  | gives => exact hlocked.erase _

theorem IsAccounted.append (hrow : IsAccounted ds first rows h name) {a : Access}
    (hlast : lastSaver? name (h ++ [a]) = lastSaver? name h)
    (hrows : rows'.get? name = rows.get? name) :
    IsAccounted ds first rows' (h ++ [a]) name := by
  unfold IsAccounted at hrow ⊢
  rw [hlast, hrows]
  cases hsaver : lastSaver? name h with
  | none =>
    rw [hsaver] at hrow
    exact hrow
  | some m =>
    rw [hsaver] at hrow
    obtain ⟨e, f, hdrafted, hrest⟩ := hrow
    exact ⟨e, f, Stage.Drafts.append (s := .waiting e) hdrafted [a], hrest⟩

theorem stored?_of_takes (hgo : s.Goes c e r s') (htakes : Access.takes name ⟨n, e, r⟩ = true) :
    s.stored? = none := by
  cases hgo with
  | aside hgo =>
    rw [(isQuiet_of_isAside hgo.isAside r).takes name] at htakes
    cases htakes
  | lock => rfl
  | _ => cases htakes

theorem IsSound.row_saved (hx : IsSound ds first rows locked h stages) {e f : Entitlement}
    {old : Option Entitlement} (hs : stages[n]? = some (.saving e old)) (name : String) :
    IsAccounted ds first (rows.insert (renewed e old))
      (h ++ [⟨n, .store (.putEntitlement (renewed e old)), .ok f⟩]) name := by
  have hfits := hx.fits n _ hs
  have hkey : Keyed.key (renewed e old) = e.name := name_renewed e old
  by_cases hname : e.name = name
  · subst hname
    unfold IsAccounted
    -- who saves still holds the lock, so nobody has taken it later
    rw [lastSaver?_of_saves rfl rfl (hfits.last e.name rfl)]
    obtain ⟨hdrafted, hrenews⟩ := (hfits.save (f := f)).drafts
    refine ⟨e, renewed e old, hdrafted, rfl, hrenews, ?_⟩
    rw [Table.get?_insert, if_pos hkey]
  · have hnew : n ∉ holders name h := by
      rw [hfits.took name]
      exact fun heq => hname (Option.some.inj heq)
    refine (hx.row name).append (lastSaver?_of_not_mem rfl hnew) ?_
    rw [Table.get?_insert, if_neg (by rwa [hkey])]

theorem IsSound.row_goes (hx : IsSound ds first rows locked h stages) (hs : stages[n]? = some s)
    (hgo : s.Goes c e r s') (hreplies : Replies rows locked e r rows' locked') (name : String) :
    IsAccounted ds first rows' (h ++ [⟨n, e, r⟩]) name := by
  have hnew (htakes : Access.takes name ⟨n, e, r⟩ = true) : hasSaved h n = false := by
    rw [(hx.fits n s hs).saved, stored?_of_takes hgo htakes]
    rfl
  cases hreplies with
  | save f =>
    cases hgo with
    | aside h => cases h.isAside
    | save e _ old => exact hx.row_saved hs name
  | aside he =>
    exact (hx.row name).append (lastSaver?_of_not_saves (isQuiet_of_isAside he r).saves hnew) rfl
  | _ => exact (hx.row name).append (lastSaver?_of_not_saves rfl hnew) rfl

theorem IsSound.goes (hx : IsSound ds first rows locked h stages) (hs : stages[n]? = some s)
    (hgo : s.Goes c e r s') (hreplies : Replies rows locked e r rows' locked') :
    IsSound ds first rows' locked' (h ++ [⟨n, e, r⟩]) (stages.set n s') where
  fits := hx.fits_goes hs hgo hreplies
  nodup := (shifts_of_goes hgo hreplies).nodup hx.nodup
  held := hx.held_goes hs (shifts_of_goes hgo hreplies)
  row := hx.row_goes hs hgo hreplies

theorem fits_nil (hdrafts : s.Drafts ds [] n) (htook : s.took? = none) (hstored : s.stored? = none)
    (hfound : s.found? = none) : s.Fits ds rows [] n where
  drafts := hdrafts
  took name := by
    rw [htook]
    exact ⟨nofun, nofun⟩
  last name hname := by
    rw [Stage.took?_of_holds? hname] at htook
    cases htook
  saved := by
    rw [hstored]
    rfl
  failed := nofun
  found _ _ := by
    rw [hfound]
    exact nofun
  stored _ := by
    rw [hstored]
    exact nofun

theorem fits_start {d : Except Error Definition} (hd : ds[n]? = some d) :
    (Stage.start d).Fits ds rows [] n := by
  cases d with
  | error x => exact fits_nil trivial rfl rfl rfl
  | ok d =>
    unfold Stage.start
    cases hcheck : d.check with
    | error x =>
      simp only [hcheck]
      exact fits_nil trivial rfl rfl rfl
    | ok x =>
      obtain ⟨name, rules⟩ := x
      have hdefined : IsDefined ds n d name := ⟨hd, rules, hcheck⟩
      simp only [hcheck, Stage.checked]
      split
      · exact fits_nil hdefined rfl rfl rfl
      · exact fits_nil hdefined rfl rfl rfl

theorem fits_map_start (hs : (ds.map Stage.start)[n]? = some s) : s.Fits ds rows [] n := by
  rw [List.getElem?_map, Option.map_eq_some_iff] at hs
  obtain ⟨d, hd, rfl⟩ := hs
  exact fits_start hd

theorem isSound_start (ds : List (Except Error Definition)) (first : Table Entitlement) :
    IsSound ds first first [] [] (ds.map Stage.start) where
  fits n s := fits_map_start
  nodup := List.nodup_nil
  held name := by
    constructor
    · exact nofun
    · rintro ⟨n, s, hs, hname⟩
      have hfits : s.Fits ds first [] n := fits_map_start hs
      exact nomatch (hfits.took name).mpr (Stage.took?_of_holds? hname)
  row _ := rfl

end Sound

/-! The registrations as they are under way. -/

def underway (c : Entitlements) (w : World) (ds : List (Except Error Definition)) :
    Concurrent Entitlement :=
  .ofPrograms w (ds.map (registering c))

section Tracks

variable {c : Entitlements} {ds : List (Except Error Definition)} {first : Table Entitlement}
  {x y : Watched Entitlement} {stages : List Stage} {move : Move} {n : Nat} {s : Stage}

structure Tracks (c : Entitlements) (ds : List (Except Error Definition)) (first : Table Entitlement)
    (x : Watched Entitlement) (stages : List Stage) : Prop where
  programs : x.state.programs = stages.map (Stage.program c)
  well : ∀ s ∈ stages, s.IsWell
  length : stages.length = ds.length
  sound : IsSound ds first (rowsOf x.state.world) x.state.world.locked x.history stages

theorem tracks_underway (hc : c.backlog.phase = .flushed) {w : World} (hw : w.locked = []) :
    Tracks c ds (rowsOf w) ⟨underway c w ds, []⟩ (ds.map Stage.start) where
  programs := by
    unfold underway Concurrent.programs Concurrent.ofPrograms
    simp [Function.comp_def, Stage.program_start c hc]
  well := by
    intro s hs
    obtain ⟨d, -, rfl⟩ := List.mem_map.mp hs
    exact Stage.isWell_start d
  length := List.length_map _
  sound := by
    change IsSound ds _ _ w.locked _ _
    rw [hw]
    exact isSound_start ds (rowsOf w)

theorem Tracks.exists_stage (hx : Tracks c ds first x stages) {t : Task Entitlement}
    (ht : x.state.tasks[n]? = some t) : ∃ s, stages[n]? = some s ∧ s.IsWell ∧ t.rest = s.program c := by
  have hprogram : x.state.programs[n]? = some t.rest := by
    simp [Concurrent.programs, ht]
  rw [hx.programs, List.getElem?_map, Option.map_eq_some_iff] at hprogram
  obtain ⟨s, hs, hrest⟩ := hprogram
  exact ⟨s, hs, hx.well s (List.mem_of_getElem? hs), hrest.symm⟩

theorem Tracks.exists_task (hx : Tracks c ds first x stages) (hs : stages[n]? = some s) :
    ∃ t, x.state.tasks[n]? = some t ∧ t.rest = s.program c := by
  have hprogram : x.state.programs[n]? = some (s.program c) := by
    rw [hx.programs, List.getElem?_map, hs]
    rfl
  rw [Concurrent.programs, List.getElem?_map, Option.map_eq_some_iff] at hprogram
  exact hprogram

theorem Tracks.goes (hx : Tracks c ds first x stages) (hgo : x.Goes move y) :
    ∃ stages, Tracks c ds first y stages ∧ Keeps (rowsOf x.state.world) (rowsOf y.state.world) ∧
      (rowsOf y.state.world = rowsOf x.state.world ∨
        ∃ n < ds.length, move = .turn n ∧ hasSaved y.history n = true) := by
  cases hgo with
  | tick now => exact ⟨stages, ⟨hx.programs, hx.well, hx.length, hx.sound⟩, fun _ => id, .inl rfl⟩
  | wait => exact ⟨stages, hx, fun _ => id, .inl rfl⟩
  | @access n t e next htask hrest hadmits =>
    obtain ⟨s, hs, hwell, hprogram⟩ := hx.exists_stage htask
    rw [hrest] at hprogram
    let w : World := { x.state.world with correlation := t.correlation }
    obtain ⟨s', hgo, hwell', hnext⟩ :=
      Stage.goes_of_program c hwell hprogram.symm (w.answer e).1
    have hreplies := replies_answer w hadmits hgo rfl
    have hfits := hx.sound.fits n s hs
    refine ⟨stages.set n s', ⟨?_, ?_, ?_, hx.sound.goes hs hgo hreplies⟩,
      keeps_of_goes hfits hgo hreplies, ?_⟩
    · change ((x.state.tasks.set n _).map Task.rest) = _
      rw [List.map_set, List.map_set, ← hx.programs, ← hnext]
      rfl
    · intro u hu
      rcases List.mem_or_eq_of_mem_set hu with hu | rfl
      · exact hx.well u hu
      · exact hwell'
    · rw [List.length_set, hx.length]
    · refine (eq_or_saves hreplies n).imp id fun hsaves => ⟨n, ?_, rfl, ?_⟩
      · rw [← hx.length]
        exact (List.getElem?_eq_some_iff.mp hs).1
      · change hasSaved (x.history ++ [_]) n = true
        rw [hasSaved_concat, hsaves]
        simp

theorem exists_tracks (hc : c.backlog.phase = .flushed) {w : World} (hw : w.locked = [])
    (ds : List (Except Error Definition)) (moves : List Move) :
    ∃ stages, Tracks c ds (rowsOf w) ((underway c w ds).watch moves) stages := by
  refine watch_induction (I := fun x => ∃ stages, Tracks c ds (rowsOf w) x stages)
    ⟨_, tracks_underway hc hw⟩ ?_ moves
  rintro x move y ⟨stages, hx⟩ hgo
  obtain ⟨stages, hy, -⟩ := hx.goes hgo
  exact ⟨stages, hy⟩

theorem Stage.eq_closing (hs : s.IsWell) {f : Entitlement} (h : s.program c = .done f) :
    ∃ e p, s = .closing e f p := by
  cases s with
  | closing e g p =>
    obtain rfl : p = .done f := h
    obtain rfl : f = g := hs.2
    exact ⟨e, _, rfl⟩
  | waiting e =>
    change save e >>= conclude c = _ at h
    rw [save_bind] at h
    cases h
  | _ => cases h

theorem Stage.exists_ask (c : Entitlements) {name : String} (h : s.holds? = some name) :
    ∃ e next, s.program c = .ask e next ∧ ∀ w : World, w.admits e = true := by
  cases s with
  | reading | noting | saving | telling | leaving => exact ⟨_, _, rfl, fun _ => rfl⟩
  | _ => cases h

theorem exists_mem_locked {w : World} {e : Effect} (h : ¬ w.admits e = true) :
    ∃ name, name ∈ w.locked := by
  cases e with
  | lock name => exact ⟨name, by simpa [World.admits] using h⟩
  | _ => exact absurd rfl h

theorem Tracks.isLive (hx : Tracks c ds first x stages) : x.state.IsLive := by
  by_cases hover : x.state.IsOver
  · exact .inl hover
  · apply Or.inr
    obtain ⟨t, ht, hnone⟩ : ∃ t ∈ x.state.tasks, t.outcome? = none := by
      simpa [IsOver] using hover
    obtain ⟨n, htask⟩ := List.getElem?_of_mem ht
    cases hrest : t.rest with
    | done | fail => simp [Task.outcome?, hrest] at hnone
    | ask e next =>
      by_cases hadmits : x.state.world.admits e = true
      · refine ⟨n, ?_⟩
        rw [access?_eq_some htask hrest hadmits]
        rfl
      -- whoever holds the lock waits for nothing
      · obtain ⟨name, hname⟩ := exists_mem_locked hadmits
        obtain ⟨k, s, hs, hholds⟩ := (hx.sound.held name).mp hname
        obtain ⟨e, next, hprogram, hadmits⟩ := Stage.exists_ask c hholds
        obtain ⟨t, htask, hrest⟩ := hx.exists_task hs
        refine ⟨k, ?_⟩
        rw [access?_eq_some htask (hrest.trans hprogram) (hadmits _)]
        rfl

theorem Stage.stored?_of_hasFailed (h : s.hasFailed = true) : s.stored? = none := by
  cases s with
  | telling | failed => rfl
  | leaving e x =>
    cases x with
    | ok f => cases h
    | error x => rfl
  | _ => cases h

theorem Tracks.hasSaved_of_hasFailed (hx : Tracks c ds first x stages) (hn : n < ds.length)
    (hfailed : hasFailed x.history n = true) : hasSaved x.history n = false := by
  rw [← hx.length] at hn
  have hfits := hx.sound.fits n stages[n] (List.getElem?_eq_getElem hn)
  rw [hfits.saved, Stage.stored?_of_hasFailed (hfits.failed hfailed)]
  rfl

theorem Tracks.exists_row (hx : Tracks c ds first x stages) {f : Entitlement}
    (hn : x.state.outcomes[n]? = some (some (.ok f))) :
    hasSaved x.history n = true ∧ ∃ e, Drafted ds x.history n e ∧ Renews e f ∧
      IsKept (rowsOf x.state.world) f := by
  rw [outcomes, List.getElem?_map, Option.map_eq_some_iff] at hn
  obtain ⟨t, ht, houtcome⟩ := hn
  obtain ⟨s, hs, hwell, hprogram⟩ := hx.exists_stage ht
  have hdone : s.program c = .done f := by
    rw [← hprogram]
    unfold Task.outcome? at houtcome
    cases hrest : t.rest with
    | done g =>
      rw [hrest] at houtcome
      cases houtcome
      rfl
    | fail | ask =>
      rw [hrest] at houtcome
      cases houtcome
  obtain ⟨e, p, rfl⟩ := Stage.eq_closing hwell hdone
  have hfits := hx.sound.fits n _ hs
  exact ⟨hfits.saved, e, hfits.drafts.1, hfits.drafts.2, hfits.stored f rfl⟩

end Tracks

/-- What is to be seen of registrations at every moment. -/
structure IsConsistent (ds : List (Except Error Definition)) (w : World) (x : Watched Entitlement) :
    Prop where
  row : ∀ name, IsAccounted ds (rowsOf w) (rowsOf x.state.world) x.history name
  nodup : ((rowsOf x.state.world).rows.map Entitlement.name).Nodup
  returned : ∀ n f, x.state.outcomes[n]? = some (some (.ok f)) → hasSaved x.history n = true ∧
    ∃ e, Drafted ds x.history n e ∧ Renews e f ∧ IsKept (rowsOf x.state.world) f
  failed : ∀ n < ds.length, hasFailed x.history n = true → hasSaved x.history n = false ∧
    ∀ f, x.state.outcomes[n]? ≠ some (some (.ok f))
  live : x.state.IsLive

section Together

variable {c : Entitlements} (hc : c.backlog.phase = .flushed) {w : World} (hw : w.locked = [])

include hc hw

theorem isConsistent_watch (ds : List (Except Error Definition)) (moves : List Move) :
    IsConsistent ds w ((underway c w ds).watch moves) := by
  obtain ⟨stages, hx⟩ := exists_tracks hc hw ds moves
  exact {
    row := hx.sound.row
    nodup := (rowsOf _).nodup
    returned := fun n f => hx.exists_row
    failed := by
      intro n hn hfailed
      have hsaved := hx.hasSaved_of_hasFailed hn hfailed
      refine ⟨hsaved, fun f hf => ?_⟩
      rw [(hx.exists_row hf).1] at hsaved
      cases hsaved
    live := hx.isLive }

theorem keeps_watch (ds : List (Except Error Definition)) (moves more : List Move) :
    Keeps (rowsOf ((underway c w ds).watch moves).state.world)
      (rowsOf ((underway c w ds).watch (moves ++ more)).state.world) := by
  induction more using List.reverseRecOn with
  | nil =>
    rw [List.append_nil]
    exact fun _ => id
  | append_singleton more move ih =>
    obtain ⟨stages, hx⟩ := exists_tracks hc hw ds (moves ++ more)
    obtain ⟨_, -, hkeeps, -⟩ := hx.goes (Watched.goes_make _ move)
    rw [← List.append_assoc, watch_concat]
    exact fun f hf => hkeeps f (ih f hf)

theorem rows_of_hasFailed (ds : List (Except Error Definition)) (moves more : List Move) (n : Nat)
    (hfailed : hasFailed ((underway c w ds).watch (moves ++ .turn n :: more)).history n = true) :
    rowsOf ((underway c w ds).watch (moves ++ [.turn n])).state.world =
      rowsOf ((underway c w ds).watch moves).state.world := by
  obtain ⟨stages, hx⟩ := exists_tracks hc hw ds moves
  obtain ⟨_, -, -, hrows | ⟨m, hm, hmove, hsaved⟩⟩ := hx.goes (Watched.goes_make _ (.turn n))
  · rw [watch_concat]
    exact hrows
  · obtain rfl := Move.turn.inj hmove
    obtain ⟨news, hnews⟩ := exists_history_append (underway c w ds) (moves ++ [.turn n]) more
    rw [List.append_assoc, List.singleton_append] at hnews
    obtain ⟨stages, hy⟩ := exists_tracks hc hw ds (moves ++ .turn n :: more)
    have hnot := hy.hasSaved_of_hasFailed hm hfailed
    rw [← watch_concat] at hsaved
    rw [hnews, hasSaved_append hsaved] at hnot
    cases hnot

/-- Registrations that are made together, over a store whose calls may fail in any way. At every
moment the row of a name is the first one or that of the last registration to hold the lock of the
name whose save succeeded; a row keeps its identifier and the time of its creation; who fails leaves
the rows alone, and keeps nobody from coming to an end. -/
theorem registers_together (ds : List (Except Error Definition)) :
    (∀ moves, IsConsistent ds w ((underway c w ds).watch moves)) ∧
      (∀ moves more name row,
        (rowsOf ((underway c w ds).watch moves).state.world).get? name = some row →
          ∃ row', (rowsOf ((underway c w ds).watch (moves ++ more)).state.world).get? name =
            some row' ∧ row'.id = row.id ∧ row'.createdAt = row.createdAt) ∧
      (∀ moves more n,
        hasFailed ((underway c w ds).watch (moves ++ .turn n :: more)).history n = true →
          rowsOf ((underway c w ds).watch (moves ++ [.turn n])).state.world =
            rowsOf ((underway c w ds).watch moves).state.world) ∧
      ∀ moves, IsFair ds.length moves → ∃ k, ((underway c w ds).after moves k).state.IsOver := by
  refine ⟨isConsistent_watch hc hw ds, ?_, rows_of_hasFailed hc hw ds, ?_⟩
  · intro moves more name row hrow
    obtain ⟨-, hname⟩ := Table.get?_eq_some_iff.mp hrow
    obtain rfl : row.name = name := hname
    exact keeps_watch hc hw ds moves more row ⟨row, hrow, rfl, rfl⟩
  · intro moves hfair
    have hlength : (underway c w ds).tasks.length = ds.length := by
      simp [underway, Concurrent.ofPrograms]
    apply exists_isOver (hlength ▸ hfair)
    exact fun k => (isConsistent_watch hc hw ds _).live

end Together

/-! Three registrations of one name take turns, and the save of the second one fails. -/

def faltering : World :=
  { World.initial .error none { path := "" } with
    ledger := ⟨.empty, fun k n =>
      if k = .putEntitlement ∧ n = 1 then some (.outside .application "boom") else none⟩ }

def opened : Entitlements :=
  { backlog := ⟨.flushed, []⟩, listeners := [.named "audit" {}] }

def rivals : List (Except Error Definition) :=
  ["first", "second", "third"].map fun description => .ok (exports description)

def rounds (k : Nat) : Move :=
  if k % 2 = 0 then .turn (k / 2 % 3) else .tick (.ofSeconds k)

theorem isFair_rounds : IsFair rivals.length rounds := by
  intro n hn k
  have hcount : n < 3 := hn
  have heven : 2 * (3 * k + n) % 2 = 0 := by omega
  refine ⟨2 * (3 * k + n), by omega, ?_⟩
  rw [rounds, if_pos heven]
  congr 1
  omega

def rivalry : Watched Entitlement :=
  (underway opened faltering rivals).after rounds 112

theorem registers_together_rivals :
    opened.backlog.phase = .flushed ∧ faltering.locked = [] ∧
      hasFailed rivalry.history 1 = true ∧ lastSaver? "exports" rivalry.history = some 2 ∧
      (rowsOf rivalry.state.world).rows =
        [renewed ((exports "third").row (identifier 2) "exports" (.ofSeconds 9))
          (some ((exports "first").row (identifier 0) "exports" (.ofSeconds 5)))] ∧
      IsConsistent rivals faltering rivalry ∧
      ∃ k, ((underway opened faltering rivals).after rounds k).state.IsOver := by
  have htogether := registers_together (c := opened) (w := faltering) rfl rfl rivals
  refine ⟨rfl, rfl, by decide +kernel, by decide +kernel, by decide +kernel, htogether.1 _, ?_⟩
  exact htogether.2.2.2 rounds isFair_rounds

end AccessControl.Entitlements
