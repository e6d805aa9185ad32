import AccessControl.Proofs.Administration.Plans
import AccessControl.Proofs.Cache.Entries
import AccessControl.Proofs.Entitlements.Course
import AccessControl.Proofs.Program.Interleaving

/-!
Registrations that are made together. Who holds the lock of a name is the only one to read and to
save the row of the name, so that what it has read is still there when it saves.
-/

namespace AccessControl

namespace Access

def takes (name : String) : Access → Bool
  | ⟨_, .lock k, _⟩ => k = name
  | _ => false

def saves : Access → Bool
  | ⟨_, .store (.putEntitlement _), .ok _⟩ => true
  | _ => false

def fails : Access → Bool
  | ⟨_, .store (.entitlement _), .error _⟩ => true
  | ⟨_, .store (.putEntitlement _), .error _⟩ => true
  | _ => false

end Access

namespace Entitlements

open Keyed (key)

/-! What has become of the locks and the rows. -/

/-- Those who have held the lock of a name, in the order in which they took it. -/
def holders (name : String) (h : List Access) : List Nat :=
  (h.filter (Access.takes name)).map Access.task

def hasSaved (h : List Access) (n : Nat) : Bool :=
  h.any fun a => a.task = n && a.saves

def hasFailed (h : List Access) (n : Nat) : Bool :=
  h.any fun a => a.task = n && a.fails

/-- The last to hold the lock of a name whose save succeeded. -/
def lastSaver? (name : String) (h : List Access) : Option Nat :=
  ((holders name h).filter (hasSaved h)).getLast?

section History

variable {h : List Access} {a : Access} {name : String}

theorem holders_concat (h : List Access) (a : Access) (name : String) :
    holders name (h ++ [a]) = holders name h ++ if a.takes name then [a.task] else [] := by
  unfold holders
  rw [List.filter_append, List.map_append, List.filter_singleton]
  cases a.takes name <;> rfl

theorem hasSaved_concat (h : List Access) (a : Access) (n : Nat) :
    hasSaved (h ++ [a]) n = (hasSaved h n || (a.task = n && a.saves)) := by
  simp [hasSaved]

theorem hasFailed_concat (h : List Access) (a : Access) (n : Nat) :
    hasFailed (h ++ [a]) n = (hasFailed h n || (a.task = n && a.fails)) := by
  simp [hasFailed]

theorem holders_of_not_takes (ha : a.takes name = false) :
    holders name (h ++ [a]) = holders name h := by
  rw [holders_concat, ha, if_neg Bool.false_ne_true, List.append_nil]

theorem hasSaved_of_not_saves (ha : a.saves = false) : hasSaved (h ++ [a]) = hasSaved h := by
  funext n
  rw [hasSaved_concat, ha, Bool.and_false, Bool.or_false]

theorem hasFailed_of_not_fails (ha : a.fails = false) : hasFailed (h ++ [a]) = hasFailed h := by
  funext n
  rw [hasFailed_concat, ha, Bool.and_false, Bool.or_false]

theorem hasSaved_append {n : Nat} (hn : hasSaved h n = true) (more : List Access) :
    hasSaved (h ++ more) n = true := by
  unfold hasSaved at hn ⊢
  rw [List.any_append, hn, Bool.true_or]

theorem lastSaver?_of_not_saves (ha : a.saves = false)
    (hnew : a.takes name = true → hasSaved h a.task = false) :
    lastSaver? name (h ++ [a]) = lastSaver? name h := by
  unfold lastSaver?
  rw [hasSaved_of_not_saves ha, holders_concat, List.filter_append]
  by_cases htakes : a.takes name = true
  · simp [htakes, hnew htakes]
  · simp [htakes]

theorem filter_hasSaved_concat {ns : List Nat} (ha : a.task ∉ ns) :
    ns.filter (hasSaved (h ++ [a])) = ns.filter (hasSaved h) := by
  apply List.filter_congr
  intro n hn
  have hne : a.task ≠ n := fun heq => ha (heq ▸ hn)
  simp [hasSaved_concat, hne]

theorem lastSaver?_of_not_mem (htakes : a.takes name = false) (ha : a.task ∉ holders name h) :
    lastSaver? name (h ++ [a]) = lastSaver? name h := by
  unfold lastSaver?
  rw [holders_of_not_takes htakes, filter_hasSaved_concat ha]

theorem lastSaver?_of_saves (ha : a.saves = true) (htakes : a.takes name = false)
    (hlast : (holders name h).getLast? = some a.task) :
    lastSaver? name (h ++ [a]) = some a.task := by
  obtain ⟨others, heq⟩ := List.getLast?_eq_some_iff.mp hlast
  have hsaved : hasSaved (h ++ [a]) a.task = true := by simp [hasSaved_concat, ha]
  unfold lastSaver?
  rw [holders_of_not_takes htakes, heq, List.filter_append, List.filter_singleton, hsaved]
  simp

structure IsQuiet (a : Access) : Prop where
  takes : ∀ name, a.takes name = false
  saves : a.saves = false
  fails : a.fails = false

theorem isQuiet_of_isAside {n : Nat} {e : Effect} (he : e.isAside = true) (r : e.Reply) :
    IsQuiet ⟨n, e, r⟩ := by
  cases e with
  | store c =>
    cases c with
    | entitlements => exact ⟨fun _ => rfl, rfl, rfl⟩
    | _ => cases he
  | lock | unlock => cases he
  | _ => exact ⟨fun _ => rfl, rfl, rfl⟩

end History

/-! What an access does to the rows and the locks. -/

inductive Replies (rows : Table Entitlement) (locked : List String) :
    (e : Effect) → e.Reply → Table Entitlement → List String → Prop where
  | aside {e : Effect} (he : e.isAside = true) (r : e.Reply) : Replies rows locked e r rows locked
  | lock {name : String} (h : name ∉ locked) :
    Replies rows locked (.lock name) () rows (name :: locked)
  | unlock (name : String) : Replies rows locked (.unlock name) () rows (locked.erase name)
  | read (name : String) :
    Replies rows locked (.store (.entitlement name)) (.ok (rows.get? name)) rows locked
  | unread (name : String) (x : Error) :
    Replies rows locked (.store (.entitlement name)) (.error x) rows locked
  | save (f : Entitlement) :
    Replies rows locked (.store (.putEntitlement f)) (.ok f) (rows.insert f) locked
  | unsaved (f : Entitlement) (x : Error) :
    Replies rows locked (.store (.putEntitlement f)) (.error x) rows locked

theorem Replies.of_isAside {rows rows' : Table Entitlement} {locked locked' : List String}
    {e : Effect} {r : e.Reply} (h : Replies rows locked e r rows' locked')
    (he : e.isAside = true) : rows' = rows ∧ locked' = locked := by
  cases h with
  | aside => exact ⟨rfl, rfl⟩
  | _ => cases he

abbrev rowsOf (w : World) : Table Entitlement :=
  w.ledger.tables.entitlements

theorem replies_aside (w : World) {e : Effect} (he : e.isAside = true) :
    Replies (rowsOf w) w.locked e (w.answer e).1 (rowsOf (w.answer e).2) (w.answer e).2.locked := by
  cases e with
  | store c =>
    cases c with
    | entitlements =>
      cases hfails : w.ledger.fails .entitlements with
      | true =>
        obtain ⟨x, m, hcall, htables⟩ := Store.Ledger.call_of_fails hfails
        simp only [rowsOf, World.answer, hcall, htables]
        exact .aside rfl _
      | false =>
        simp only [rowsOf, World.answer, Store.Ledger.call_of_not_fails hfails]
        exact .aside rfl _
    | _ => cases he
  | lock | unlock => cases he
  | _ => exact .aside he _

theorem replies_read (w : World) (name : String) :
    Replies (rowsOf w) w.locked (.store (.entitlement name)) (w.answer _).1
      (rowsOf (w.answer (.store (.entitlement name))).2)
      (w.answer (.store (.entitlement name))).2.locked := by
  cases hfails : w.ledger.fails (.entitlement name) with
  | true =>
    obtain ⟨x, m, hcall, htables⟩ := Store.Ledger.call_of_fails hfails
    simp only [rowsOf, World.answer, hcall, htables]
    exact .unread name x
  | false =>
    simp only [rowsOf, World.answer, Store.Ledger.call_of_not_fails hfails]
    exact .read name

theorem replies_save (w : World) (f : Entitlement) :
    Replies (rowsOf w) w.locked (.store (.putEntitlement f)) (w.answer _).1
      (rowsOf (w.answer (.store (.putEntitlement f))).2)
      (w.answer (.store (.putEntitlement f))).2.locked := by
  cases hfails : w.ledger.fails (.putEntitlement f) with
  | true =>
    obtain ⟨x, m, hcall, htables⟩ := Store.Ledger.call_of_fails hfails
    simp only [rowsOf, World.answer, hcall, htables]
    exact .unsaved f x
  | false =>
    simp only [rowsOf, World.answer, Store.Ledger.call_of_not_fails hfails]
    exact .save f

theorem Stage.Aside.isAside {s s' : Stage} {e : Effect} {r : e.Reply} (h : s.Aside e r s') :
    e.isAside = true := by
  cases h with
  | closed _ _ _ he => exact he
  | _ => rfl

theorem replies_answer (w : World) {s s' : Stage} {c : Entitlements} {e : Effect} {r : e.Reply}
    (hadmits : w.admits e = true) (hs : s.Goes c e r s') (hr : r = (w.answer e).1) :
    Replies (rowsOf w) w.locked e r (rowsOf (w.answer e).2) (w.answer e).2.locked := by
  cases hs with
  | aside h =>
    rw [hr]
    exact replies_aside w h.isAside
  | lock e => exact .lock (by simpa [World.admits] using hadmits)
  | read | unread =>
    rw [hr]
    exact replies_read w _
  | save | unsaved =>
    rw [hr]
    exact replies_save w _
  | unlock e => exact .unlock e.name

/-! What holds of one registration, whatever the others do. -/

section Fits

variable (ds : List (Except Error Definition))

def IsDefined (n : Nat) (d : Definition) (name : String) : Prop :=
  ds[n]? = some (.ok d) ∧ ∃ rules, d.check = .ok (name, rules)

/-- The row of the definition of a registration, with the identifier and the time that it was
given. -/
def Drafted (h : List Access) (n : Nat) (e : Entitlement) : Prop :=
  ∃ d name id t, IsDefined ds n d name ∧ ⟨n, .mint, id⟩ ∈ h ∧ ⟨n, .now, t⟩ ∈ h ∧ e = d.row id name t

/-- A row is that of a definition in all but its identifier and the time of its creation. -/
def Renews (e f : Entitlement) : Prop :=
  f = { e with id := f.id, createdAt := f.createdAt }

/-- A row stands in the table under its name, with its identifier and the time of its creation. -/
def IsKept (rows : Table Entitlement) (f : Entitlement) : Prop :=
  ∃ row, rows.get? f.name = some row ∧ row.id = f.id ∧ row.createdAt = f.createdAt

/-- The rows of one table are still in another, with their identifiers and times of creation. -/
def Keeps (rows rows' : Table Entitlement) : Prop :=
  ∀ f, IsKept rows f → IsKept rows' f

namespace Stage

def Drafts (h : List Access) (n : Nat) : Stage → Prop
  | refused _ => True
  | warning d name _ | minting d name => IsDefined ds n d name
  | timing d name id => IsDefined ds n d name ∧ ⟨n, .mint, id⟩ ∈ h
  | leaving e (.ok f) | closing e f _ => Drafted ds h n e ∧ Renews e f
  | waiting e | reading e | noting e _ | saving e _ | telling e _ | leaving e (.error _)
  | failed e _ => Drafted ds h n e

def holds? : Stage → Option String
  | reading e | noting e _ | saving e _ | telling e _ | leaving e _ => some e.name
  | _ => none

def took? : Stage → Option String
  | reading e | noting e _ | saving e _ | telling e _ | leaving e _ | closing e _ _ | failed e _ =>
    some e.name
  | _ => none

def stored? : Stage → Option Entitlement
  | leaving _ (.ok f) | closing _ f _ => some f
  | _ => none

def hasFailed : Stage → Bool
  | telling _ _ | leaving _ (.error _) | failed _ _ => true
  | _ => false

def found? : Stage → Option (String × Option Entitlement)
  | noting e old | saving e old => some (e.name, old)
  | _ => none

/-- What holds of a registration at a stage, among others. -/
structure Fits (rows : Table Entitlement) (h : List Access) (n : Nat) (s : Stage) : Prop where
  drafts : s.Drafts ds h n
  took : ∀ name, n ∈ holders name h ↔ s.took? = some name
  last : ∀ name, s.holds? = some name → (holders name h).getLast? = some n
  saved : hasSaved h n = s.stored?.isSome
  failed : Entitlements.hasFailed h n = true → s.hasFailed = true
  found : ∀ name old, s.found? = some (name, old) → rows.get? name = old
  stored : ∀ f, s.stored? = some f → IsKept rows f

variable {ds} {rows rows' : Table Entitlement} {h : List Access} {n : Nat} {s s' : Stage}

theorem Drafts.append (hs : s.Drafts ds h n) (more : List Access) : s.Drafts ds (h ++ more) n := by
  have hdrafted {e : Entitlement} : Drafted ds h n e → Drafted ds (h ++ more) n e := by
    rintro ⟨d, name, id, t, hd, hid, ht, heq⟩
    exact ⟨d, name, id, t, hd, List.mem_append_left _ hid, List.mem_append_left _ ht, heq⟩
  cases s with
  | refused | warning | minting => exact hs
  | timing => exact ⟨hs.1, List.mem_append_left _ hs.2⟩
  | closing => exact ⟨hdrafted hs.1, hs.2⟩
  | leaving e x =>
    cases x with
    | ok f => exact ⟨hdrafted hs.1, hs.2⟩
    | error x => exact hdrafted hs
  | _ => exact hdrafted hs

theorem took?_of_holds? {name : String} (hs : s.holds? = some name) : s.took? = some name := by
  cases s <;> first | exact hs | cases hs

theorem holds?_of_found? {name : String} {old : Option Entitlement}
    (hs : s.found? = some (name, old)) : s.holds? = some name := by
  cases s with
  | noting | saving =>
    cases hs
    rfl
  | _ => cases hs

theorem Fits.frame (hs : s.Fits ds rows h n) {a : Access} (hne : a.task ≠ n)
    (hheld : ∀ name, s.holds? = some name →
      a.takes name = false ∧ rows'.get? name = rows.get? name)
    (hkeeps : Keeps rows rows') : s.Fits ds rows' (h ++ [a]) n where
  drafts := hs.drafts.append [a]
  took := by
    intro name
    have hmem : n ∉ (if a.takes name then [a.task] else []) := by
      split
      · simpa using hne.symm
      · exact List.not_mem_nil
    rw [holders_concat, List.mem_append, or_iff_left hmem]
    exact hs.took name
  last := by
    intro name hname
    rw [holders_of_not_takes (hheld name hname).1]
    exact hs.last name hname
  saved := by
    rw [hasSaved_concat, decide_eq_false hne, Bool.false_and, Bool.or_false]
    exact hs.saved
  failed := by
    rw [hasFailed_concat, decide_eq_false hne, Bool.false_and, Bool.or_false]
    exact hs.failed
  found := by
    intro name old hfound
    rw [(hheld name (holds?_of_found? hfound)).2]
    exact hs.found name old hfound
  stored f hf := hkeeps f (hs.stored f hf)

theorem Fits.pass (hs : s.Fits ds rows h n) {a : Access} (htakes : ∀ name, a.takes name = false)
    (hsaves : a.saves = false) (hdrafts : s'.Drafts ds (h ++ [a]) n) (htook : s'.took? = s.took?)
    (hholds : ∀ name, s'.holds? = some name → s.holds? = some name)
    (hstored : s'.stored? = s.stored?)
    (hfailed : s'.hasFailed = true ∨ a.fails = false ∧ s'.hasFailed = s.hasFailed)
    (hfound : ∀ name old, s'.found? = some (name, old) → rows.get? name = old) :
    s'.Fits ds rows (h ++ [a]) n where
  drafts := hdrafts
  took := by
    intro name
    rw [holders_of_not_takes (htakes name), htook]
    exact hs.took name
  last := by
    intro name hname
    rw [holders_of_not_takes (htakes name)]
    exact hs.last name (hholds name hname)
  saved := by
    rw [hasSaved_of_not_saves hsaves, hstored]
    exact hs.saved
  failed := by
    obtain hfailed | ⟨hfails, hsame⟩ := hfailed
    · exact fun _ => hfailed
    · rw [hasFailed_of_not_fails hfails, hsame]
      exact hs.failed
  found := hfound
  stored := by
    rw [hstored]
    exact hs.stored

theorem Fits.aside (hs : s.Fits ds rows h n) {e : Effect} {r : e.Reply} (hgo : s.Aside e r s') :
    s'.Fits ds rows (h ++ [⟨n, e, r⟩]) n := by
  obtain ⟨htakes, hsaves, hfails⟩ := isQuiet_of_isAside (n := n) hgo.isAside r
  have hdrafts := hs.drafts.append [⟨n, e, r⟩]
  have hmem : (⟨n, e, r⟩ : Access) ∈ h ++ [⟨n, e, r⟩] := List.mem_concat_self
  cases hgo with
  | warned =>
    exact hs.pass htakes hsaves hdrafts rfl (fun _ => id) rfl (.inr ⟨hfails, rfl⟩) hs.found
  | minted =>
    exact hs.pass htakes hsaves ⟨hdrafts, hmem⟩ rfl (fun _ => id) rfl (.inr ⟨hfails, rfl⟩) hs.found
  | timed d name id t =>
    exact hs.pass htakes hsaves ⟨d, name, id, t, hdrafts.1, hdrafts.2, hmem, rfl⟩ rfl (fun _ => nofun)
      rfl (.inr ⟨hfails, rfl⟩) hs.found
  | noted =>
    exact hs.pass htakes hsaves hdrafts rfl (fun _ => id) rfl (.inr ⟨hfails, rfl⟩) hs.found
  | told =>
    exact hs.pass htakes hsaves hdrafts rfl (fun _ => id) rfl (.inl rfl) fun _ _ => nofun
  | closed =>
    exact hs.pass htakes hsaves hdrafts rfl (fun _ => id) rfl (.inr ⟨hfails, rfl⟩) hs.found

theorem Fits.lock {e : Entitlement} (hs : (waiting e).Fits ds rows h n) :
    (reading e).Fits ds rows (h ++ [⟨n, .lock e.name, ()⟩]) n where
  drafts := hs.drafts.append _
  took := by
    intro name
    -- a registration takes one lock in all
    have hnew : n ∉ holders name h := fun hmem => nomatch (hs.took name).mp hmem
    rw [holders_concat, List.mem_append, or_iff_right hnew]
    simp [Access.takes, took?]
  last := by
    rintro _ ⟨⟩
    rw [holders_concat]
    simp [Access.takes]
  saved := by
    rw [hasSaved_of_not_saves rfl]
    exact hs.saved
  failed := by
    rw [hasFailed_of_not_fails rfl]
    exact hs.failed
  found _ _ := nofun
  stored _ := nofun

theorem Fits.fail {e : Entitlement} {x : Error} (hs : s.Fits ds rows h n) {a : Access}
    (htakes : ∀ name, a.takes name = false) (hsaves : a.saves = false)
    (hdrafts : Drafted ds h n e) (hholds : s.holds? = some e.name) (hstored : s.stored? = none) :
    (failing e x).Fits ds rows (h ++ [a]) n := by
  have hdrafts := Drafts.append (s := waiting e) hdrafts [a]
  have htook := took?_of_holds? hholds
  unfold failing
  split
  · exact hs.pass htakes hsaves hdrafts htook.symm (fun _ h => hholds.trans h) hstored.symm
      (.inl rfl) fun _ _ => nofun
  · exact hs.pass htakes hsaves hdrafts htook.symm (fun _ h => hholds.trans h) hstored.symm
      (.inl rfl) fun _ _ => nofun

theorem Fits.save {e f : Entitlement} {old : Option Entitlement}
    (hs : (saving e old).Fits ds rows h n) :
    (leaving e (.ok (renewed e old))).Fits ds (rows.insert (renewed e old))
      (h ++ [⟨n, .store (.putEntitlement (renewed e old)), .ok f⟩]) n where
  drafts := by
    refine ⟨Drafts.append (s := saving e old) hs.drafts _, ?_⟩
    cases old <;> rfl
  took := by
    intro name
    rw [holders_of_not_takes rfl]
    exact hs.took name
  last := by
    intro name
    rw [holders_of_not_takes rfl]
    exact hs.last name
  saved := by
    rw [hasSaved_concat]
    simp [Access.saves, stored?]
  failed := by
    rw [hasFailed_of_not_fails rfl]
    exact hs.failed
  found _ _ := nofun
  stored := by
    rintro _ ⟨⟩
    refine ⟨renewed e old, ?_, rfl, rfl⟩
    rw [Table.get?_insert]
    exact if_pos rfl

theorem Fits.unlock {c : Entitlements} {e : Entitlement} {x : Except Error Entitlement}
    (hs : (leaving e x).Fits ds rows h n) :
    (left c e x).Fits ds rows (h ++ [⟨n, .unlock e.name, ()⟩]) n := by
  have hdrafts := hs.drafts.append [⟨n, .unlock e.name, ()⟩]
  cases x with
  | ok f =>
    exact hs.pass (fun _ => rfl) rfl hdrafts rfl (fun _ => nofun) rfl (.inr ⟨rfl, rfl⟩)
      fun _ _ => nofun
  | error x =>
    exact hs.pass (fun _ => rfl) rfl hdrafts rfl (fun _ => nofun) rfl (.inl rfl) fun _ _ => nofun

theorem Fits.goes (hs : s.Fits ds rows h n) {c : Entitlements} {e : Effect} {r : e.Reply}
    {locked locked' : List String} (hgo : s.Goes c e r s')
    (hreplies : Replies rows locked e r rows' locked') : s'.Fits ds rows' (h ++ [⟨n, e, r⟩]) n := by
  cases hgo with
  | aside hgo =>
    obtain ⟨rfl, -⟩ := hreplies.of_isAside hgo.isAside
    exact hs.aside hgo
  | lock e =>
    cases hreplies with
    | lock => exact hs.lock
    | aside he => cases he
  | read e old =>
    cases hreplies with
    | aside he => cases he
    | read =>
      refine hs.pass (fun _ => rfl) rfl (hs.drafts.append _) rfl (fun _ => id) rfl
        (.inr ⟨rfl, rfl⟩) ?_
      rintro _ _ ⟨⟩
      rfl
  | unread e x =>
    cases hreplies with
    | aside he => cases he
    | unread => exact hs.fail (fun _ => rfl) rfl hs.drafts rfl rfl
  | save e f old =>
    cases hreplies with
    | aside he => cases he
    | save => exact hs.save
  | unsaved e old x =>
    cases hreplies with
    | aside he => cases he
    | unsaved => exact hs.fail (fun _ => rfl) rfl hs.drafts rfl rfl
  | unlock e x =>
    cases hreplies with
    | aside he => cases he
    | unlock => exact hs.unlock

end Stage

end Fits

end Entitlements

end AccessControl
