import AccessControl.Text.Timestamp
import AccessControl.Proofs.Text.Calendar
import Mathlib.Algebra.Group.Nat.Defs
import Mathlib.Data.List.Basic
import Mathlib.Data.List.TakeDrop
import Mathlib.Data.List.TakeWhile

/-!
Instants in the years one to 9999 are read back from the notation in which they are written.
-/

namespace AccessControl.Text

theorem toList_toString (n : Nat) : (toString n).toList = Nat.toDigits 10 n := by
  rw [Nat.toString_eq_ofList_toDigits, String.toList_ofList]

theorem isDigit_of_mem_padded {width : Nat} {n : Int} {c : Char} (hc : c ∈ padded width n) :
    c.isDigit := by
  rw [padded, toList_toString, List.mem_append] at hc
  rcases hc with hc | hc
  · rw [List.eq_of_mem_replicate hc]
    rfl
  · exact Nat.isDigit_of_mem_toDigits (by decide) (by decide) hc

theorem nat?_padded (width : Nat) (n : Int) : nat? (padded width n) = some n.toNat := by
  have hdigits : (padded width n).all Char.isDigit = true :=
    List.all_eq_true.2 fun c hc => isDigit_of_mem_padded hc
  have hsome : (padded width n).isEmpty = false := by
    rw [padded, toList_toString, List.isEmpty_eq_false_iff]
    exact List.append_ne_nil_of_right_ne_nil _ Nat.toDigits_ne_nil
  rw [nat?, hdigits, hsome, Bool.not_false, Bool.and_true, if_pos rfl]
  rw [padded, toList_toString]
  have h := Nat.ofDigitChars_append (b := 10) (l := List.replicate (width - (Nat.toDigits 10 n.toNat).length) '0')
    (m := Nat.toDigits 10 n.toNat) 0
  rw [Nat.ofDigitChars_replicate_zero, Nat.mul_zero, Nat.ofDigitChars_ten_toDigits,
    Nat.ofDigitChars_eq_foldl] at h
  exact congrArg some h

theorem length_padded {width : Nat} {n : Int} (hw : 0 < width) (hn : n.toNat < 10 ^ width) :
    (padded width n).length = width := by
  have hle : (Nat.toDigits 10 n.toNat).length ≤ width :=
    (Nat.length_toDigits_le_iff (by decide) hw).2 hn
  rw [padded, toList_toString, List.length_append, List.length_replicate]
  omega

theorem below?_padded {bound width : Nat} {n : Int} (h0 : 0 ≤ n) (hn : n < bound) :
    below? bound (padded width n) = some n := by
  have hlt : n.toNat < bound := by omega
  have hof : Int.ofNat n.toNat = n := Int.toNat_of_nonneg h0
  rw [below?, nat?_padded, Option.bind_some, if_pos hlt, hof]

theorem exists_two {n : Int} (hn : n < 100) : ∃ a b, padded 2 n = [a, b] :=
  List.length_eq_two.1 (length_padded (by decide) (by omega))

theorem exists_four {n : Int} (hn : n < 10000) : ∃ a b c d, padded 4 n = [a, b, c, d] :=
  List.length_eq_four.1 (length_padded (by decide) (by omega))

theorem fraction?_padded {n : Int} (h0 : 0 ≤ n) (hn : n < 1000000) :
    fraction? (padded 6 n) = some n := by
  have hlength : (padded 6 n).length = 6 := length_padded (by decide) (by omega)
  have hdigits : (padded 6 n).all Char.isDigit = true :=
    List.all_eq_true.2 fun c hc => isDigit_of_mem_padded hc
  have hsome : (padded 6 n).isEmpty = false := by
    rw [List.isEmpty_eq_false_iff, ← List.length_pos_iff, hlength]
    decide
  have hof : Int.ofNat n.toNat = n := Int.toNat_of_nonneg h0
  rw [fraction?, hdigits, hsome, Bool.not_false, Bool.and_true, if_pos rfl, hlength,
    List.take_of_length_le (Nat.le_of_eq hlength), Nat.sub_self, List.replicate_zero,
    List.append_nil, nat?_padded, Option.map_some, hof]

theorem seconds?_padded {s f : Int} (hs : 0 ≤ s ∧ s < 60) (hf : 0 ≤ f ∧ f < 1000000) :
    seconds? (':' :: padded 2 s ++ if f = 0 then [] else '.' :: padded 6 f) =
      some (s * microseconds + f, []) := by
  obtain ⟨a, b, hab⟩ := exists_two (n := s) (by omega)
  have hwhole : below? 60 [a, b] = some s := hab ▸ below?_padded hs.1 hs.2
  rw [hab]
  by_cases h0 : f = 0
  · rw [if_pos h0, h0]
    simp only [List.append_nil, seconds?, hwhole]
    rw [Int.add_zero]
    rfl
  · have hspan : (padded 6 f).span Char.isDigit = (padded 6 f, []) := by
      rw [List.span_eq_takeWhile_dropWhile, List.takeWhile_eq_self_iff.2, List.dropWhile_eq_nil_iff.2]
      · exact fun c hc => isDigit_of_mem_padded hc
      · exact fun c hc => isDigit_of_mem_padded hc
    rw [if_neg h0]
    simp only [List.cons_append, List.nil_append, seconds?, hwhole, hspan,
      fraction?_padded hf.1 hf.2]
    rfl

theorem clock?_padded {h m : Int} (hh : 0 ≤ h ∧ h < 24) (hm : 0 ≤ m ∧ m < 60) :
    clock? (padded 2 h) (padded 2 m) = some (h * 3600 + m * 60) := by
  have hhour : below? 24 (padded 2 h) = some h := below?_padded hh.1 hh.2
  have hminute : below? 60 (padded 2 m) = some m := below?_padded hm.1 hm.2
  rw [clock?, hhour, hminute]
  rfl

theorem date?_padded {year month day n : Int} (hdate : Instant.dateOf n = (year, month, day))
    (hn : Instant.dayNumber year month day = n) (hy : 0 < year ∧ year < 10000)
    (hm : 0 ≤ month ∧ month < 100) (hd : 0 ≤ day ∧ day < 100) :
    date? (padded 4 year) (padded 2 month) (padded 2 day) = some n := by
  have hyear : below? 10000 (padded 4 year) = some year := below?_padded (by omega) hy.2
  have hmonth : below? 100 (padded 2 month) = some month := below?_padded hm.1 hm.2
  have hday : below? 100 (padded 2 day) = some day := below?_padded hd.1 hd.2
  rw [date?, hyear, hmonth, hday]
  change (if _ then _ else _) = _
  rw [hn, if_pos ⟨hy.1, hdate⟩]

theorem dateTime?_instantChars {t : Instant} (ht : t.IsDated) :
    dateTime? (instantChars t) = some t := by
  obtain ⟨micros⟩ := t
  obtain ⟨h0, h1⟩ := ht
  have hsize : (Instant.perSecond : Int) = 1000000 := rfl
  have hday : Instant.perDay = 86400 := rfl
  simp only [Instant.startOf, hday, hsize] at h0 h1
  obtain ⟨year, month, day, hdate, hn, hy, hm, hd⟩ := Instant.dayNumber_dateOf
    (n := Instant.epoch + micros / Instant.perSecond / Instant.perDay)
    (by rw [hsize, hday]; omega) (by rw [hsize, hday]; omega)
  have hdays := date?_padded hdate hn hy hm hd
  have hclock := clock?_padded
    (h := micros / Instant.perSecond % Instant.perDay / 3600)
    (m := micros / Instant.perSecond % Instant.perDay / 60 % 60)
    (by rw [hday]; omega) (by omega)
  have hseconds := seconds?_padded
    (s := micros / Instant.perSecond % Instant.perDay % 60)
    (f := micros % Instant.perSecond) (by omega) (by rw [hsize]; omega)
  obtain ⟨y1, y2, y3, y4, hyear⟩ := exists_four (n := year) (by omega)
  obtain ⟨m1, m2, hmonth⟩ := exists_two (n := month) (by omega)
  obtain ⟨d1, d2, hdayOf⟩ := exists_two (n := day) (by omega)
  obtain ⟨a1, a2, hhour⟩ := exists_two
    (n := micros / Instant.perSecond % Instant.perDay / 3600) (by rw [hday]; omega)
  obtain ⟨b1, b2, hminute⟩ := exists_two
    (n := micros / Instant.perSecond % Instant.perDay / 60 % 60) (by omega)
  rw [hyear, hmonth, hdayOf] at hdays
  rw [hhour, hminute] at hclock
  simp only [instantChars, hdate, hyear, hmonth, hdayOf, hhour, hminute, List.cons_append,
    List.nil_append, dateTime?, timeOfDay?] at hseconds ⊢
  rw [hdays, hclock, hseconds]
  change some (Instant.mk _) = some (Instant.mk _)
  have hmicros : microseconds = 1000000 := rfl
  rw [hsize, hday, hmicros]
  congr 2
  omega

theorem timestamp?_instant {t : Instant} (ht : t.IsDated) : timestamp? (instant t) = some t := by
  rw [timestamp?, instant, String.toList_ofList, dateTime?_instantChars ht]

end AccessControl.Text
