import AccessControl.Text.Instant

/-!
Every day in the years one to 9999 has a date, from which it is found again.
-/

namespace AccessControl.Instant

theorem exists_place {d : Int} (h0 : 0 ≤ d) (h1 : d < 146097) :
    ∃ h k s r : Int, d = 36524 * h + 1461 * k + 365 * s + r ∧ (0 ≤ h ∧ h ≤ 3) ∧
      (0 ≤ k ∧ k ≤ 24) ∧ (0 ≤ s ∧ s ≤ 3) ∧ (0 ≤ r ∧ r ≤ 365) ∧
      (r = 365 → s = 3 ∧ (k = 24 → h = 3)) := by
  have hh : ∃ h e : Int, d = 36524 * h + e ∧ 0 ≤ h ∧ h ≤ 3 ∧ 0 ≤ e ∧ e ≤ 36524 ∧ (e = 36524 → h = 3) := by
    by_cases hd : d = 146096
    · exact ⟨3, 36524, by omega, by omega, by omega, by omega, by omega, fun _ => rfl⟩
    · exact ⟨d / 36524, d % 36524, by omega, by omega, by omega, by omega, by omega, by omega⟩
  obtain ⟨h, e, rfl, hh⟩ := hh
  have hs : ∃ s r : Int, e % 1461 = 365 * s + r ∧ 0 ≤ s ∧ s ≤ 3 ∧ 0 ≤ r ∧ r ≤ 365 ∧ (r = 365 → s = 3) := by
    by_cases he : e % 1461 = 1460
    · exact ⟨3, 365, by omega, by omega, by omega, by omega, by omega, fun _ => rfl⟩
    · exact ⟨e % 1461 / 365, e % 1461 % 365, by omega, by omega, by omega, by omega, by omega, by omega⟩
  obtain ⟨s, r, he, hs⟩ := hs
  exact ⟨h, e / 1461, s, r, by omega, by omega, by omega, by omega, by omega, by omega⟩

theorem yearOfEra_eq {h k s r : Int} (hh : 0 ≤ h ∧ h ≤ 3) (hk : 0 ≤ k ∧ k ≤ 24)
    (hs : 0 ≤ s ∧ s ≤ 3) (hr : 0 ≤ r ∧ r ≤ 365) (hl : r = 365 → s = 3 ∧ (k = 24 → h = 3)) {d : Int}
    (hd : d = 36524 * h + 1461 * k + 365 * s + r) :
    (d - d / 1460 + d / 36524 - d / 146096) / 365 = 100 * h + 4 * k + s := by
  have hlast : 1461 * k + 365 * s + r < 36524 ∨ h = 3 ∧ 1461 * k + 365 * s + r = 36524 := by
    by_cases h365 : r = 365
    · by_cases h24 : k = 24
      · exact .inr ⟨(hl h365).2 h24, by omega⟩
      · omega
    · omega
  have hc : d / 36524 - d / 146096 = h := by
    rcases hlast with hx | ⟨rfl, hx⟩
    · have hq : d / 36524 = h := by omega
      have hz : d / 146096 = 0 := by omega
      omega
    · obtain rfl : d = 146096 := by omega
      rfl
  have h4 : d / 1460 = 25 * h + k + (24 * h + k + 365 * s + r) / 1460 := by omega
  omega


theorem dateOf_place {g h k s r : Int} (hh : 0 ≤ h ∧ h ≤ 3) (hk : 0 ≤ k ∧ k ≤ 24)
    (hs : 0 ≤ s ∧ s ≤ 3) (hr : 0 ≤ r ∧ r ≤ 365) (hl : r = 365 → s = 3 ∧ (k = 24 → h = 3)) :
    dateOf (146097 * g + (36524 * h + 1461 * k + 365 * s + r)) =
      (100 * h + 4 * k + s + g * 400 + if r < 306 then 0 else 1,
        if r < 306 then (5 * r + 2) / 153 + 3 else (5 * r + 2) / 153 - 9,
        r - (153 * ((5 * r + 2) / 153) + 2) / 5 + 1) := by
  have hd : 0 ≤ 36524 * h + 1461 * k + 365 * s + r ∧ 36524 * h + 1461 * k + 365 * s + r < 146097 := by
    by_cases h365 : r = 365
    · have := (hl h365).1
      by_cases h24 : k = 24
      · have := (hl h365).2 h24
        omega
      · omega
    · omega
  have hg : (146097 * g + (36524 * h + 1461 * k + 365 * s + r)) / 146097 = g := by omega
  have hdoe : 146097 * g + (36524 * h + 1461 * k + 365 * s + r) - g * 146097 =
      36524 * h + 1461 * k + 365 * s + r := by omega
  have h4 : (100 * h + 4 * k + s) / 4 = 25 * h + k := by omega
  have h100 : (100 * h + 4 * k + s) / 100 = h := by omega
  have hdoy : 36524 * h + 1461 * k + 365 * s + r -
      (365 * (100 * h + 4 * k + s) + (25 * h + k) - h) = r := by omega
  simp only [dateOf, hg, hdoe, yearOfEra_eq hh hk hs hr hl rfl, h4, h100, hdoy]
  by_cases h306 : r < 306
  · have hm : (5 * r + 2) / 153 < 10 := by omega
    have hn : ¬ (5 * r + 2) / 153 + 3 ≤ 2 := by omega
    rw [if_pos hm, if_pos h306, if_pos h306, if_neg hn]
  · have hm : ¬ (5 * r + 2) / 153 < 10 := by omega
    have hn : (5 * r + 2) / 153 - 9 ≤ 2 := by omega
    rw [if_neg hm, if_neg h306, if_neg h306, if_pos hn]

theorem dayNumber_place {g h k s r : Int} (hh : 0 ≤ h ∧ h ≤ 3) (hk : 0 ≤ k ∧ k ≤ 24)
    (hs : 0 ≤ s ∧ s ≤ 3) (hr : 0 ≤ r ∧ r ≤ 365) :
    dayNumber (100 * h + 4 * k + s + g * 400 + if r < 306 then 0 else 1)
        (if r < 306 then (5 * r + 2) / 153 + 3 else (5 * r + 2) / 153 - 9)
        (r - (153 * ((5 * r + 2) / 153) + 2) / 5 + 1) =
      146097 * g + (36524 * h + 1461 * k + 365 * s + r) := by
  have h4 : (100 * h + 4 * k + s + g * 400) / 4 = 25 * h + k + 100 * g := by omega
  have h100 : (100 * h + 4 * k + s + g * 400) / 100 = h + 4 * g := by omega
  have h400 : (100 * h + 4 * k + s + g * 400) / 400 = g := by omega
  by_cases h306 : r < 306
  · have hn : ¬ (5 * r + 2) / 153 + 3 ≤ 2 := by omega
    have hm : (5 * r + 2) / 153 + 3 - 3 = (5 * r + 2) / 153 := by omega
    simp only [dayNumber, if_pos h306, if_neg hn, Int.add_zero, hm, h4, h100, h400]
    omega
  · have hn : (5 * r + 2) / 153 - 9 ≤ 2 := by omega
    have hm : (5 * r + 2) / 153 - 9 + 9 = (5 * r + 2) / 153 := by omega
    simp only [dayNumber, if_neg h306, if_pos hn, Int.add_sub_cancel, hm, h4, h100, h400]
    omega

/-- A day in the years one to 9999 has a date that stands for it, written with at most four digits
for the year and two for the month and the day. -/
theorem dayNumber_dateOf {n : Int} (h0 : dayNumber 1 1 1 ≤ n) (h1 : n < dayNumber 10000 1 1) :
    ∃ year month day : Int, dateOf n = (year, month, day) ∧ dayNumber year month day = n ∧
      (0 < year ∧ year < 10000) ∧ (0 ≤ month ∧ month < 100) ∧ (0 ≤ day ∧ day < 100) := by
  have hlow : dayNumber 1 1 1 = 306 := rfl
  have hhigh : dayNumber 10000 1 1 = 3652365 := rfl
  obtain ⟨h, k, s, r, hd, hh, hk, hs, hr, hl⟩ :=
    exists_place (d := n % 146097) (by omega) (by omega)
  obtain ⟨g, rfl⟩ : ∃ g, n = 146097 * g + (36524 * h + 1461 * k + 365 * s + r) :=
    ⟨n / 146097, by omega⟩
  refine ⟨_, _, _, dateOf_place hh hk hs hr hl, dayNumber_place hh hk hs hr, ?_, ?_, ?_⟩
  · split <;> omega
  · split <;> omega
  · omega

/-- An instant lies in the years one to 9999. -/
def IsDated (t : Instant) : Prop :=
  startOf 1 * perSecond ≤ t.micros ∧ t.micros < startOf 10000 * perSecond

instance (t : Instant) : Decidable t.IsDated :=
  inferInstanceAs (Decidable (_ ∧ _))

end AccessControl.Instant
