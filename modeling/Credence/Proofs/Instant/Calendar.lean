import Mathlib.Order.Monotone.Basic
import Credence.Instant.Calendar

/-! # Days and dates

The date of a day is a date with the number of that day. The year of a day never falls from one day
of a cycle to the next, and it is known on the first and the last day of each year.
-/

namespace Credence.Calendar

theorem daysInMonth_le (year : Int) (month : Nat) : daysInMonth year month ≤ 31 := by
  unfold daysInMonth
  grind

theorem Date.bounds_of_exists {d : Date} (h : d.exists = true) :
    -262143 ≤ d.year ∧ d.year ≤ 262142 ∧ 1 ≤ d.month ∧ d.month ≤ 12 ∧ 1 ≤ d.day ∧
      d.day ≤ 31 := by
  have month := daysInMonth_le d.year d.month
  simp only [Date.exists, Bool.and_eq_true, decide_eq_true_eq] at h
  unfold firstYear lastYear at h
  omega

/-- The year of a cycle in which a day of the cycle lies. -/
def yearOfCycle (d : Int) : Int := (d - d / 1460 + d / 36524 - d / 146096) / 365

/-- The day of a cycle on which one of its years begins. -/
def startOfYear (y : Int) : Int := 365 * y + y / 4 - y / 100 + y / 400

theorem yearOfCycle_monotone {d d' : Int} (h : d ≤ d') : yearOfCycle d ≤ yearOfCycle d' := by
  have counted : Monotone (fun d : Int => d - d / 1460 + d / 36524 - d / 146096) :=
    monotone_int_of_le_succ (fun d => by omega)
  exact Int.ediv_le_ediv (by decide) (counted h)

theorem yearOfCycle_ends : ∀ y : Fin 400, yearOfCycle (startOfYear y) = y ∧
    yearOfCycle (startOfYear (y + 1) - 1) = y := by decide +kernel

theorem yearOfCycle_startOfYear {y : Int} (first : 0 ≤ y) (last : y < 400) :
    yearOfCycle (startOfYear y) = y ∧ yearOfCycle (startOfYear (y + 1) - 1) = y := by
  obtain ⟨n, rfl⟩ := Int.eq_ofNat_of_zero_le first
  exact yearOfCycle_ends ⟨n, by omega⟩

theorem yearOfCycle_mem {d : Int} (first : 0 ≤ d) (last : d < 146097) :
    0 ≤ yearOfCycle d ∧ yearOfCycle d < 400 := by
  unfold yearOfCycle
  omega

theorem startOfYear_le {d : Int} (first : 0 ≤ d) (last : d < 146097) :
    startOfYear (yearOfCycle d) ≤ d ∧ d < startOfYear (yearOfCycle d + 1) := by
  have bounds := yearOfCycle_mem first last
  generalize same : yearOfCycle d = y at bounds
  constructor
  · by_contra before
    -- The day before the year begins is the last day of the year before.
    have earlier : yearOfCycle d ≤ yearOfCycle (startOfYear y - 1) :=
      yearOfCycle_monotone (by omega)
    rcases Int.lt_or_le y 1 with zero | positive
    · obtain rfl : y = 0 := by omega
      exact before first
    · have closed := (yearOfCycle_startOfYear (y := y - 1) (by omega) (by omega)).2
      rw [Int.sub_add_cancel] at closed
      omega
  · by_contra after
    have later : yearOfCycle (startOfYear (y + 1)) ≤ yearOfCycle d :=
      yearOfCycle_monotone (by omega)
    rcases Int.lt_or_le y 399 with below | top
    · have opened := (yearOfCycle_startOfYear (y := y + 1) (by omega) (by omega)).1
      omega
    · obtain rfl : y = 399 := by omega
      exact after last

/-- The number of a day whose year and month are counted from March. -/
theorem dayNumber_of_march {cycle y m : Int} {day : Nat} (first : 0 ≤ y) (last : y < 400)
    (low : 0 ≤ m) (high : m < 12) :
    let month := if m < 10 then m + 3 else m - 9
    let year := if month ≤ 2 then y + cycle * 400 + 1 else y + cycle * 400
    (Date.mk year month.toNat day).dayNumber =
      cycle * 146097 + startOfYear y + (153 * m + 2) / 5 + (day - 1) - 719468 := by
  intro month year
  have counted : (if month.toNat ≤ 2 then (month.toNat : Int) + 9 else month.toNat - 3) = m := by
    grind
  have named : (if month.toNat ≤ 2 then year - 1 else year) = y + cycle * 400 := by
    grind
  unfold Date.dayNumber startOfYear
  simp only [counted, named]
  omega

theorem startOfYear_succ_le {y : Int} (first : 0 ≤ y) (last : y < 400) :
    startOfYear (y + 1) ≤ startOfYear y + 366 := by
  unfold startOfYear
  omega

/-- The date of a day has the number of the day. -/
theorem dayNumber_dateOfDay (day : Int) : (dateOfDay day).dayNumber = day := by
  let d := (day + 719468) % 146097
  let y := yearOfCycle d
  let dayOfYear := d - (365 * y + y / 4 - y / 100)
  have first : 0 ≤ d := Int.emod_nonneg _ (by decide)
  have last : d < 146097 := Int.emod_lt_of_pos _ (by decide)
  obtain ⟨low, high⟩ : 0 ≤ y ∧ y < 400 := yearOfCycle_mem first last
  have within : startOfYear y ≤ d ∧ d < startOfYear (y + 1) := startOfYear_le first last
  have length := startOfYear_succ_le low high
  have begun : startOfYear y = d - dayOfYear := by
    unfold startOfYear
    omega
  obtain ⟨early, late⟩ : 0 ≤ dayOfYear ∧ dayOfYear ≤ 365 := by omega
  let m := (5 * dayOfYear + 2) / 153
  refine (dayNumber_of_march (m := m) low high (by omega) (by omega)).trans ?_
  rw [begun]
  change (day + 719468) / 146097 * 146097 + (d - dayOfYear) + (153 * m + 2) / 5 +
    (((dayOfYear - (153 * m + 2) / 5 + 1).toNat : Int) - 1) - 719468 = day
  have split : (day + 719468) / 146097 * 146097 + d = day + 719468 := Int.ediv_mul_add_emod _ _
  generalize d = d' at *
  omega

end Credence.Calendar
