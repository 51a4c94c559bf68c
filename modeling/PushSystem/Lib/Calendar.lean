import Mathlib.Algebra.BigOperators.Group.List.Basic
import Mathlib.Algebra.Order.Ring.Nat
import Mathlib.Logic.Equiv.Defs

/-! The Gregorian calendar, carried on in both directions: dates and the days that they number. Day 0 is the
    first of January of the year 1. -/

namespace Calendar

/-! ### Consecutive segments -/

/-- The segment that the position is in, and the offset in it. -/
def locate : List Nat → Nat → Nat × Nat
  | [], d => (0, d)
  | len :: lens, d => if d < len then (0, d) else ((locate lens (d - len)).1 + 1, (locate lens (d - len)).2)

theorem locate_spec {lens : List Nat} {d : Nat} (h : d < lens.sum) :
    ∃ len, lens[(locate lens d).1]? = some len ∧ (locate lens d).2 < len ∧
      (lens.take (locate lens d).1).sum + (locate lens d).2 = d := by
  induction lens generalizing d with
  | nil => cases h
  | cons first lens ih =>
    rw [List.sum_cons] at h
    unfold locate
    split
    next hlt => exact ⟨first, rfl, hlt, Nat.zero_add d⟩
    next hge =>
      obtain ⟨len, hlen, hlt, hsum⟩ := ih (d := d - first) (by omega)
      refine ⟨len, hlen, hlt, ?_⟩
      rw [List.take_succ_cons, List.sum_cons]
      omega

theorem locate_sum_take {lens : List Nat} {i r len : Nat} (hi : lens[i]? = some len) (hr : r < len) :
    locate lens ((lens.take i).sum + r) = (i, r) := by
  induction lens generalizing i with
  | nil => cases hi
  | cons first lens ih =>
    cases i with
    | zero =>
      obtain rfl := Option.some.inj hi
      rw [List.take_zero, List.sum_nil, Nat.zero_add, locate, if_pos hr]
    | succ i =>
      have hsub : first + (lens.take i).sum + r - first = (lens.take i).sum + r := by omega
      rw [List.take_succ_cons, List.sum_cons, locate, if_neg (by omega), hsub, ih hi]

/-! ### Years -/

def Leap (year : Int) : Prop := year % 4 = 0 ∧ (year % 100 = 0 → year % 400 = 0)

instance decidableLeap (year : Int) : Decidable (Leap year) :=
  inferInstanceAs (Decidable (year % 4 = 0 ∧ (year % 100 = 0 → year % 400 = 0)))

def monthLengths (year : Int) : List Nat :=
  [31, if Leap year then 29 else 28, 31, 30, 31, 30, 31, 31, 30, 31, 30, 31]

/-- The first day of the year. -/
def yearStart (year : Int) : Int := 365 * (year - 1) + (year - 1) / 4 - (year - 1) / 100 + (year - 1) / 400

theorem sum_monthLengths (year : Int) : (monthLengths year).sum = if Leap year then 366 else 365 := by
  unfold monthLengths
  split <;> rfl

theorem yearStart_succ (year : Int) : yearStart (year + 1) = yearStart year + (monthLengths year).sum := by
  rw [sum_monthLengths]
  unfold yearStart
  split
  next h =>
    unfold Leap at h
    omega
  next h =>
    unfold Leap at h
    omega

theorem yearStart_add_le {y z : Int} (h : y < z) : yearStart y + 365 ≤ yearStart z := by
  unfold yearStart
  omega

/-- A year by its place in the 400-year cycle: `c` centuries, `q` four-year cycles and `y` years are over. -/
structure InCycle (c q y : Int) : Prop where
  century : 0 ≤ c ∧ c ≤ 3
  cycle : 0 ≤ q ∧ q ≤ 24
  year : 0 ≤ y ∧ y ≤ 3

section Cycle
variable {e c q y : Int}

theorem yearStart_cycle (h : InCycle c q y) :
    yearStart (400 * e + 100 * c + 4 * q + y + 1) = 146097 * e + 36524 * c + 1461 * q + 365 * y := by
  obtain ⟨hc, hq, hy⟩ := h
  have hfour : (400 * e + 100 * c + 4 * q + y) / 4 = 100 * e + 25 * c + q := by omega
  have hcentury : (400 * e + 100 * c + 4 * q + y) / 100 = 4 * e + c := by omega
  have hcycle : (400 * e + 100 * c + 4 * q + y) / 400 = e := by omega
  rw [yearStart, Int.add_sub_cancel, hfour, hcentury, hcycle]
  omega

theorem sum_monthLengths_cycle (h : InCycle c q y) :
    (monthLengths (400 * e + 100 * c + 4 * q + y + 1)).sum = if y = 3 ∧ (q = 24 → c = 3) then 366 else 365 := by
  obtain ⟨hc, hq, hy⟩ := h
  rw [sum_monthLengths]
  refine if_congr ?_ rfl rfl
  unfold Leap
  omega

end Cycle

/-- The year of a day. The last century of a 400-year cycle is a day longer, and so is the last year of a
    four-year cycle. -/
def yearOf (n : Int) : Int :=
  let day := n % 146097
  let century := min (day / 36524) 3
  let cycle := (day - 36524 * century) / 1461
  let year := min ((day - 36524 * century - 1461 * cycle) / 365) 3
  400 * (n / 146097) + 100 * century + 4 * cycle + year + 1

theorem yearOf_cycle (n : Int) : ∃ c q y, InCycle c q y ∧ yearOf n = 400 * (n / 146097) + 100 * c + 4 * q + y + 1 ∧
    365 * y ≤ n % 146097 - 36524 * c - 1461 * q ∧
    n % 146097 - 36524 * c - 1461 * q < 365 * y + (if y = 3 ∧ (q = 24 → c = 3) then 366 else 365 : Nat) := by
  refine ⟨min (n % 146097 / 36524) 3, (n % 146097 - 36524 * min (n % 146097 / 36524) 3) / 1461, _, ?_, rfl, ?_, ?_⟩
  · constructor <;> omega
  · omega
  · split <;> omega

theorem yearOf_spec (n : Int) : yearStart (yearOf n) ≤ n ∧ n < yearStart (yearOf n + 1) := by
  obtain ⟨c, q, y, hin, hyear, hle, hlt⟩ := yearOf_cycle n
  have hn := Int.emod_add_mul_ediv n 146097
  rw [yearStart_succ, hyear, yearStart_cycle hin, sum_monthLengths_cycle hin]
  constructor <;> omega

theorem yearOf_eq {n year : Int} (h : yearStart year ≤ n) (h' : n < yearStart (year + 1)) : yearOf n = year := by
  obtain ⟨hle, hlt⟩ := yearOf_spec n
  rcases Int.lt_trichotomy (yearOf n) year with hy | hy | hy
  · rcases Int.lt_or_eq_of_le (Int.add_one_le_of_lt hy) with hy' | hy'
    · have := yearStart_add_le hy'
      omega
    · rw [hy'] at hlt
      omega
  · exact hy
  · rcases Int.lt_or_eq_of_le (Int.add_one_le_of_lt hy) with hy' | hy'
    · have := yearStart_add_le hy'
      omega
    · rw [hy'] at h'
      omega

/-! ### Dates -/

/-- A date. Months count from 0, days from 1. -/
@[ext]
structure Date where
  year : Int
  mon : Nat
  mday : Nat
  valid : ∃ len, (monthLengths year)[mon]? = some len ∧ 0 < mday ∧ mday ≤ len
  deriving DecidableEq

namespace Date

def dayNumber (d : Date) : Int := yearStart d.year + ((monthLengths d.year).take d.mon).sum + (d.mday - 1 : Nat)

/-- The date of a day. -/
def ofDayNumber (n : Int) : Date where
  year := yearOf n
  mon := (locate (monthLengths (yearOf n)) (n - yearStart (yearOf n)).toNat).1
  mday := (locate (monthLengths (yearOf n)) (n - yearStart (yearOf n)).toNat).2 + 1
  valid := by
    obtain ⟨hle, hlt⟩ := yearOf_spec n
    rw [yearStart_succ] at hlt
    have hin : (n - yearStart (yearOf n)).toNat < (monthLengths (yearOf n)).sum := by omega
    obtain ⟨len, hlen, hday, -⟩ := locate_spec hin
    exact ⟨len, hlen, Nat.succ_pos _, hday⟩

theorem dayNumber_ofDayNumber (n : Int) : (ofDayNumber n).dayNumber = n := by
  obtain ⟨hle, hlt⟩ := yearOf_spec n
  rw [yearStart_succ] at hlt
  have hin : (n - yearStart (yearOf n)).toNat < (monthLengths (yearOf n)).sum := by omega
  obtain ⟨len, -, -, hsum⟩ := locate_spec hin
  show yearStart (yearOf n) + ((monthLengths (yearOf n)).take
    (locate (monthLengths (yearOf n)) (n - yearStart (yearOf n)).toNat).1).sum +
    ((locate (monthLengths (yearOf n)) (n - yearStart (yearOf n)).toNat).2 + 1 - 1 : Nat) = n
  omega

/-- The day is one of its year. -/
theorem dayNumber_bounds (d : Date) :
    yearStart d.year ≤ d.dayNumber ∧ d.dayNumber < yearStart (d.year + 1) := by
  obtain ⟨len, hlen, hpos, hle⟩ := d.valid
  have hsum := List.sum_take_add_sum_drop (monthLengths d.year) (d.mon + 1)
  rw [List.take_add_one, hlen, List.sum_append, Option.toList_some, List.sum_singleton] at hsum
  rw [yearStart_succ, dayNumber]
  omega

theorem ofDayNumber_dayNumber (d : Date) : ofDayNumber d.dayNumber = d := by
  obtain ⟨hle, hlt⟩ := d.dayNumber_bounds
  have hyear : yearOf d.dayNumber = d.year := yearOf_eq hle hlt
  obtain ⟨len, hlen, hpos, hday⟩ := d.valid
  have hoffset : (d.dayNumber - yearStart d.year).toNat = ((monthLengths d.year).take d.mon).sum + (d.mday - 1) := by
    rw [dayNumber]
    omega
  have hlocate := locate_sum_take (r := d.mday - 1) hlen (by omega)
  ext
  · exact hyear
  · show (locate (monthLengths (yearOf d.dayNumber)) (d.dayNumber - yearStart (yearOf d.dayNumber)).toNat).1 = d.mon
    rw [hyear, hoffset, hlocate]
  · show (locate (monthLengths (yearOf d.dayNumber)) (d.dayNumber - yearStart (yearOf d.dayNumber)).toNat).2 + 1 = d.mday
    rw [hyear, hoffset, hlocate]
    exact Nat.sub_add_cancel hpos

/-- Dates are the days. -/
def equivDay : Date ≃ Int := ⟨dayNumber, ofDayNumber, ofDayNumber_dayNumber, dayNumber_ofDayNumber⟩

theorem ofDayNumber_inj {m n : Int} : ofDayNumber m = ofDayNumber n ↔ m = n := equivDay.symm.injective.eq_iff

/-- The days before a month, which a leap day may be among. -/
theorem sum_take_monthLengths (year : Int) (mon : Nat) :
    ((monthLengths year).take mon).sum =
      ((monthLengths 1).take mon).sum + if 2 ≤ mon then (monthLengths year).sum - 365 else 0 := by
  rcases mon with _ | _ | mon
  · rfl
  · rfl
  · rw [if_pos (Nat.le_add_left 2 mon)]
    unfold monthLengths
    simp only [List.take_succ_cons, List.sum_cons, List.sum_nil]
    rw [if_neg (by decide : ¬Leap 1)]
    split <;> omega

/-- A year passes at least from a day to the same one of a later year. -/
theorem dayNumber_add_le {d e : Date} (hmon : d.mon = e.mon) (hday : d.mday = e.mday) (h : d.year < e.year) :
    d.dayNumber + 365 ≤ e.dayNumber := by
  have hle := yearStart_add_le h
  have hle' := yearStart_add_le (Int.add_lt_add_right h 1)
  have hlen : ∀ year, 365 ≤ (monthLengths year).sum := by
    intro year
    unfold monthLengths
    split <;> decide
  rw [yearStart_succ, yearStart_succ] at hle'
  have hd := hlen d.year
  have he := hlen e.year
  rw [dayNumber, dayNumber, sum_take_monthLengths d.year, sum_take_monthLengths e.year, hmon, hday]
  split <;> omega

end Date

end Calendar
