import Mathlib.Algebra.Order.Field.Basic
import Mathlib.Algebra.Order.Floor.Ring
import Mathlib.Data.Int.Log
import Mathlib.Data.List.DropRight
import Mathlib.Tactic.Linarith
import Mathlib.Tactic.Positivity
import Mathlib.Tactic.Ring

/-! Decimal numerals: the digits of a number and their value, and a number rounded to so many significant digits. -/

namespace Decimal

/-! ### Digits -/

/-- The value of digits, the most significant first. -/
def value (ds : List Nat) : Nat := ds.foldl (fun n d => 10 * n + d) 0

/-- The last `p` digits of a number. -/
def lastDigits : Nat → Nat → List Nat
  | 0, _ => []
  | p + 1, n => lastDigits p (n / 10) ++ [n % 10]

/-- The digits of a number, at least one. -/
def digits (n : Nat) : List Nat := lastDigits (Nat.log 10 n + 1) n

theorem value_snoc (ds : List Nat) (d : Nat) : value (ds ++ [d]) = 10 * value ds + d := by
  simp [value, List.foldl_append]

theorem value_append (ds es : List Nat) : value (ds ++ es) = value ds * 10 ^ es.length + value es := by
  induction es using List.reverseRecOn with
  | nil => simp [value]
  | append_singleton es d ih =>
    rw [← List.append_assoc, value_snoc, ih, value_snoc, List.length_append, List.length_singleton, pow_succ]
    ring

@[simp] theorem length_lastDigits (p n : Nat) : (lastDigits p n).length = p := by
  induction p generalizing n with
  | zero => rfl
  | succ p ih => rw [lastDigits, List.length_append, ih, List.length_singleton]

theorem value_lastDigits (p n : Nat) : value (lastDigits p n) = n % 10 ^ p := by
  induction p generalizing n with
  | zero => rw [pow_zero, Nat.mod_one, lastDigits, value, List.foldl_nil]
  | succ p ih => rw [lastDigits, value_snoc, ih, pow_succ', Nat.mod_mul, Nat.add_comm]

theorem lt_of_mem_lastDigits {p n d : Nat} (h : d ∈ lastDigits p n) : d < 10 := by
  induction p generalizing n with
  | zero => cases h
  | succ p ih =>
    rcases List.mem_append.mp h with h | h
    · exact ih h
    · rw [List.mem_singleton.mp h]
      exact Nat.mod_lt _ (by omega)

theorem value_digits (n : Nat) : value (digits n) = n := by
  rw [digits, value_lastDigits, Nat.mod_eq_of_lt (Nat.lt_pow_succ_log_self (by omega) n)]

theorem digits_ne_nil (n : Nat) : digits n ≠ [] := fun h => by
  simpa [digits] using congrArg List.length h

theorem lt_of_mem_digits {n d : Nat} (h : d ∈ digits n) : d < 10 := lt_of_mem_lastDigits h

section Field
variable {R : Type*} [Field R] [LinearOrder R] [IsStrictOrderedRing R]

/-- The value of digits behind the point. -/
def fraction (R : Type*) [Field R] (ds : List Nat) : R := value ds / 10 ^ ds.length

theorem fraction_lastDigits (p n : Nat) : (n : R) / 10 ^ p = (n / 10 ^ p : Nat) + fraction R (lastDigits p n) := by
  have hpow : (10 : R) ^ p ≠ 0 := pow_ne_zero _ (by norm_num)
  have hsplit : (n : R) = 10 ^ p * (n / 10 ^ p : Nat) + (n % 10 ^ p : Nat) := by
    exact_mod_cast (Nat.div_add_mod n (10 ^ p)).symm
  rw [fraction, value_lastDigits, length_lastDigits, div_eq_iff hpow, add_mul, div_mul_cancel₀ _ hpow, mul_comm]
  exact hsplit

/-- Zeros at the end do not count. -/
theorem fraction_rdropWhile (ds : List Nat) : fraction R (ds.rdropWhile fun d => d = 0) = fraction R ds := by
  induction ds using List.reverseRecOn with
  | nil => rw [List.rdropWhile_nil]
  | append_singleton ds d ih =>
    by_cases hd : d = 0
    · subst hd
      rw [List.rdropWhile_concat_pos _ _ _ (by simp), ih, fraction, fraction, value_snoc, List.length_append,
        List.length_singleton, pow_succ', Nat.add_zero, Nat.cast_mul, Nat.cast_ofNat,
        mul_div_mul_left _ _ (by norm_num : (10 : R) ≠ 0)]
    · rw [List.rdropWhile_concat_neg _ _ _ (by simpa using hd)]

/-- Digits with a point between them. -/
theorem value_append_div (ds es : List Nat) : (value (ds ++ es) : R) / 10 ^ es.length = value ds + fraction R es := by
  have hpow : (10 : R) ^ es.length ≠ 0 := pow_ne_zero _ (by norm_num)
  rw [value_append, fraction, Nat.cast_add, Nat.cast_mul, Nat.cast_pow, Nat.cast_ofNat, add_div,
    mul_div_cancel_right₀ _ hpow]

end Field

/-! ### Rounding -/

section Rounding
variable {R : Type*} [Field R] [LinearOrder R] [FloorRing R]

/-- The nearest integer, and the even one of two. -/
def roundHalfEven (x : R) : ℤ :=
  if x - ⌊x⌋ < 1 / 2 then ⌊x⌋
  else if 1 / 2 < x - ⌊x⌋ then ⌊x⌋ + 1
  else ⌊x⌋ + ⌊x⌋ % 2

theorem floor_le_roundHalfEven (x : R) : ⌊x⌋ ≤ roundHalfEven x := by
  unfold roundHalfEven
  split_ifs <;> omega

theorem roundHalfEven_le (x : R) : roundHalfEven x ≤ ⌊x⌋ + 1 := by
  unfold roundHalfEven
  split_ifs <;> omega

variable [IsStrictOrderedRing R]

theorem abs_roundHalfEven_sub (x : R) : |(roundHalfEven x : R) - x| ≤ 1 / 2 := by
  have hlt := Int.lt_floor_add_one x
  have hle := Int.floor_le x
  unfold roundHalfEven
  split_ifs with hdown hup
  · rw [abs_le]
    constructor <;> linarith
  · push_cast
    rw [abs_le]
    constructor <;> linarith
  · -- in the middle, both neighbours are as near
    have hmiddle : x - ⌊x⌋ = 1 / 2 := le_antisymm (not_lt.mp hup) (not_lt.mp hdown)
    rcases Int.emod_two_eq_zero_or_one ⌊x⌋ with h | h <;> rw [h] <;> push_cast <;> rw [abs_le] <;> constructor <;>
      linarith

/-- A positive number as a mantissa of `p + 1` digits with the point behind the first of them, and an exponent. -/
def significant (p : Nat) (x : R) : Nat × ℤ :=
  if (roundHalfEven (x / 10 ^ (Int.log 10 x - p))).toNat = 10 ^ (p + 1) then (10 ^ p, Int.log 10 x + 1)
  else ((roundHalfEven (x / 10 ^ (Int.log 10 x - p))).toNat, Int.log 10 x)

/-- The number that the mantissa and the exponent stand for. -/
def rounded (p : Nat) (x : R) : R := (significant p x).1 * 10 ^ ((significant p x).2 - p)

section Positive
variable {p : Nat} {x : R}

/-- Scaled to `p + 1` digits before the point. -/
theorem scaled_bounds (hx : 0 < x) :
    (10 : R) ^ p ≤ x / 10 ^ (Int.log 10 x - p) ∧ x / 10 ^ (Int.log 10 x - p) < 10 ^ (p + 1) := by
  have hten : (10 : R) ≠ 0 := by norm_num
  have hlow : (10 : R) ^ Int.log 10 x ≤ x := by exact_mod_cast Int.zpow_log_le_self (by norm_num) hx
  have hhigh : x < (10 : R) ^ (Int.log 10 x + 1) := by exact_mod_cast Int.lt_zpow_succ_log_self (by norm_num) x
  have hscale : (0 : R) < 10 ^ (Int.log 10 x - p) := zpow_pos (by norm_num) _
  constructor
  · rw [le_div_iff₀ hscale, ← zpow_natCast, ← zpow_add₀ hten]
    simpa using hlow
  · rw [div_lt_iff₀ hscale, ← zpow_natCast, ← zpow_add₀ hten]
    have hexp : ((p + 1 : Nat) : ℤ) + (Int.log 10 x - p) = Int.log 10 x + 1 := by
      push_cast
      ring
    rwa [hexp]

theorem roundHalfEven_scaled_bounds (hx : 0 < x) :
    (10 : ℤ) ^ p ≤ roundHalfEven (x / 10 ^ (Int.log 10 x - p)) ∧
      roundHalfEven (x / 10 ^ (Int.log 10 x - p)) ≤ 10 ^ (p + 1) := by
  obtain ⟨hlow, hhigh⟩ := scaled_bounds (p := p) hx
  constructor
  · refine le_trans (Int.le_floor.mpr ?_) (floor_le_roundHalfEven _)
    exact_mod_cast hlow
  · have hfloor : ⌊x / 10 ^ (Int.log 10 x - p)⌋ < 10 ^ (p + 1) := Int.floor_lt.mpr (by exact_mod_cast hhigh)
    have := roundHalfEven_le (x / 10 ^ (Int.log 10 x - p))
    omega

/-- The mantissa has `p + 1` digits. -/
theorem significant_bounds (hx : 0 < x) : 10 ^ p ≤ (significant p x).1 ∧ (significant p x).1 < 10 ^ (p + 1) := by
  obtain ⟨hlow, hhigh⟩ := roundHalfEven_scaled_bounds (p := p) hx
  have hlow' : 10 ^ p ≤ (roundHalfEven (x / 10 ^ (Int.log 10 x - p))).toNat := by
    zify
    exact hlow.trans (Int.self_le_toNat _)
  have hhigh' : (roundHalfEven (x / 10 ^ (Int.log 10 x - p))).toNat ≤ 10 ^ (p + 1) := by
    refine Int.toNat_le.mpr ?_
    exact_mod_cast hhigh
  unfold significant
  split_ifs with heq
  · exact ⟨le_rfl, Nat.pow_lt_pow_right (by omega) (by omega)⟩
  · exact ⟨hlow', lt_of_le_of_ne hhigh' heq⟩

theorem rounded_eq (hx : 0 < x) :
    rounded p x = roundHalfEven (x / 10 ^ (Int.log 10 x - p)) * 10 ^ (Int.log 10 x - p) := by
  have hten : (10 : R) ≠ 0 := by norm_num
  have hnonneg : 0 ≤ roundHalfEven (x / 10 ^ (Int.log 10 x - p)) :=
    le_trans (by positivity) (roundHalfEven_scaled_bounds (p := p) hx).1
  have hcast : (((roundHalfEven (x / 10 ^ (Int.log 10 x - p))).toNat : ℤ) : R) =
      roundHalfEven (x / 10 ^ (Int.log 10 x - p)) := by rw [Int.toNat_of_nonneg hnonneg]
  rw [Int.cast_natCast] at hcast
  unfold rounded significant
  split_ifs with heq
  · -- the last digit is carried through all of them
    rw [← hcast, heq]
    have hexp : Int.log 10 x + 1 - (p : ℤ) = (Int.log 10 x - p) + 1 := by ring
    simp only [hexp, zpow_add_one₀ hten]
    push_cast
    ring
  · rw [hcast]

theorem rounded_pos (hx : 0 < x) : 0 < rounded p x := by
  have hpos : 0 < (significant p x).1 := lt_of_lt_of_le (by positivity) (significant_bounds (p := p) hx).1
  exact mul_pos (by exact_mod_cast hpos) (zpow_pos (by norm_num) _)

/-- Half a unit of the last digit. -/
theorem abs_rounded_sub (hx : 0 < x) : |rounded p x - x| ≤ x / (2 * 10 ^ p) := by
  have hten : (10 : R) ≠ 0 := by norm_num
  have hscale : (0 : R) < 10 ^ (Int.log 10 x - p) := zpow_pos (by norm_num) _
  have hlow : (10 : R) ^ Int.log 10 x ≤ x := by exact_mod_cast Int.zpow_log_le_self (by norm_num) hx
  have hunit : (10 : R) ^ (Int.log 10 x - p) / 2 ≤ x / (2 * 10 ^ p) := by
    rw [zpow_sub₀ hten, zpow_natCast, div_div, mul_comm]
    exact div_le_div_of_nonneg_right hlow (by positivity)
  refine le_trans ?_ hunit
  calc |rounded p x - x|
      = |roundHalfEven (x / 10 ^ (Int.log 10 x - p)) - x / 10 ^ (Int.log 10 x - p)| * 10 ^ (Int.log 10 x - p) := by
        rw [rounded_eq hx, ← abs_of_pos hscale, ← abs_mul, abs_of_pos hscale, sub_mul, div_mul_cancel₀ _ hscale.ne']
    _ ≤ 1 / 2 * 10 ^ (Int.log 10 x - p) := mul_le_mul_of_nonneg_right (abs_roundHalfEven_sub _) hscale.le
    _ = 10 ^ (Int.log 10 x - p) / 2 := by ring

end Positive
end Rounding

end Decimal
