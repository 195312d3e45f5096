import SyncAnywhere.Core.CMemory

/-!
# Single precision

A `float` operation rounds its exact result to 24 binary digits, ties to the
even one.  Numbers too large or too small for a `float` are left out; a
conversion to `int` is defined where the whole part fits.
-/

namespace SyncAnywhere.SingleFloat

open SyncAnywhere.CMemory

/-- The nearest integer, the even one of two. -/
def roundEven (value : ℚ) : ℤ :=
  let low := ⌊value⌋
  if value - low < 1 / 2 then low
  else if 1 / 2 < value - low then low + 1
  else low + low % 2

/-- The distance of the numbers of 24 digits around `value`. -/
def lastPlace (value : ℚ) : ℚ :=
  2 ^ (Int.log 2 |value| - 23)

def roundSingle (value : ℚ) : ℚ :=
  roundEven (value / lastPlace value) * lastPlace value

/-- `(int) value` drops the digits behind the point. -/
def toInt (value : ℚ) : CResult ℤ :=
  let whole := if value < 0 then ⌈value⌉ else ⌊value⌋
  if -2 ^ 31 ≤ whole ∧ whole < 2 ^ 31 then .ok whole else .undefined

@[simp]
theorem roundEven_intCast (value : ℤ) : roundEven value = value := by
  simp [roundEven]

theorem floor_le_roundEven (value : ℚ) : ⌊value⌋ ≤ roundEven value := by
  have hparity := Int.emod_nonneg ⌊value⌋ (show (2 : ℤ) ≠ 0 by decide)
  rw [roundEven]
  by_cases hlow : value - ⌊value⌋ < 1 / 2
  · exact (if_pos hlow).ge
  · simp only [if_neg hlow]
    by_cases hhigh : 1 / 2 < value - ⌊value⌋
    · rw [if_pos hhigh]
      exact (Int.lt_succ _).le
    · rw [if_neg hhigh]
      exact le_add_of_nonneg_right hparity

theorem lastPlace_pos (value : ℚ) : 0 < lastPlace value := by
  rw [lastPlace]
  positivity

theorem roundSingle_pos {value : ℚ} (hvalue : 0 < value) :
    0 < roundSingle value := by
  have hpower : (2 : ℚ) ^ Int.log 2 value ≤ value := by
    exact_mod_cast Int.zpow_log_le_self (by decide) hvalue
  have hplace : lastPlace value ≤ value := by
    rw [lastPlace, abs_of_pos hvalue]
    refine le_trans (zpow_le_zpow_right₀ (by norm_num) ?_) hpower
    omega
  have hfloor : 1 ≤ ⌊value / lastPlace value⌋ := by
    rw [Int.le_floor, Int.cast_one]
    exact (one_le_div (lastPlace_pos value)).mpr hplace
  have hround := hfloor.trans (floor_le_roundEven _)
  rw [roundSingle]
  exact mul_pos (by exact_mod_cast hround) (lastPlace_pos value)

/-- An integer of at most 24 digits is not rounded. -/
theorem roundSingle_natCast {value : ℕ} (hvalue : value < 2 ^ 24) :
    roundSingle value = value := by
  have hlog : Nat.log 2 value ≤ 23 := by
    by_cases hzero : value = 0
    · rw [hzero, Nat.log_zero_right]
      decide
    · exact Nat.le_of_lt_succ (Nat.log_lt_of_lt_pow hzero hvalue)
  obtain ⟨digits, hdigits⟩ := Nat.exists_eq_add_of_le hlog
  have hplace : lastPlace value = (2 ^ digits : ℚ)⁻¹ := by
    rw [lastPlace, Nat.abs_cast, Int.log_natCast, ← zpow_natCast,
      ← zpow_neg]
    congr 1
    omega
  have hscaled : (value : ℚ) / lastPlace value =
      ((value * 2 ^ digits : ℤ) : ℚ) := by
    rw [hplace]
    push_cast
    rw [div_inv_eq_mul]
  rw [roundSingle, hscaled, roundEven_intCast, hplace]
  push_cast
  exact mul_inv_cancel_right₀ (pow_ne_zero _ two_ne_zero) _

@[simp]
theorem toInt_natCast {value : ℕ} (hvalue : value < 2 ^ 31) :
    toInt value = .ok value := by
  have hwhole : ¬ (value : ℚ) < 0 := not_lt.mpr (Nat.cast_nonneg value)
  simp only [toInt, if_neg hwhole, Int.floor_natCast]
  rw [if_pos (by omega)]

theorem toInt_cases (value : ℚ) :
    (∃ whole, toInt value = .ok whole) ∨ toInt value = .undefined := by
  by_cases hfits : -2 ^ 31 ≤ (if value < 0 then ⌈value⌉ else ⌊value⌋) ∧
      (if value < 0 then ⌈value⌉ else ⌊value⌋) < 2 ^ 31
  · exact Or.inl ⟨_, if_pos hfits⟩
  · exact Or.inr (if_neg hfits)

theorem toInt_eq_ok_iff {value : ℚ} {whole : ℤ} :
    toInt value = .ok whole ↔
      (if value < 0 then ⌈value⌉ else ⌊value⌋) = whole ∧
        -2 ^ 31 ≤ whole ∧ whole < 2 ^ 31 := by
  rw [toInt]
  constructor
  · intro hwhole
    by_cases hfits : -2 ^ 31 ≤ (if value < 0 then ⌈value⌉ else ⌊value⌋) ∧
        (if value < 0 then ⌈value⌉ else ⌊value⌋) < 2 ^ 31
    · obtain rfl := CResult.ok.inj ((if_pos hfits).symm.trans hwhole)
      exact ⟨rfl, hfits⟩
    · have hundefined := (if_neg hfits).symm.trans hwhole
      contradiction
  · rintro ⟨rfl, hfits⟩
    exact if_pos hfits

/-- A value is cut to a number between zero and `high` exactly when it lies less
than one outside of that range. -/
theorem toInt_between_iff {value : ℚ} {high : ℤ} (hhigh : 0 ≤ high)
    (hsmall : high < 2 ^ 31) :
    (∃ whole, toInt value = .ok whole ∧ 0 ≤ whole ∧ whole ≤ high) ↔
      -1 < value ∧ value < high + 1 := by
  simp only [toInt_eq_ok_iff]
  by_cases hnegative : value < 0
  · have hceil : ⌈value⌉ ≤ 0 := Int.ceil_le.mpr (by exact_mod_cast hnegative.le)
    have hhigh' : (0 : ℚ) ≤ high := by exact_mod_cast hhigh
    have hlow : 0 ≤ ⌈value⌉ ↔ -1 < value := by
      rw [← Int.sub_one_lt_iff, Int.lt_ceil]
      norm_num
    simp only [if_pos hnegative]
    constructor
    · rintro ⟨whole, ⟨rfl, -⟩, hwhole, -⟩
      exact ⟨hlow.mp hwhole, by linarith⟩
    · rintro ⟨hvalue, -⟩
      have hwhole := hlow.mpr hvalue
      exact ⟨_, ⟨rfl, by omega⟩, hwhole, by omega⟩
  · have hfloor : 0 ≤ ⌊value⌋ := Int.floor_nonneg.mpr (not_lt.mp hnegative)
    have hup : ⌊value⌋ ≤ high ↔ value < high + 1 := by
      rw [← Int.lt_add_one_iff, Int.floor_lt]
      norm_num
    simp only [if_neg hnegative]
    constructor
    · rintro ⟨whole, ⟨rfl, -⟩, -, hwhole⟩
      exact ⟨by linarith, hup.mp hwhole⟩
    · rintro ⟨-, hvalue⟩
      have hwhole := hup.mpr hvalue
      exact ⟨_, ⟨rfl, by omega⟩, hfloor, hwhole⟩

end SyncAnywhere.SingleFloat
