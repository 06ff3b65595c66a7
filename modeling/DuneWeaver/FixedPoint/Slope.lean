import Mathlib.Algebra.Order.Floor.Semiring
import Mathlib.Algebra.Order.Field.Basic
import Mathlib.Data.Nat.Cast.Order.Field
import Mathlib.Tactic.Linarith
import Mathlib.Tactic.Positivity
import Mathlib.Tactic.Ring

namespace FixedPoint

variable {K : Type*} [Field K] [LinearOrder K] [FloorSemiring K]

/-- A line in whole numbers: where it starts and its slope, in parts of `unit`, are
rounded down beforehand, and what comes of the slope is rounded down again. -/
def line (unit : ℕ) (start slope : K) (k : ℕ) : ℕ := ⌊start⌋₊ + k * ⌊slope * unit⌋₊ / unit

theorem floor_le_line (unit : ℕ) (start slope : K) (k : ℕ) : ⌊start⌋₊ ≤ line unit start slope k :=
  Nat.le_add_right _ _

theorem line_mono (unit : ℕ) (start slope : K) {k k' : ℕ} (h : k ≤ k') :
    line unit start slope k ≤ line unit start slope k' :=
  Nat.add_le_add_left (Nat.div_le_div_right (Nat.mul_le_mul_right _ h)) _

variable [IsStrictOrderedRing K] {unit : ℕ} {start slope finish : K} {k : ℕ}

/-- The roundings go down. -/
theorem line_le (hunit : 0 < unit) (hstart : 0 ≤ start) (hslope : 0 ≤ slope) :
    (line unit start slope k : K) ≤ start + k * slope := by
  have hpos : (0 : K) < unit := Nat.cast_pos.mpr hunit
  have hoffset : (⌊start⌋₊ : K) ≤ start := Nat.floor_le hstart
  have hscale : (⌊slope * unit⌋₊ : K) ≤ slope * unit := Nat.floor_le (by positivity)
  have hdiv : ((k * ⌊slope * unit⌋₊ / unit : ℕ) : K) ≤ ((k * ⌊slope * unit⌋₊ : ℕ) : K) / unit := Nat.cast_div_le
  have hproduct : ((k * ⌊slope * unit⌋₊ : ℕ) : K) / unit ≤ k * slope := by
    rw [div_le_iff₀ hpos, Nat.cast_mul, mul_assoc]
    exact mul_le_mul_of_nonneg_left hscale (Nat.cast_nonneg k)
  rw [line, Nat.cast_add]
  linarith

/-- Each of the three roundings loses less than one, the one of the slope because the
line is no longer than a unit. -/
theorem lt_line_add (start slope : K) (hunit : 0 < unit) (hk : k ≤ unit) :
    start + k * slope < line unit start slope k + 3 := by
  have hpos : (0 : K) < unit := Nat.cast_pos.mpr hunit
  have hoffset : start < ⌊start⌋₊ + 1 := Nat.lt_floor_add_one start
  have hscale : slope * unit < ⌊slope * unit⌋₊ + 1 := Nat.lt_floor_add_one _
  have hsmall : (k : K) ≤ unit := Nat.cast_le.mpr hk
  have hdiv : ((k * ⌊slope * unit⌋₊ : ℕ) : K) < ((k * ⌊slope * unit⌋₊ / unit : ℕ) + 1) * unit := by
    have hmod := Nat.lt_div_mul_add (a := k * ⌊slope * unit⌋₊) hunit
    have hlt : k * ⌊slope * unit⌋₊ < (k * ⌊slope * unit⌋₊ / unit + 1) * unit := by
      rw [Nat.add_mul, Nat.one_mul]
      exact hmod
    exact_mod_cast hlt
  have hproduct : (k : K) * slope ≤ ((k * ⌊slope * unit⌋₊ : ℕ) : K) / unit + 1 := by
    rw [← sub_le_iff_le_add, le_div_iff₀ hpos, Nat.cast_mul]
    have hmul : (k : K) * (slope * unit) ≤ k * (⌊slope * unit⌋₊ + 1) :=
      mul_le_mul_of_nonneg_left hscale.le (Nat.cast_nonneg k)
    linarith [mul_assoc (k : K) slope unit]
  have hquotient : ((k * ⌊slope * unit⌋₊ : ℕ) : K) / unit < (k * ⌊slope * unit⌋₊ / unit : ℕ) + 1 := by
    rwa [div_lt_iff₀ hpos]
  rw [line, Nat.cast_add]
  linarith

/-- A line does not get past what it leads to. -/
theorem line_le_floor (hunit : 0 < unit) (hstart : 0 ≤ start) (hslope : 0 ≤ slope) (h : start + k * slope ≤ finish) :
    line unit start slope k ≤ ⌊finish⌋₊ :=
  Nat.le_floor ((line_le hunit hstart hslope).trans h)

end FixedPoint
