import Mathlib.Algebra.Order.Field.Basic
import Mathlib.Tactic.FieldSimp
import Mathlib.Tactic.Linarith
import Mathlib.Tactic.Positivity
import Mathlib.Tactic.Ring

namespace DuneWeaver.UniformMotion

variable {K : Type*} [Field K]

/-- The distance travelled in a time, from a speed on and with a constant acceleration. -/
def travelled (speed acceleration time : K) : K := time * (speed + acceleration * time / (1 + 1))

theorem travelled_eq (speed acceleration time : K) :
    travelled speed acceleration time = time * (speed + acceleration * time / 2) := by
  rw [travelled, one_add_one_eq_two]

variable [LinearOrder K] [IsStrictOrderedRing K] {a u v w d e t : K}

/-- The speed at the end depends on the distance alone. -/
theorem speed_sqr (u a t : K) : (u + a * t) * (u + a * t) = u * u + 2 * a * travelled u a t := by
  rw [travelled_eq]
  field_simp
  ring

/-- A motion goes no further than one at the greater of the speeds at its two ends. -/
theorem travelled_le (ht : 0 ≤ t) (hstart : u ≤ w) (hend : u + a * t ≤ w) : travelled u a t ≤ w * t := by
  rw [travelled_eq]
  have hmean : u + a * t / 2 ≤ w := by linarith
  calc
    t * (u + a * t / 2) ≤ t * w := mul_le_mul_of_nonneg_left hmean ht
    _ = w * t := mul_comm t w

/-- Going back in time, a motion that slows down goes back. -/
theorem travelled_back (ha : 0 < a) (hu : 0 ≤ u) (ht : t ≤ 0) : travelled u (-a) t ≤ 0 := by
  rw [travelled_eq]
  have hmean : 0 ≤ u + -a * t / 2 := by linarith [mul_nonpos_of_nonneg_of_nonpos ha.le ht]
  exact mul_nonpos_of_nonpos_of_nonneg ht hmean

section Accelerating

/-- A motion that comes to the end of its acceleration in a time gets no further than its greatest speed takes it. -/
theorem accelerated_le (ha : 0 < a) (hu : 0 ≤ u) (hv : 0 ≤ v) (ht : 0 ≤ t) (hspeed : u * u + 2 * a * d ≤ v * v)
    (hend : d < travelled u a t) : d ≤ v * t := by
  rw [travelled_eq] at hend
  by_contra hfar
  rw [not_le] at hfar
  have hpos : 0 < t := by
    refine lt_of_le_of_ne ht fun h => ?_
    subst h
    linarith
  have hmean : v < u + a * t / 2 := by
    refine lt_of_mul_lt_mul_left ?_ hpos.le
    linarith [mul_comm v t]
  have hless : u < v := by
    refine lt_of_mul_self_lt_mul_self₀ hv ?_
    have hd : 0 < d := lt_of_le_of_lt (mul_nonneg hv ht) hfar
    linarith [mul_pos ha hd]
  -- The acceleration in this time is more than twice what is missing to the greatest speed.
  have hmore : 2 * (v - u) < a * t := by linarith
  have hdistance : a * (v * t) < a * d := mul_lt_mul_of_pos_left hfar ha
  have hsquares : 4 * v * (v - u) ≤ 2 * (a * (v * t)) := by
    have := mul_le_mul_of_nonneg_left hmore.le hv
    linarith [mul_left_comm a v t]
  have hfactors : v * v - u * u = (v + u) * (v - u) := by ring
  have hlast : 0 < (4 * v - (v + u)) * (v - u) := mul_pos (by linarith) (by linarith)
  linarith [sub_mul (4 * v) (v + u) (v - u)]

end Accelerating

section Slowing

/-- A motion that comes to the end of its slowing down in a time, or would turn back, gets no further than its first
speed takes it. -/
theorem slowed_le (ha : 0 < a) (hu : 0 ≤ u) (ht : 0 < t) (hspeed : 2 * a * d ≤ u * u)
    (hend : d < travelled u (-a) t ∨ travelled u (-a) t ≤ 0) : d ≤ u * t := by
  obtain hend | hback := hend
  · refine hend.le.trans (travelled_le ht.le le_rfl ?_)
    linarith [mul_pos ha ht]
  · rw [travelled_eq] at hback
    have hslow : u + -a * t / 2 ≤ 0 := by
      by_contra h
      exact absurd (mul_pos ht (not_le.mp h)) (not_lt.mpr hback)
    have hsquare : u * u ≤ u * (a * t / 2) := mul_le_mul_of_nonneg_left (by linarith) hu
    have hscaled : 2 * a * d ≤ 2 * a * (u * t) := by
      have : 0 ≤ a * (u * t) := by positivity
      linarith [mul_left_comm u a t]
    exact le_of_mul_le_mul_left hscaled (by linarith)

/-- The distance in which a motion gets down to `w` shrinks by what it travels. -/
theorem slowing_excess (hexcess : u * u ≤ w * w + 2 * a * e) :
    (u - a * t) * (u - a * t) ≤ w * w + 2 * a * (e - travelled u (-a) t) := by
  have hspeed := speed_sqr u (-a) t
  have heq : u + -a * t = u - a * t := by ring
  rw [heq] at hspeed
  rw [hspeed]
  linarith [mul_sub (2 * a) e (travelled u (-a) t)]

/-- A motion that is still faster than `w` has not left that distance. -/
theorem slowing_within (ha : 0 < a) (hw : 0 ≤ w) (hexcess : u * u ≤ w * w + 2 * a * e) (hfast : w ≤ u - a * t) :
    0 ≤ e - travelled u (-a) t := by
  have hsquare : w * w ≤ (u - a * t) * (u - a * t) := mul_self_le_mul_self hw hfast
  have hless := slowing_excess (t := t) hexcess
  refine nonneg_of_mul_nonneg_right (a := 2 * a) ?_ (by linarith)
  linarith

/-- A motion that ends at `w` or below goes beyond that distance by no more than `w` takes it. -/
theorem slowing_beyond (ha : 0 < a) (hw : 0 ≤ w) (he : 0 ≤ e) (ht : 0 ≤ t)
    (hexcess : u * u ≤ w * w + 2 * a * e) (hend : 0 ≤ u - a * t) (hslow : u - a * t ≤ w) :
    travelled u (-a) t ≤ e + w * t := by
  obtain hless | hmore := le_total u w
  · have hle := travelled_le (a := -a) ht hless (by linarith)
    linarith
  · have hspeed := speed_sqr u (-a) t
    have heq : u + -a * t = u - a * t := by ring
    rw [heq] at hspeed
    have hfactors : w * w - (u - a * t) * (u - a * t) = (w - (u - a * t)) * (w + (u - a * t)) := by ring
    have hproduct : (w - (u - a * t)) * (w + (u - a * t)) ≤ a * t * (2 * w) :=
      mul_le_mul (by linarith) (by linarith) (by linarith) (mul_nonneg ha.le ht)
    refine le_of_mul_le_mul_left (a := 2 * a) ?_ (by linarith)
    calc
      2 * a * travelled u (-a) t = u * u - (u - a * t) * (u - a * t) := by linarith
      _ ≤ 2 * a * e + a * t * (2 * w) := by linarith
      _ = 2 * a * (e + w * t) := by ring

/-- A motion that comes to rest, or to the end of its distance, needs a time for it, and goes beyond the distance in
which it gets down to `w` by no more than `w` takes it. -/
theorem stopped_le (ha : 0 < a) (hu : 0 ≤ u) (hw : 0 ≤ w) (he : 0 ≤ e) (hexcess : u * u ≤ w * w + 2 * a * e)
    (hd : 0 < d) (hstops : 2 * a * d ≤ u * u) (hend : u ≤ a * t ∨ d ≤ travelled u (-a) t) : 0 ≤ t ∧ d ≤ e + w * t := by
  have htime : 0 ≤ t := by
    by_contra hback
    rw [not_le] at hback
    obtain hrest | hfar := hend
    · linarith [mul_neg_of_pos_of_neg ha hback]
    · rw [travelled_eq] at hfar
      have hmean : 0 ≤ u + -a * t / 2 := by linarith [mul_neg_of_pos_of_neg ha hback]
      linarith [mul_nonpos_of_nonpos_of_nonneg hback.le hmean]
  refine ⟨htime, ?_⟩
  obtain hrest | hmoving := le_total u (a * t)
  · -- the motion comes to rest
    obtain hless | hmore := le_total u w
    · refine le_of_mul_le_mul_left (a := 2 * a) ?_ (by linarith)
      have hsquare : u * u ≤ w * (a * t) := mul_le_mul hless hrest hu hw
      have hrest : 0 ≤ w * (a * t) + 2 * a * e := by positivity
      calc
        2 * a * d ≤ w * (a * t) := by linarith
        _ ≤ w * (a * t) + (w * (a * t) + 2 * a * e) := by linarith
        _ = 2 * a * (e + w * t) := by ring
    · refine le_of_mul_le_mul_left (a := 2 * a) ?_ (by linarith)
      have hsquare : w * w ≤ w * (a * t) := mul_le_mul_of_nonneg_left (hmore.trans hrest) hw
      have hrest : 0 ≤ w * (a * t) := by positivity
      calc
        2 * a * d ≤ w * (a * t) + 2 * a * e := by linarith
        _ ≤ w * (a * t) + (w * (a * t) + 2 * a * e) := by linarith
        _ = 2 * a * (e + w * t) := by ring
  · have hfar : d ≤ travelled u (-a) t := by
      obtain hrest | hfar := hend
      · have heq : u = a * t := le_antisymm hrest hmoving
        have hspeed := speed_sqr u (-a) t
        have hzero : u + -a * t = 0 := by linarith
        rw [hzero] at hspeed
        refine le_of_mul_le_mul_left (a := 2 * a) ?_ (by linarith)
        linarith
      · exact hfar
    obtain hfast | hslow := le_total w (u - a * t)
    · have hwithin := slowing_within ha (t := t) hw hexcess hfast
      linarith [mul_nonneg hw htime]
    · exact hfar.trans (slowing_beyond ha hw he htime hexcess (by linarith) hslow)

end Slowing

/-- The rest of a time, spent at one of the two speeds between which a distance has been travelled, goes no further
than the greater of the speeds takes the motion in all of the time. -/
theorem junction_le (hu : 0 ≤ u) (hv : 0 < v) (huw : u ≤ w) (hvw : v ≤ w) (hd : 0 ≤ d)
    (hless : 2 * d / (u + v) < t) : d + v * (t - 2 * d / (u + v)) ≤ w * t := by
  have hsum : 0 < u + v := by linarith
  have htime : 0 ≤ 2 * d / (u + v) := div_nonneg (by linarith) hsum.le
  have hdistance : 2 * d / (u + v) * (u + v) = 2 * d := div_mul_cancel₀ _ hsum.ne'
  generalize 2 * d / (u + v) = time at hless htime hdistance ⊢
  obtain hle | hle := le_total u v
  · have hrest : 0 ≤ time * (v - u) := mul_nonneg htime (by linarith)
    have hwhole : v * t ≤ w * t := mul_le_mul_of_nonneg_right hvw (by linarith)
    linarith [mul_sub v t time, mul_sub time v u, mul_add time u v, mul_comm time v]
  · have hrest : time * (u - v) ≤ t * (u - v) := mul_le_mul_of_nonneg_right hless.le (by linarith)
    have hwhole : (u + v) * t ≤ 2 * w * t := mul_le_mul_of_nonneg_right (by linarith) (by linarith)
    linarith [mul_sub v t time, mul_sub time u v, mul_sub t u v, mul_add time u v, mul_comm time v,
      add_mul u v t, mul_comm t u, mul_comm t v]

end DuneWeaver.UniformMotion
