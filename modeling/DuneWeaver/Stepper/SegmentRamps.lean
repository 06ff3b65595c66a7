import DuneWeaver.Stepper.Segment
import DuneWeaver.UniformMotion.Ramp

open DuneWeaver.UniformMotion

namespace DuneWeaver.Segments

variable {V : ℝ} {s : Loop}

theorem slowing_distance_eq (a u t : ℝ) : slowing_distance a u t = travelled u (-a) t := by
  unfold slowing_distance
  rw [travelled_eq]
  ring

theorem speeding_distance_eq (a u t : ℝ) : speeding_distance a u t = travelled u a t := by
  unfold speeding_distance
  rw [travelled_eq]
  ring

/-- Some number of whole `DT_SEGMENT`s takes an override ramp to a speed backwards that is no less than the nominal
speed, before the ramp notices that it has turned back. -/
def Overshoots (acceleration speed nominal_speed : ℝ) : Prop :=
  ∃ turns : ℕ, -(0.5 * (acceleration * DT_SEGMENT)) < speed - turns * (acceleration * DT_SEGMENT) ∧
    speed - turns * (acceleration * DT_SEGMENT) ≤ -nominal_speed

section Profile

/-- An acceleration `mm` before the end of the block: the rest of the ramp takes it to its maximum speed at most, and
behind it the block is over or slows down. -/
structure Prep.Accelerates (V : ℝ) (p : Prep) (mm : ℝ) : Prop where
  speed_nonneg : 0 ≤ p.current_speed
  maximum_pos : 0 < p.maximum_speed
  maximum_le : p.maximum_speed ≤ V
  until_nonneg : 0 ≤ p.accelerate_until
  until_le : p.accelerate_until ≤ mm
  speed_sqr_le : p.current_speed * p.current_speed + 2 * p.acceleration * (mm - p.accelerate_until) ≤
    p.maximum_speed * p.maximum_speed
  after : p.accelerate_until = 0 ∨ (0 ≤ p.decelerate_after ∧ p.decelerate_after ≤ p.accelerate_until ∧
    2 * p.acceleration * p.decelerate_after ≤ p.maximum_speed * p.maximum_speed)

/-- An override `mm` before the end of the block: the rest of the ramp takes it to its maximum speed. -/
structure Prep.Overrides (V : ℝ) (p : Prep) (mm : ℝ) : Prop where
  maximum_pos : 0 < p.maximum_speed
  maximum_le : p.maximum_speed ≤ p.current_speed
  speed_le : p.current_speed ≤ V
  until_pos : 0 < p.accelerate_until
  until_le : p.accelerate_until ≤ mm
  speed_sqr : p.current_speed * p.current_speed =
    p.maximum_speed * p.maximum_speed + 2 * p.acceleration * (mm - p.accelerate_until)
  after_nonneg : 0 ≤ p.decelerate_after
  stops : 2 * p.acceleration * p.decelerate_after ≤ p.maximum_speed * p.maximum_speed
  forward : ¬Overshoots p.acceleration p.current_speed p.maximum_speed

/-- A cruise at the maximum speed. The deceleration behind it may be longer than what is left of the block. -/
structure Prep.Cruises (V : ℝ) (p : Prep) : Prop where
  speed_eq : p.current_speed = p.maximum_speed
  maximum_pos : 0 < p.maximum_speed
  maximum_le : p.maximum_speed ≤ V
  after_nonneg : 0 ≤ p.decelerate_after
  stops : 2 * p.acceleration * p.decelerate_after ≤ p.maximum_speed * p.maximum_speed

/-- A deceleration `mm` before the end of the block does not come to rest before it. -/
structure Prep.Decelerates (p : Prep) (mm : ℝ) : Prop where
  speed_nonneg : 0 ≤ p.current_speed
  stops : 2 * p.acceleration * mm ≤ p.current_speed * p.current_speed

/-- A velocity profile `mm` before the end of the block, at the beginning of a segment. -/
inductive Prep.Ramping (V : ℝ) (p : Prep) (mm : ℝ) : Prop where
  | accel (hramp : p.ramp_type = .ACCEL) (h : p.Accelerates V mm)
  | override (hramp : p.ramp_type = .DECEL_OVERRIDE) (h : p.Overrides V mm)
  | cruise (hramp : p.ramp_type = .CRUISE) (h : p.Cruises V)
  | decel (hramp : p.ramp_type = .DECEL) (h : p.Decelerates mm) (hspeed : p.current_speed ≤ V)

/-- With `time` left, a motion at `speed` keeps the segment within its bound. Only a segment that has not covered
its minimum distance is given less than no time. -/
def Prep.Reaches (V : ℝ) (p : Prep) (mm time speed : ℝ) : Prop :=
  (p.millimeters - mm < p.req_mm_increment ∧ time ≤ DT_SEGMENT) ∨
    (0 ≤ time ∧ p.millimeters - mm + speed * time ≤ V * DT_SEGMENT + p.req_mm_increment)

/-- A velocity profile in the middle of a segment, with `time` left for the segment. A deceleration that has been
given less than no time is faster than `w`, by no more than it loses on the distance `e`. -/
inductive Prep.OnTime (V : ℝ) (p : Prep) (mm time : ℝ) : Prop where
  | accel (hramp : p.ramp_type = .ACCEL) (h : p.Accelerates V mm) (hleft : mm ≤ p.millimeters)
      (hshort : p.millimeters - mm < p.req_mm_increment) (htime : time = DT_SEGMENT)
  | override (hramp : p.ramp_type = .DECEL_OVERRIDE) (h : p.Overrides V mm) (hleft : mm ≤ p.millimeters)
      (hshort : p.millimeters - mm < p.req_mm_increment) (htime : time = DT_SEGMENT)
  | cruise (hramp : p.ramp_type = .CRUISE) (h : p.Cruises V) (hreach : p.Reaches V mm time p.maximum_speed)
  | decel (hramp : p.ramp_type = .DECEL) (h : p.Decelerates mm) (w e : ℝ) (hnonneg : 0 ≤ w) (hle : w ≤ V)
      (he : 0 ≤ e) (hexcess : p.current_speed * p.current_speed ≤ w * w + 2 * p.acceleration * e)
      (hreach : (p.millimeters - mm + e < p.req_mm_increment ∧ time ≤ DT_SEGMENT) ∨
        (p.current_speed ≤ w ∧ 0 ≤ time ∧ p.millimeters - mm + w * time ≤ V * DT_SEGMENT + p.req_mm_increment))

end Profile

section Turn

/-- What a ramp leaves for the rest of its segment, or for the next one. -/
structure Follows (V : ℝ) (s r : Loop) : Prop where
  nonneg : 0 ≤ r.mm_remaining
  distance : s.prep.millimeters - r.mm_remaining ≤ V * DT_SEGMENT + s.prep.req_mm_increment
  junction : 0 < r.mm_remaining → r.time_var < s.time_var →
    r.prep.OnTime V r.mm_remaining (s.time_var - r.time_var)
  longer : 0 < r.mm_remaining → s.time_var ≤ r.time_var →
    s.prep.millimeters - r.mm_remaining < s.prep.req_mm_increment →
    r.prep.OnTime V r.mm_remaining (s.time_var + DT_SEGMENT - r.time_var)
  complete : 0 < r.mm_remaining → s.prep.req_mm_increment ≤ s.prep.millimeters - r.mm_remaining →
    r.prep.Ramping V r.mm_remaining

/-- A ramp that takes all of its time has no junction. -/
theorem follows_along {mm speed : ℝ} (hnonneg : 0 ≤ mm)
    (hdistance : s.prep.millimeters - mm ≤ V * DT_SEGMENT + s.prep.req_mm_increment)
    (hlonger : 0 < mm → s.prep.millimeters - mm < s.prep.req_mm_increment →
      ({ s.prep with current_speed := speed } : Prep).OnTime V mm DT_SEGMENT)
    (hcomplete : 0 < mm → s.prep.req_mm_increment ≤ s.prep.millimeters - mm →
      ({ s.prep with current_speed := speed } : Prep).Ramping V mm) : Follows V s (s.along mm speed) where
  nonneg := hnonneg
  distance := hdistance
  junction := fun _ hless => absurd hless (lt_irrefl _)
  longer := by
    intro hpos _ hshort
    change ({ s.prep with current_speed := speed } : Prep).OnTime V mm (s.time_var + DT_SEGMENT - s.time_var)
    rw [add_sub_cancel_left]
    exact hlonger hpos hshort
  complete := hcomplete

/-- The end of an acceleration or of an override, with the cruise or the deceleration behind it. -/
theorem follows_junction {mm speed maximum : ℝ} {ramp : Ramp} (hreq : 0 ≤ s.prep.req_mm_increment)
    (htime : s.time_var = DT_SEGMENT) (hnonneg : 0 ≤ mm) (hleft : mm ≤ s.prep.millimeters) (hspeed : 0 ≤ speed)
    (hspeed_le : speed ≤ V) (hmaximum : 0 < maximum) (hmaximum_le : maximum ≤ V)
    (hdistance : s.prep.millimeters - mm ≤ V * DT_SEGMENT + s.prep.req_mm_increment)
    (hnext : 0 < mm →
      (ramp = .CRUISE ∧ ({ s.prep with ramp_type := ramp, current_speed := maximum } : Prep).Cruises V) ∨
      (ramp = .DECEL ∧ ({ s.prep with ramp_type := ramp, current_speed := maximum } : Prep).Decelerates mm)) :
    Follows V s (s.junction mm (2 * (s.prep.millimeters - mm) / (speed + maximum)) maximum ramp) := by
  have hontime : ∀ time, 0 < mm →
      ({ s.prep with ramp_type := ramp, current_speed := maximum } : Prep).Reaches V mm time maximum →
      ({ s.prep with ramp_type := ramp, current_speed := maximum } : Prep).OnTime V mm time := by
    intro time hpos hreach
    obtain ⟨hramp, h⟩ | ⟨hramp, h⟩ := hnext hpos
    · refine .cruise hramp h ?_
      rw [← h.speed_eq]
      exact hreach
    · refine .decel hramp h maximum 0 hmaximum.le hmaximum_le le_rfl (by rw [mul_zero, add_zero]) ?_
      rw [add_zero]
      exact hreach.imp_right fun hreach => ⟨le_rfl, hreach⟩
  refine ⟨hnonneg, hdistance, fun hpos hless => ?_, fun hpos hlong hshort => ?_, fun hpos _ => ?_⟩
  · rw [htime] at hless ⊢
    refine hontime _ hpos (.inr ⟨sub_nonneg.mpr hless.le, ?_⟩)
    exact (junction_le hspeed hmaximum hspeed_le hmaximum_le (sub_nonneg.mpr hleft) hless).trans
      (le_add_of_nonneg_right hreq)
  · rw [htime] at hlong ⊢
    refine hontime _ hpos (.inl ⟨hshort, ?_⟩)
    linarith
  · obtain ⟨hramp, h⟩ | ⟨hramp, h⟩ := hnext hpos
    · exact .cruise hramp h
    · exact .decel hramp h hmaximum_le

theorem Prep.Accelerates.speed_le {p : Prep} {mm : ℝ} (h : p.Accelerates V mm) (hacceleration : 0 < p.acceleration) :
    p.current_speed ≤ p.maximum_speed := by
  refine (mul_self_le_mul_self_iff h.speed_nonneg h.maximum_pos.le).mpr ?_
  have hrest : 0 ≤ 2 * p.acceleration * (mm - p.accelerate_until) :=
    mul_nonneg (by linarith) (sub_nonneg.mpr h.until_le)
  linarith [h.speed_sqr_le]

theorem accel_follows (hacceleration : 0 < s.prep.acceleration) (hreq : 0 ≤ s.prep.req_mm_increment)
    (hramp : s.prep.ramp_type = .ACCEL) (h : s.prep.Accelerates V s.mm_remaining)
    (hleft : s.mm_remaining ≤ s.prep.millimeters)
    (hshort : s.prep.millimeters - s.mm_remaining < s.prep.req_mm_increment) (htime : s.time_var = DT_SEGMENT) :
    Follows V s s.ramp := by
  have hspeed_le := h.speed_le hacceleration
  obtain ⟨hnonneg, hmaximum, hbound, huntil, hmm, hspeed, hafter⟩ := h
  have hsegment := DT_SEGMENT_pos
  obtain ⟨hfar, heq⟩ | ⟨hend, heq⟩ := ramp_accel hramp
  · rw [heq]
    rw [speeding_distance_eq, htime] at hfar ⊢
    have hsquares := speed_sqr s.prep.current_speed s.prep.acceleration DT_SEGMENT
    have haccelerates : ({ s.prep with
        current_speed := s.prep.current_speed + s.prep.acceleration * DT_SEGMENT } : Prep).Accelerates V
        (s.mm_remaining - travelled s.prep.current_speed s.prep.acceleration DT_SEGMENT) := by
      refine ⟨by positivity, hmaximum, hbound, huntil, hfar, ?_, hafter⟩
      dsimp only
      rw [hsquares]
      linarith [mul_sub (2 * s.prep.acceleration) s.mm_remaining
        (travelled s.prep.current_speed s.prep.acceleration DT_SEGMENT)]
    have hmoved : travelled s.prep.current_speed s.prep.acceleration DT_SEGMENT ≤ V * DT_SEGMENT :=
      travelled_le hsegment.le (hspeed_le.trans hbound) ((haccelerates.speed_le hacceleration).trans hbound)
    have hforward : 0 ≤ travelled s.prep.current_speed s.prep.acceleration DT_SEGMENT := by
      rw [travelled_eq]
      positivity
    refine follows_along (huntil.trans hfar) (by linarith) (fun _ hshort => ?_) fun _ _ => ?_
    · refine .accel hramp haccelerates ?_ hshort rfl
      dsimp only
      linarith
    · exact .accel hramp haccelerates
  · rw [heq]
    rw [speeding_distance_eq, htime] at hend
    have hmoved : s.mm_remaining - s.prep.accelerate_until ≤ s.prep.maximum_speed * DT_SEGMENT :=
      accelerated_le hacceleration hnonneg hmaximum.le hsegment.le hspeed (by linarith)
    have hwhole : s.prep.maximum_speed * DT_SEGMENT ≤ V * DT_SEGMENT :=
      mul_le_mul_of_nonneg_right hbound hsegment.le
    refine follows_junction hreq htime huntil (hmm.trans hleft) hnonneg (hspeed_le.trans hbound) hmaximum hbound
      (by linarith) fun hpos => ?_
    obtain hzero | ⟨hafter, hle, hstops⟩ := hafter
    · exact absurd hzero hpos.ne'
    · split
      case isTrue hsame => exact .inr ⟨rfl, hmaximum.le, hsame ▸ hstops⟩
      case isFalse => exact .inl ⟨rfl, rfl, hmaximum, hbound, hafter, hstops⟩

/-- An override that goes on for a `DT_SEGMENT` is still faster than its maximum speed, unless it overshoots. -/
theorem Prep.Overrides.slower {p : Prep} {mm : ℝ} (h : p.Overrides V mm) (hacceleration : 0 < p.acceleration)
    (hfar : p.accelerate_until ≤ mm - travelled p.current_speed (-p.acceleration) DT_SEGMENT)
    (hforward : 0 < travelled p.current_speed (-p.acceleration) DT_SEGMENT) :
    ({ p with current_speed := p.current_speed - p.acceleration * DT_SEGMENT } : Prep).Overrides V
      (mm - travelled p.current_speed (-p.acceleration) DT_SEGMENT) := by
  obtain ⟨hmaximum, hmaximum_le, hbound, huntil, hmm, hspeed, hafter, hstops, hovershoots⟩ := h
  have hpart : 0 < p.acceleration * DT_SEGMENT := mul_pos hacceleration DT_SEGMENT_pos
  have hsquares : (p.current_speed - p.acceleration * DT_SEGMENT) * (p.current_speed - p.acceleration * DT_SEGMENT) =
      p.maximum_speed * p.maximum_speed + 2 * p.acceleration *
        (mm - travelled p.current_speed (-p.acceleration) DT_SEGMENT - p.accelerate_until) := by
    have hsquares := UniformMotion.speed_sqr p.current_speed (-p.acceleration) DT_SEGMENT
    rw [neg_mul, ← sub_eq_add_neg] at hsquares
    rw [hsquares, hspeed]
    ring
  refine ⟨hmaximum, ?_, ?_, huntil, hfar, hsquares, hafter, hstops, ?_⟩
  · by_contra hslow
    rw [not_le] at hslow
    refine hovershoots ⟨1, ?_, ?_⟩
    · have hmean := (mul_pos_iff_of_pos_left DT_SEGMENT_pos).mp hforward
      rw [Nat.cast_one, one_mul]
      linarith
    · -- Both speeds belong to distances behind the end of the ramp, so the one below the maximum is negative.
      rw [Nat.cast_one, one_mul]
      by_contra hback
      rw [not_le] at hback
      have hinside := mul_pos (sub_pos.mpr hslow) (neg_lt_iff_pos_add.mp hback)
      have houtside : 0 ≤ 2 * p.acceleration *
          (mm - travelled p.current_speed (-p.acceleration) DT_SEGMENT - p.accelerate_until) :=
        mul_nonneg (by linarith) (sub_nonneg.mpr hfar)
      dsimp only at hinside
      linarith [mul_add (p.maximum_speed - (p.current_speed - p.acceleration * DT_SEGMENT))
          (p.current_speed - p.acceleration * DT_SEGMENT) p.maximum_speed,
        sub_mul p.maximum_speed (p.current_speed - p.acceleration * DT_SEGMENT)
          (p.current_speed - p.acceleration * DT_SEGMENT),
        sub_mul p.maximum_speed (p.current_speed - p.acceleration * DT_SEGMENT) p.maximum_speed,
        mul_comm p.maximum_speed (p.current_speed - p.acceleration * DT_SEGMENT)]
  · dsimp only
    linarith
  · rintro ⟨turns, hless, hback⟩
    refine hovershoots ⟨turns + 1, ?_⟩
    rw [Nat.cast_succ, add_mul, one_mul]
    constructor
    · linarith
    · linarith

theorem override_follows (hacceleration : 0 < s.prep.acceleration) (hreq : 0 ≤ s.prep.req_mm_increment)
    (hramp : s.prep.ramp_type = .DECEL_OVERRIDE) (h : s.prep.Overrides V s.mm_remaining)
    (hleft : s.mm_remaining ≤ s.prep.millimeters)
    (hshort : s.prep.millimeters - s.mm_remaining < s.prep.req_mm_increment) (htime : s.time_var = DT_SEGMENT) :
    Follows V s s.ramp := by
  obtain ⟨hmaximum, hmaximum_le, hbound, huntil, hmm, hspeed, hafter, hstops, hovershoots⟩ := h
  have hsegment := DT_SEGMENT_pos
  have hnonneg : 0 ≤ s.prep.current_speed := hmaximum.le.trans hmaximum_le
  obtain ⟨hfar, hforward, heq⟩ | ⟨hend, heq⟩ := ramp_override hramp
  · rw [heq]
    rw [slowing_distance_eq, htime] at hfar hforward ⊢
    have hoverrides := Prep.Overrides.slower ⟨hmaximum, hmaximum_le, hbound, huntil, hmm, hspeed, hafter, hstops,
      hovershoots⟩ hacceleration hfar hforward
    have hmoved : travelled s.prep.current_speed (-s.prep.acceleration) DT_SEGMENT ≤ V * DT_SEGMENT := by
      refine travelled_le hsegment.le hbound ?_
      linarith [mul_pos hacceleration hsegment]
    refine follows_along (huntil.le.trans hfar) (by linarith) (fun _ hshort => ?_) fun _ _ => ?_
    · refine .override hramp hoverrides ?_ hshort rfl
      dsimp only
      linarith
    · exact .override hramp hoverrides
  · rw [heq]
    rw [slowing_distance_eq, htime] at hend
    have hmoved : s.mm_remaining - s.prep.accelerate_until ≤ s.prep.current_speed * DT_SEGMENT := by
      refine slowed_le hacceleration hnonneg hsegment ?_ (hend.imp_left fun h => by linarith)
      linarith [mul_self_nonneg s.prep.maximum_speed]
    have hwhole : s.prep.current_speed * DT_SEGMENT ≤ V * DT_SEGMENT := mul_le_mul_of_nonneg_right hbound hsegment.le
    refine follows_junction hreq htime huntil.le (hmm.trans hleft) hnonneg hbound hmaximum (hmaximum_le.trans hbound)
      (by linarith) fun _ => .inl ⟨rfl, rfl, hmaximum, hmaximum_le.trans hbound, hafter, hstops⟩

theorem cruise_follows (hramp : s.prep.ramp_type = .CRUISE) (h : s.prep.Cruises V)
    (hreach : s.prep.Reaches V s.mm_remaining s.time_var s.prep.maximum_speed) :
    Follows V s s.ramp := by
  obtain ⟨hspeed, hmaximum, hbound, hafter, hstops⟩ := h
  have hsegment := DT_SEGMENT_pos
  have hmoved : s.prep.millimeters - s.mm_remaining + s.prep.maximum_speed * s.time_var ≤
      V * DT_SEGMENT + s.prep.req_mm_increment := by
    obtain ⟨hshort, htime⟩ | ⟨-, hmoved⟩ := hreach
    · have hpart : s.prep.maximum_speed * s.time_var ≤ s.prep.maximum_speed * DT_SEGMENT :=
        mul_le_mul_of_nonneg_left htime hmaximum.le
      have hwhole : s.prep.maximum_speed * DT_SEGMENT ≤ V * DT_SEGMENT :=
        mul_le_mul_of_nonneg_right hbound hsegment.le
      linarith
    · exact hmoved
  obtain ⟨hfar, heq⟩ | ⟨hend, heq⟩ := ramp_cruise hramp
  · rw [heq]
    refine follows_along (hafter.trans hfar) (by linarith) (fun _ hshort => ?_) fun _ _ => ?_
    · exact .cruise hramp ⟨hspeed, hmaximum, hbound, hafter, hstops⟩ (.inl ⟨hshort, le_rfl⟩)
    · exact .cruise hramp ⟨hspeed, hmaximum, hbound, hafter, hstops⟩
  · rw [heq]
    have htime : (s.mm_remaining - s.prep.decelerate_after) / s.prep.maximum_speed < s.time_var := by
      rw [div_lt_iff₀ hmaximum, mul_comm]
      linarith
    have hdecelerates : ({ s.prep with ramp_type := .DECEL, current_speed := s.prep.current_speed } : Prep).Decelerates
        s.prep.decelerate_after := by
      refine ⟨?_, ?_⟩
      · dsimp only
        rw [hspeed]
        exact hmaximum.le
      · dsimp only
        rw [hspeed]
        exact hstops
    refine ⟨hafter, ?_, fun hpos _ => ?_, fun hpos hlong => absurd htime (not_lt.mpr hlong), fun hpos _ => ?_⟩
    · change s.prep.millimeters - s.prep.decelerate_after ≤ _
      linarith
    · refine .decel rfl hdecelerates s.prep.maximum_speed 0 hmaximum.le hbound le_rfl ?_
        (.inr ⟨hspeed.le, sub_nonneg.mpr htime.le, ?_⟩)
      · change s.prep.current_speed * s.prep.current_speed ≤ _
        rw [mul_zero, add_zero, hspeed]
      · change s.prep.millimeters - s.prep.decelerate_after + s.prep.maximum_speed * (s.time_var -
          (s.mm_remaining - s.prep.decelerate_after) / s.prep.maximum_speed) ≤ _
        rw [mul_sub, mul_div_cancel₀ _ hmaximum.ne']
        change _ ≤ V * DT_SEGMENT + s.prep.req_mm_increment
        linarith
    · exact .decel rfl hdecelerates (hspeed.le.trans hbound)

theorem decel_follows (hacceleration : 0 < s.prep.acceleration) (hcomplete : s.prep.mm_complete = 0)
    (hmm : 0 < s.mm_remaining) (hramp : s.prep.ramp_type = .DECEL) (h : s.prep.Decelerates s.mm_remaining)
    {w e : ℝ} (hnonneg : 0 ≤ w) (hle : w ≤ V) (he : 0 ≤ e)
    (hexcess : s.prep.current_speed * s.prep.current_speed ≤ w * w + 2 * s.prep.acceleration * e)
    (hreach : (s.prep.millimeters - s.mm_remaining + e < s.prep.req_mm_increment ∧ s.time_var ≤ DT_SEGMENT) ∨
      (s.prep.current_speed ≤ w ∧ 0 ≤ s.time_var ∧
        s.prep.millimeters - s.mm_remaining + w * s.time_var ≤ V * DT_SEGMENT + s.prep.req_mm_increment)) :
    Follows V s s.ramp := by
  obtain ⟨hspeed, hstops⟩ := h
  have hsegment := DT_SEGMENT_pos
  have hwhole : w * DT_SEGMENT ≤ V * DT_SEGMENT := mul_le_mul_of_nonneg_right hle hsegment.le
  obtain ⟨hfast, hfar, heq⟩ | ⟨hend, heq⟩ := ramp_decel hramp
  · rw [heq]
    rw [slowing_distance_eq, hcomplete] at hfar
    rw [slowing_distance_eq]
    have hslower : 0 ≤ s.prep.current_speed - s.prep.acceleration * s.time_var := sub_nonneg.mpr hfast.le
    have hsquares := slowing_excess (t := s.time_var) hexcess
    have hdecelerates : ({ s.prep with
        current_speed := s.prep.current_speed - s.prep.acceleration * s.time_var } : Prep).Decelerates
        (s.mm_remaining - travelled s.prep.current_speed (-s.prep.acceleration) s.time_var) := by
      refine ⟨hslower, ?_⟩
      have hsquares := speed_sqr s.prep.current_speed (-s.prep.acceleration) s.time_var
      rw [neg_mul, ← sub_eq_add_neg] at hsquares
      dsimp only
      rw [hsquares]
      linarith [mul_sub (2 * s.prep.acceleration) s.mm_remaining
        (travelled s.prep.current_speed (-s.prep.acceleration) s.time_var)]
    -- The motion is still faster than `w`, within the minimum distance, or it is not, and stays so.
    obtain ⟨hless, hrest⟩ | ⟨hslow, hmoved⟩ :
        (0 ≤ e - travelled s.prep.current_speed (-s.prep.acceleration) s.time_var ∧
          s.prep.millimeters - s.mm_remaining + e < s.prep.req_mm_increment) ∨
        (s.prep.current_speed - s.prep.acceleration * s.time_var ≤ w ∧
          s.prep.millimeters - s.mm_remaining + travelled s.prep.current_speed (-s.prep.acceleration) s.time_var ≤
            V * DT_SEGMENT + s.prep.req_mm_increment) := by
      obtain ⟨hshort, htime⟩ | ⟨hslow, htime, hmoved⟩ := hreach
      · obtain hfaster | hslow := le_total w (s.prep.current_speed - s.prep.acceleration * s.time_var)
        · exact .inl ⟨slowing_within hacceleration hnonneg hexcess hfaster, hshort⟩
        · refine .inr ⟨hslow, ?_⟩
          obtain hback | hon := le_total s.time_var 0
          · have hbound : 0 ≤ V * DT_SEGMENT := mul_nonneg (hnonneg.trans hle) hsegment.le
            linarith [travelled_back hacceleration hspeed hback]
          · have hbeyond := slowing_beyond hacceleration hnonneg he hon hexcess hslower hslow
            linarith [mul_le_mul_of_nonneg_left htime hnonneg]
      · have hpart := mul_nonneg hacceleration.le htime
        refine .inr ⟨by linarith, ?_⟩
        linarith [travelled_le (a := -s.prep.acceleration) htime hslow (by linarith)]
    · refine follows_along hfar.le ?_ (fun _ hshort => ?_) fun _ hcovered => ?_
      · have hbound : 0 ≤ V * DT_SEGMENT := mul_nonneg (hnonneg.trans hle) hsegment.le
        linarith
      · refine .decel hramp hdecelerates w _ hnonneg hle hless hsquares (.inl ⟨?_, le_rfl⟩)
        dsimp only
        linarith
      · linarith
    · refine follows_along hfar.le (by linarith) (fun _ hshort => ?_) fun _ _ => ?_
      · refine .decel hramp hdecelerates w 0 hnonneg hle le_rfl ?_ (.inl ⟨?_, le_rfl⟩)
        · rw [mul_zero, add_zero]
          exact mul_self_le_mul_self hslower hslow
        · rw [add_zero]
          exact hshort
      · exact .decel hramp hdecelerates (hslow.trans hle)
  · rw [heq]
    rw [slowing_distance_eq, hcomplete, sub_nonpos] at hend
    refine ⟨hcomplete.ge, ?_, fun hpos => absurd hpos ?_, fun hpos => absurd hpos ?_, fun hpos => absurd hpos ?_⟩
    · change s.prep.millimeters - s.prep.mm_complete ≤ _
      rw [hcomplete]
      obtain ⟨hshort, htime⟩ | ⟨hslow, -, hmoved⟩ := hreach
      · obtain ⟨-, hless⟩ := stopped_le hacceleration hspeed hnonneg he hexcess hmm hstops hend
        linarith [mul_le_mul_of_nonneg_left htime hnonneg]
      · have hsquares : s.prep.current_speed * s.prep.current_speed ≤ w * w + 2 * s.prep.acceleration * 0 := by
          rw [mul_zero, add_zero]
          exact mul_self_le_mul_self hspeed hslow
        obtain ⟨-, hless⟩ := stopped_le hacceleration hspeed hnonneg le_rfl hsquares hmm hstops hend
        linarith
    · exact not_lt.mpr hcomplete.le
    · exact not_lt.mpr hcomplete.le
    · exact not_lt.mpr hcomplete.le

end Turn

end DuneWeaver.Segments
