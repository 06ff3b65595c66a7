import DuneWeaver.Stepper.SegmentRamps

namespace DuneWeaver.Segments

variable {V : ℝ} {s : Loop}

/-- The loop in the middle of a segment. -/
structure Loop.Sound (V : ℝ) (s : Loop) : Prop where
  acceleration_pos : 0 < s.prep.acceleration
  complete : s.prep.mm_complete = 0
  millimeters_pos : 0 < s.prep.millimeters
  req_pos : 0 < s.prep.req_mm_increment
  mm_pos : 0 < s.mm_remaining
  minimum : s.minimum_mm = max (s.prep.millimeters - s.prep.req_mm_increment) 0
  timed : s.Timed
  ontime : s.prep.OnTime V s.mm_remaining s.time_var

/-- A segment of the block of `p`: it ends where the block ends, or covers the minimum distance, and goes no further
than the greatest speed takes it in a `DT_SEGMENT` behind that. -/
structure Covers (V : ℝ) (p : Prep) (r : Loop) : Prop where
  nonneg : 0 ≤ r.mm_remaining
  less : r.mm_remaining < p.millimeters
  covered : r.mm_remaining = 0 ∨ p.req_mm_increment ≤ p.millimeters - r.mm_remaining
  distance : p.millimeters - r.mm_remaining ≤ V * DT_SEGMENT + p.req_mm_increment
  ramping : 0 < r.mm_remaining → r.prep.Ramping V r.mm_remaining
  block : r.prep = { p with ramp_type := r.prep.ramp_type, current_speed := r.prep.current_speed }

theorem Loop.Sound.follows (hs : s.Sound V) : Follows V s s.ramp := by
  cases hs.ontime with
  | accel hramp h hleft hshort htime =>
    exact accel_follows hs.acceleration_pos hs.req_pos.le hramp h hleft hshort htime
  | override hramp h hleft hshort htime =>
    exact override_follows hs.acceleration_pos hs.req_pos.le hramp h hleft hshort htime
  | cruise hramp h hreach => exact cruise_follows hramp h hreach
  | decel hramp h w e hnonneg hle he hexcess hreach =>
    exact decel_follows hs.acceleration_pos hs.complete hs.mm_pos hramp h hnonneg hle he hexcess hreach

section Turn

theorem Loop.Sound.next (hs : s.Sound V) {t : Loop} (hprep : t.prep = s.ramp.prep)
    (hmm : t.mm_remaining = s.ramp.mm_remaining) (hminimum : t.minimum_mm = s.minimum_mm) (htimed : t.Timed)
    (hmore : s.ramp.prep.mm_complete < s.ramp.mm_remaining)
    (hontime : 0 < s.ramp.mm_remaining → s.ramp.prep.OnTime V s.ramp.mm_remaining t.time_var) : t.Sound V := by
  obtain ⟨-, -, -, hblock⟩ := ramp_frame s
  have hpos : 0 < s.ramp.mm_remaining := by
    rw [hblock] at hmore
    exact lt_of_eq_of_lt hs.complete.symm hmore
  refine ⟨?_, ?_, ?_, ?_, ?_, ?_, htimed, ?_⟩
  · rw [hprep, hblock]
    exact hs.acceleration_pos
  · rw [hprep, hblock]
    exact hs.complete
  · rw [hprep, hblock]
    exact hs.millimeters_pos
  · rw [hprep, hblock]
    exact hs.req_pos
  · rw [hmm]
    exact hpos
  · rw [hprep, hblock, hminimum]
    exact hs.minimum
  · rw [hprep, hmm]
    exact hontime hpos

theorem turn_sound (hs : s.Sound V) (hmore : s.turn.1 = true) : s.turn.2.Sound V := by
  have hfollows := hs.follows
  have htimed := hs.timed
  have hcases := turn_cases s
  rw [hmore] at hcases
  unfold Loop.Timed at htimed
  generalize s.turn.2 = t at hcases ⊢
  cases hcases with
  | junction h hmore =>
    refine hs.next rfl rfl rfl rfl hmore fun hpos => ?_
    have hnext := hfollows.junction hpos (by linarith)
    rw [htimed, sub_sub] at hnext
    exact hnext
  | longer h hshort hmore =>
    refine hs.next rfl rfl rfl rfl hmore fun hpos => ?_
    rw [hs.minimum, max_lt_iff] at hshort
    have hnext := hfollows.longer hpos (by linarith) (by linarith)
    rw [htimed] at hnext
    have htime : s.dt_max - s.dt + DT_SEGMENT - s.ramp.time_var =
        s.dt_max + DT_SEGMENT - (s.dt + s.ramp.time_var) := by ring
    rw [htime] at hnext
    exact hnext

theorem turn_covers (hs : s.Sound V) (hend : s.turn.1 = false) : Covers V s.prep s.turn.2 := by
  have hfollows := hs.follows
  have hcases := turn_cases s
  obtain ⟨-, -, -, hblock⟩ := ramp_frame s
  rw [hend] at hcases
  generalize s.turn.2 = r at hcases ⊢
  cases hcases with
  | complete _ hr hend =>
    obtain ⟨hmm, hprep, -⟩ := hr
    have hcovered : s.ramp.mm_remaining = 0 ∨
        s.prep.req_mm_increment ≤ s.prep.millimeters - s.ramp.mm_remaining := by
      obtain hend | ⟨-, hend⟩ := hend
      · rw [hblock] at hend
        exact .inl (le_antisymm (hend.trans hs.complete.le) hfollows.nonneg)
      · rw [hs.minimum, le_max_iff] at hend
        obtain hend | hend := hend
        · exact .inr (by linarith)
        · exact .inl (le_antisymm hend hfollows.nonneg)
    rw [← hmm] at hcovered
    have hnonneg : 0 ≤ r.mm_remaining := hmm ▸ hfollows.nonneg
    refine ⟨hnonneg, ?_, hcovered, ?_, fun hpos => ?_, ?_⟩
    · obtain hzero | hcovered := hcovered
      · rw [hzero]
        exact hs.millimeters_pos
      · linarith [hs.req_pos]
    · rw [hmm]
      exact hfollows.distance
    · obtain hzero | hcovered := hcovered
      · exact absurd hzero hpos.ne'
      · rw [hprep, hmm] at *
        exact hfollows.complete hpos hcovered
    · rw [hprep, hblock]

end Turn

section Run

theorem Covers.of_block {p q : Prep} {r : Loop} (h : Covers V q r)
    (hblock : q = { p with ramp_type := q.ramp_type, current_speed := q.current_speed }) : Covers V p r := by
  obtain ⟨hnonneg, hless, hcovered, hdistance, hramping, hq⟩ := h
  refine ⟨hnonneg, ?_, ?_, ?_, hramping, ?_⟩
  · rw [hblock] at hless
    exact hless
  · rw [hblock] at hcovered
    exact hcovered
  · rw [hblock] at hdistance
    exact hdistance
  · rw [hq, hblock]

/-- The loop ends with a segment that covers its distance. -/
theorem run_covers {turns : ℕ} {r : Loop} (hs : s.Sound V) (hrun : s.run turns = some r) : Covers V s.prep r := by
  induction turns generalizing s with
  | zero => cases hrun
  | succ turns ih =>
    rw [Loop.run] at hrun
    by_cases hmore : s.turn.1 = true
    · rw [if_pos hmore] at hrun
      refine (ih (turn_sound hs hmore) hrun).of_block ?_
      rw [turn_prep]
      exact (ramp_frame s).2.2.2
    · rw [if_neg hmore] at hrun
      cases hrun
      exact turn_covers hs (Bool.eq_false_iff.mpr hmore)

end Run

section Start

/-- What `prep` keeps for the block at the beginning of a segment. -/
structure Prep.Sound (V : ℝ) (p : Prep) : Prop where
  acceleration_pos : 0 < p.acceleration
  complete : p.mm_complete = 0
  step_per_mm_pos : 0 < p.step_per_mm
  req_eq : p.req_mm_increment = REQ_MM_INCREMENT_SCALAR / p.step_per_mm
  millimeters_nonneg : 0 ≤ p.millimeters
  ramping : 0 < p.millimeters → p.Ramping V p.millimeters

variable {p : Prep}

theorem Prep.Sound.req_pos (h : p.Sound V) : 0 < p.req_mm_increment := by
  rw [h.req_eq, REQ_MM_INCREMENT_SCALAR]
  exact div_pos (by norm_num) h.step_per_mm_pos

theorem start_sound (h : p.Sound V) (hmm : 0 < p.millimeters) : (Loop.start p).Sound V := by
  have hreq := h.req_pos
  have hleft : p.millimeters - p.millimeters = 0 := sub_self _
  refine ⟨h.acceleration_pos, h.complete, hmm, hreq, hmm, ?_, (sub_zero _).symm, ?_⟩
  · change (if p.millimeters - p.req_mm_increment < 0 then (0 : ℝ) else p.millimeters - p.req_mm_increment) =
      max (p.millimeters - p.req_mm_increment) 0
    split
    case isTrue hneg => rw [max_eq_right hneg.le]
    case isFalse hnonneg => rw [max_eq_left (not_lt.mp hnonneg)]
  · change p.OnTime V p.millimeters DT_SEGMENT
    cases h.ramping hmm with
    | accel hramp hprofile => exact .accel hramp hprofile le_rfl (hleft.trans_lt hreq) rfl
    | override hramp hprofile => exact .override hramp hprofile le_rfl (hleft.trans_lt hreq) rfl
    | cruise hramp hprofile => exact .cruise hramp hprofile (.inl ⟨hleft.trans_lt hreq, le_rfl⟩)
    | decel hramp hprofile hspeed =>
      refine .decel hramp hprofile p.current_speed 0 hprofile.speed_nonneg hspeed le_rfl ?_ (.inl ⟨?_, le_rfl⟩)
      · rw [mul_zero, add_zero]
      · rw [hleft, add_zero]
        exact hreq

/-- `prep_buffer`'s loop comes to an end. -/
theorem start_ends (h : p.Sound V) (hmm : 0 < p.millimeters) : (Loop.start p).Ends := by
  have htimed : (Loop.start p).Timed := (sub_zero _).symm
  cases h.ramping hmm with
  | accel hramp hprofile =>
    exact ends_of_accel ⟨htimed, hramp, h.acceleration_pos⟩ hprofile.maximum_pos hprofile.speed_nonneg rfl
  | override hramp hprofile =>
    exact ends_of_override ⟨htimed, hramp, h.acceleration_pos⟩ hprofile.maximum_pos rfl
  | cruise hramp hprofile => exact ends_of_cruise ⟨htimed, hramp, h.acceleration_pos⟩ hprofile.maximum_pos
  | decel hramp hprofile => exact ends_of_decel ⟨htimed, hramp, h.acceleration_pos⟩

end Start

section Profile

theorem profile_frame (p : Prep) (entry_speed_sqr : ℝ) (t : Target) :
    (p.profile entry_speed_sqr t).mm_complete = 0 ∧
    (p.profile entry_speed_sqr t).millimeters = p.millimeters ∧
    (p.profile entry_speed_sqr t).acceleration = p.acceleration ∧
    (p.profile entry_speed_sqr t).steps_remaining = p.steps_remaining ∧
    (p.profile entry_speed_sqr t).step_per_mm = p.step_per_mm ∧
    (p.profile entry_speed_sqr t).req_mm_increment = p.req_mm_increment ∧
    (p.profile entry_speed_sqr t).current_speed = p.current_speed := by
  unfold Prep.profile
  dsimp only
  split_ifs
  all_goals exact ⟨rfl, rfl, rfl, rfl, rfl, rfl, rfl⟩

/-- The velocity profile of a block keeps to the greatest speed. -/
theorem profile_ramping {p : Prep} {t : Target} {entry_speed_sqr : ℝ} (hacceleration : 0 < p.acceleration)
    (hmm : 0 < p.millimeters) (hspeed : 0 ≤ p.current_speed)
    (hentry : p.current_speed * p.current_speed = entry_speed_sqr) (hspeed_le : p.current_speed ≤ V)
    (hnominal : t.nominal_speed ≤ V) (hforward : ¬Overshoots p.acceleration p.current_speed t.nominal_speed) :
    (p.profile entry_speed_sqr t).Ramping V p.millimeters := by
  obtain ⟨exit_sqr, nominal, hexit, hexit_le, hminimum⟩ := t
  dsimp only at hnominal hforward
  have hpos : 0 < nominal := by linarith
  have hinv : ∀ y : ℝ, 2 * p.acceleration * (0.5 / p.acceleration * y) = y := by
    intro y
    field_simp
    norm_num
  have hinv_pos : 0 < 0.5 / p.acceleration := div_pos (by norm_num) hacceleration
  have hafter : 0 ≤ 0.5 / p.acceleration * (nominal * nominal - exit_sqr) :=
    mul_nonneg hinv_pos.le (sub_nonneg.mpr hexit_le)
  have hscale : ∀ {d y : ℝ}, d ≤ 0.5 / p.acceleration * y → 2 * p.acceleration * d ≤ y := by
    intro d y hle
    rw [← hinv y]
    exact mul_le_mul_of_nonneg_left hle (by linarith)
  have hstops := hinv (nominal * nominal - exit_sqr)
  have hleft := hinv (entry_speed_sqr - exit_sqr)
  unfold Prep.profile
  dsimp only
  generalize 0.5 / p.acceleration = inv_2_accel at hinv hinv_pos hafter hscale hstops hleft ⊢
  generalize hintersect :
    (0.5 : ℝ) * (p.millimeters + inv_2_accel * (entry_speed_sqr - exit_sqr)) = intersect
  have htwice : 2 * intersect = p.millimeters + inv_2_accel * (entry_speed_sqr - exit_sqr) := by
    rw [← hintersect]
    ring
  split_ifs with hoverride hshort hsome hwithin htrapezoid hcruise
  · -- an override that decelerates through all of the block
    refine .decel rfl ⟨hspeed, ?_⟩ hspeed_le
    have := hscale (sub_nonpos.mp hshort)
    change 2 * p.acceleration * p.millimeters ≤ p.current_speed * p.current_speed
    linarith [mul_self_nonneg nominal]
  · -- an override
    refine .override rfl ⟨hpos, ?_, hspeed_le, not_le.mp hshort, ?_, ?_, hafter, ?_, hforward⟩
    · exact (mul_self_le_mul_self_iff hpos.le hspeed).mpr (by linarith)
    · exact sub_le_self _ (mul_nonneg hinv_pos.le (by linarith))
    · dsimp only
      rw [sub_sub_cancel, hinv, hentry]
      ring
    · dsimp only
      linarith
  · -- a cruise
    refine .cruise rfl ⟨?_, hpos, hnominal, hafter, ?_⟩
    · exact (mul_self_inj hspeed hpos.le).mp (hentry.trans hcruise)
    · dsimp only
      linarith
  · -- a trapezoid
    have hslow := mul_nonneg hinv_pos.le (sub_nonneg.mpr (not_lt.mp hoverride))
    have hless : inv_2_accel * (nominal * nominal - exit_sqr) <
        p.millimeters - inv_2_accel * (nominal * nominal - entry_speed_sqr) := by
      linarith [mul_sub inv_2_accel (nominal * nominal) exit_sqr,
        mul_sub inv_2_accel (nominal * nominal) entry_speed_sqr, mul_sub inv_2_accel entry_speed_sqr exit_sqr]
    refine .accel rfl ⟨hspeed, hpos, hnominal, hafter.trans hless.le, sub_le_self _ hslow, ?_,
      .inr ⟨hafter, hless.le, ?_⟩⟩
    · dsimp only
      rw [sub_sub_cancel, hinv, hentry]
      linarith
    · dsimp only
      linarith
  · -- a triangle
    have hle := hscale (not_lt.mp htrapezoid)
    have hpart : 0 < 2 * p.acceleration * intersect := mul_pos (by linarith) hsome
    have hsquare := Real.mul_self_sqrt (show 0 ≤ 2 * p.acceleration * intersect + exit_sqr by linarith)
    have hboth : 2 * p.acceleration * (2 * intersect) =
        2 * p.acceleration * p.millimeters + (entry_speed_sqr - exit_sqr) := by
      rw [htwice, mul_add, hleft]
    refine .accel rfl ⟨hspeed, Real.sqrt_pos.mpr (by linarith), ?_, hsome.le, hwithin.le, ?_,
      .inr ⟨hsome.le, le_rfl, ?_⟩⟩
    · refine (Real.sqrt_le_iff.mpr ⟨hpos.le, ?_⟩).trans hnominal
      rw [pow_two]
      linarith
    · dsimp only
      rw [hsquare, hentry]
      linarith [mul_sub (2 * p.acceleration) p.millimeters intersect,
        mul_left_comm (2 * p.acceleration) 2 intersect]
    · dsimp only
      rw [hsquare]
      linarith
  · -- a deceleration through all of the block
    refine .decel rfl ⟨hspeed, ?_⟩ hspeed_le
    have := hscale (d := p.millimeters) (y := entry_speed_sqr - exit_sqr) (by linarith)
    change 2 * p.acceleration * p.millimeters ≤ p.current_speed * p.current_speed
    linarith
  · -- an acceleration through all of the block
    have hwhole : 2 * p.acceleration * p.millimeters ≤ exit_sqr - entry_speed_sqr := by
      refine hscale ?_
      linarith [mul_sub inv_2_accel entry_speed_sqr exit_sqr, mul_sub inv_2_accel exit_sqr entry_speed_sqr]
    have hsquare := Real.mul_self_sqrt hexit
    have hpart : 0 < 2 * p.acceleration * p.millimeters := mul_pos (by linarith) hmm
    refine .accel rfl ⟨hspeed, Real.sqrt_pos.mpr ?_, ?_, le_rfl, hmm.le, ?_, .inl rfl⟩
    · linarith [mul_self_nonneg p.current_speed]
    · refine (Real.sqrt_le_iff.mpr ⟨hpos.le, ?_⟩).trans hnominal
      rw [pow_two]
      exact hexit_le
    · dsimp only
      rw [hsquare, hentry, sub_zero]
      linarith

end Profile

end DuneWeaver.Segments
