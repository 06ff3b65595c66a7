import DuneWeaver.Stepper.SegmentLoop
import Mathlib.Algebra.GroupWithZero.Nat
import Mathlib.Algebra.Order.Floor.Ring

namespace DuneWeaver.Segments

variable {V : ℝ} {p q : Prep}

theorem amass_level_le (levels timerTicks : ℕ) : (amass_level levels timerTicks).1 ≤ levels := by
  induction levels generalizing timerTicks with
  | zero => exact le_rfl
  | succ levels ih =>
    rw [amass_level]
    split
    · exact Nat.zero_le _
    · exact Nat.succ_le_succ (ih _)

theorem amass_level_slow {levels timerTicks : ℕ} (h : amassThreshold * 2 ^ levels ≤ timerTicks) :
    (amass_level levels timerTicks).1 = levels := by
  induction levels generalizing timerTicks with
  | zero => rfl
  | succ levels ih =>
    have hpow : amassThreshold ≤ amassThreshold * 2 ^ levels := Nat.le_mul_of_pos_right _ (Nat.two_pow_pos _)
    rw [pow_succ, ← mul_assoc] at h
    rw [amass_level, if_neg (by omega)]
    refine congrArg (· + 1) (ih ?_)
    rw [Nat.shiftRight_eq_div_pow]
    omega

/-- The steps that are left are those of the distance that is left, rounded up. -/
def Prep.Counted (p : Prep) : Prop := ⌈p.steps_remaining⌉ = ⌈p.step_per_mm * p.millimeters⌉

section Finish

variable {r : Loop}

/-- A segment has a step, and no more than those of its greatest distance. -/
theorem steps_bounds (h : p.Sound V) (hcovers : Covers V p r) :
    1 ≤ ⌈p.step_per_mm * p.millimeters⌉ - ⌈p.step_per_mm * r.mm_remaining⌉ ∧
    ⌈p.step_per_mm * p.millimeters⌉ - ⌈p.step_per_mm * r.mm_remaining⌉ ≤
      ⌈p.step_per_mm * (V * DT_SEGMENT) + REQ_MM_INCREMENT_SCALAR⌉ := by
  have hstep := h.step_per_mm_pos
  have hreq : p.step_per_mm * p.req_mm_increment = REQ_MM_INCREMENT_SCALAR := by
    rw [h.req_eq, mul_div_cancel₀ _ hstep.ne']
  constructor
  · obtain hzero | hcovered := hcovers.covered
    · rw [hzero, mul_zero, Int.ceil_zero, sub_zero]
      have hless := hcovers.less
      rw [hzero] at hless
      exact Int.ceil_pos.mpr (mul_pos hstep hless)
    · have hscaled := mul_le_mul_of_nonneg_left hcovered hstep.le
      rw [hreq, mul_sub, REQ_MM_INCREMENT_SCALAR] at hscaled
      have hless : ⌈p.step_per_mm * r.mm_remaining⌉ ≤ ⌈p.step_per_mm * p.millimeters - 1⌉ :=
        Int.ceil_le_ceil (by linarith)
      rw [Int.ceil_sub_one] at hless
      omega
  · have hscaled := mul_le_mul_of_nonneg_left hcovers.distance hstep.le
    rw [mul_add, hreq, mul_sub] at hscaled
    rw [sub_le_iff_le_add]
    refine le_trans (Int.ceil_le_ceil ?_) (Int.ceil_add_le _ _)
    linarith

/-- What a segment of `p` leaves in `q`. -/
structure Emits (V : ℝ) (p : Prep) (segment : Segment) (q : Prep) : Prop where
  sound : q.Sound V
  counted : q.Counted
  acceleration : q.acceleration = p.acceleration
  step_per_mm : q.step_per_mm = p.step_per_mm
  steps : segment.steps =
    (⌈p.step_per_mm * p.millimeters⌉ - ⌈p.step_per_mm * q.millimeters⌉).toNat % 2 ^ 16
  positive : 1 ≤ ⌈p.step_per_mm * p.millimeters⌉ - ⌈p.step_per_mm * q.millimeters⌉
  bounded : ⌈p.step_per_mm * p.millimeters⌉ - ⌈p.step_per_mm * q.millimeters⌉ ≤
    ⌈p.step_per_mm * (V * DT_SEGMENT) + REQ_MM_INCREMENT_SCALAR⌉
  shifted : segment.n_step = (segment.steps <<< segment.amass_level) % 2 ^ 16
  level : segment.amass_level ≤ maxAmassLevel

/-- The velocity profile does not depend on what the segment leaves. -/
theorem Prep.Ramping.kept {mm left steps_remaining dt_remainder : ℝ} (h : p.Ramping V mm) :
    ({ p with millimeters := left, steps_remaining, dt_remainder } : Prep).Ramping V mm := by
  cases h with
  | accel hramp h =>
    exact .accel hramp ⟨h.speed_nonneg, h.maximum_pos, h.maximum_le, h.until_nonneg, h.until_le, h.speed_sqr_le,
      h.after⟩
  | override hramp h =>
    exact .override hramp ⟨h.maximum_pos, h.maximum_le, h.speed_le, h.until_pos, h.until_le, h.speed_sqr,
      h.after_nonneg, h.stops, h.forward⟩
  | cruise hramp h => exact .cruise hramp ⟨h.speed_eq, h.maximum_pos, h.maximum_le, h.after_nonneg, h.stops⟩
  | decel hramp h hspeed => exact .decel hramp ⟨h.speed_nonneg, h.stops⟩ hspeed

theorem finish_emits (h : p.Sound V) (hcounted : p.Counted) (hcovers : Covers V p r) :
    Emits V p r.finish.1 r.finish.2 := by
  obtain ⟨hpositive, hbounded⟩ := steps_bounds h hcovers
  have hblock := hcovers.block
  have hstep : r.prep.step_per_mm = p.step_per_mm := by rw [hblock]
  have hlast : ⌈r.prep.steps_remaining⌉ = ⌈p.step_per_mm * p.millimeters⌉ := by
    rw [hblock]
    exact hcounted
  refine ⟨⟨?_, ?_, ?_, ?_, hcovers.nonneg, fun hpos => (hcovers.ramping hpos).kept⟩, ?_, ?_, ?_, ?_,
    hpositive, hbounded,
    rfl, ?_⟩
  · change 0 < r.prep.acceleration
    rw [hblock]
    exact h.acceleration_pos
  · change r.prep.mm_complete = 0
    rw [hblock]
    exact h.complete
  · change 0 < r.prep.step_per_mm
    rw [hstep]
    exact h.step_per_mm_pos
  · change r.prep.req_mm_increment = REQ_MM_INCREMENT_SCALAR / r.prep.step_per_mm
    rw [hblock]
    exact h.req_eq
  · exact Int.ceil_intCast _
  · change r.prep.acceleration = p.acceleration
    rw [hblock]
  · exact hstep
  · change (⌈r.prep.steps_remaining⌉ - ⌈r.prep.step_per_mm * r.mm_remaining⌉).toNat % 2 ^ 16 = _
    rw [hlast, hstep]
    rfl
  · change (amass_level maxAmassLevel _).1 ≤ maxAmassLevel
    exact amass_level_le _ _

theorem prep_segment_emits {turns : ℕ} {segment : Segment} (h : p.Sound V) (hcounted : p.Counted)
    (hmm : 0 < p.millimeters) (hsegment : prep_segment turns p = some (segment, q)) : Emits V p segment q := by
  unfold prep_segment at hsegment
  cases hrun : (Loop.start p).run turns with
  | none =>
    rw [hrun] at hsegment
    cases hsegment
  | some r =>
    rw [hrun] at hsegment
    cases hsegment
    exact finish_emits h hcounted (run_covers (start_sound h hmm) hrun)

end Finish

section Prepared

variable {b : Block} {profiles : List (ℝ × Target)} {segments : List Segment}

/-- The profiles of a block keep to a greatest speed, and none of them overshoots. -/
structure Profiled (V : ℝ) (b : Block) (profiles : List (ℝ × Target)) : Prop where
  nominal_le : ∀ f ∈ profiles, f.2.nominal_speed ≤ V
  forward : ∀ f ∈ profiles, ¬Overshoots b.acceleration f.1 f.2.nominal_speed

theorem Profiled.init {f : ℝ × Target} (h : Profiled V b (profiles ++ [f])) : Profiled V b profiles where
  nominal_le := fun g hg => h.nominal_le g (List.mem_append_left _ hg)
  forward := fun g hg => h.forward g (List.mem_append_left _ hg)

/-- What is kept for a block while it is prepared. -/
structure Kept (V : ℝ) (b : Block) (p : Prep) : Prop where
  sound : p.Sound V
  counted : p.Counted
  acceleration : p.acceleration = b.acceleration
  step_per_mm : p.step_per_mm = b.step_event_count / b.millimeters

theorem Prep.Ramping.speed_bounds {mm : ℝ} (h : p.Ramping V mm) (hacceleration : 0 < p.acceleration) :
    0 ≤ p.current_speed ∧ p.current_speed ≤ V := by
  cases h with
  | accel _ h => exact ⟨h.speed_nonneg, (h.speed_le hacceleration).trans h.maximum_le⟩
  | override _ h => exact ⟨h.maximum_pos.le.trans h.maximum_le, h.speed_le⟩
  | cruise _ h =>
    rw [h.speed_eq]
    exact ⟨h.maximum_pos.le, h.maximum_le⟩
  | decel _ h hspeed => exact ⟨h.speed_nonneg, hspeed⟩

/-- The profile of what is left of a block is kept for it. -/
theorem profile_kept {t : Target} {entry_speed_sqr : ℝ} (hacceleration : p.acceleration = b.acceleration)
    (hmm : 0 < p.millimeters) (hstep : p.step_per_mm = b.step_event_count / b.millimeters)
    (hreq : p.req_mm_increment = REQ_MM_INCREMENT_SCALAR / p.step_per_mm) (hcounted : p.Counted)
    (hspeed : 0 ≤ p.current_speed) (hentry : p.current_speed * p.current_speed = entry_speed_sqr)
    (hspeed_le : p.current_speed ≤ V) (hnominal : t.nominal_speed ≤ V)
    (hforward : ¬Overshoots b.acceleration p.current_speed t.nominal_speed) :
    Kept V b (p.profile entry_speed_sqr t) := by
  rw [← hacceleration] at hforward
  have hpos : 0 < p.acceleration := hacceleration ▸ b.acceleration_pos
  have hramping := profile_ramping hpos hmm hspeed hentry hspeed_le hnominal hforward
  obtain ⟨hcomplete, hleft, hacceleration', hremaining, hstep', hreq', -⟩ := profile_frame p entry_speed_sqr t
  refine ⟨⟨?_, hcomplete, ?_, ?_, ?_, ?_⟩, ?_, ?_, ?_⟩
  · rw [hacceleration']
    exact hpos
  · rw [hstep', hstep]
    exact div_pos (Nat.cast_pos.mpr b.steps_pos) b.millimeters_pos
  · rw [hreq', hstep', hreq]
  · rw [hleft]
    exact hmm.le
  · intro _
    rw [hleft]
    exact hramping
  · unfold Prep.Counted
    rw [hremaining, hstep', hleft]
    exact hcounted
  · rw [hacceleration', hacceleration]
  · rw [hstep', hstep]

theorem load_kept (p : Prep) {t : Target} (hentry : √b.entry_speed_sqr ≤ V) (hnominal : t.nominal_speed ≤ V)
    (hforward : ¬Overshoots b.acceleration (√b.entry_speed_sqr) t.nominal_speed) : Kept V b (p.load b t) := by
  refine profile_kept rfl b.millimeters_pos rfl rfl ?_ (Real.sqrt_nonneg _) (Real.mul_self_sqrt b.entry_nonneg)
    hentry hnominal hforward
  change ⌈(b.step_event_count : ℝ)⌉ = ⌈b.step_event_count / b.millimeters * b.millimeters⌉
  rw [div_mul_cancel₀ _ b.millimeters_pos.ne']

theorem load_steps (p : Prep) (b : Block) (t : Target) :
    (p.load b t).step_per_mm * (p.load b t).millimeters = b.step_event_count := by
  obtain ⟨-, hleft, -, -, hstep, -⟩ := profile_frame
    { p with
      millimeters := b.millimeters, acceleration := b.acceleration, dt_remainder := 0
      steps_remaining := b.step_event_count, step_per_mm := b.step_event_count / b.millimeters
      req_mm_increment := REQ_MM_INCREMENT_SCALAR / (b.step_event_count / b.millimeters)
      current_speed := √b.entry_speed_sqr } b.entry_speed_sqr t
  unfold Prep.load
  dsimp only
  rw [hleft, hstep]
  exact div_mul_cancel₀ _ b.millimeters_pos.ne'

theorem recalculate_kept {t : Target} (h : Kept V b p) (hmm : 0 < p.millimeters) (hnominal : t.nominal_speed ≤ V)
    (hforward : ¬Overshoots b.acceleration p.current_speed t.nominal_speed) : Kept V b (p.recalculate t) := by
  obtain ⟨hspeed, hspeed_le⟩ := (h.sound.ramping hmm).speed_bounds h.sound.acceleration_pos
  exact profile_kept h.acceleration hmm h.step_per_mm h.sound.req_eq h.counted hspeed rfl hspeed_le hnominal hforward

/-- What is kept for a block, over all of its segments. -/
theorem prepared_kept (h : Prepared b profiles segments p) (hentry : √b.entry_speed_sqr ≤ V)
    (hprofiled : Profiled V b profiles) : Kept V b p := by
  induction h with
  | load p t =>
    exact load_kept p hentry (hprofiled.nominal_le _ (List.mem_singleton_self _))
      (hprofiled.forward _ (List.mem_singleton_self _))
  | recalculate t h hmm ih =>
    exact recalculate_kept (ih hprofiled.init) hmm (hprofiled.nominal_le _ List.mem_concat_self)
      (hprofiled.forward _ List.mem_concat_self)
  | segment h hmm hsegment ih =>
    have hkept := ih hprofiled
    have hemits := prep_segment_emits hkept.sound hkept.counted hmm hsegment
    exact ⟨hemits.sound, hemits.counted, hemits.acceleration.trans hkept.acceleration,
      hemits.step_per_mm.trans hkept.step_per_mm⟩

/-- A segment whose steps fit their field has them all. -/
theorem Emits.steps_eq {segment : Segment} (h : Emits V p segment q)
    (hfast : p.step_per_mm * (V * DT_SEGMENT) ≤ 65533) : 1 ≤ segment.steps ∧
      (segment.steps : ℤ) = ⌈p.step_per_mm * p.millimeters⌉ - ⌈p.step_per_mm * q.millimeters⌉ := by
  have hbound : ⌈p.step_per_mm * (V * DT_SEGMENT) + REQ_MM_INCREMENT_SCALAR⌉ ≤ 65535 := by
    rw [Int.ceil_le, REQ_MM_INCREMENT_SCALAR]
    norm_num
    linarith
  have hpositive := h.positive
  have hbounded := h.bounded.trans hbound
  have hsteps := h.steps
  generalize ⌈p.step_per_mm * p.millimeters⌉ - ⌈p.step_per_mm * q.millimeters⌉ = n at hpositive hbounded hsteps ⊢
  omega

/-- The segments of a block have its steps, less those that are left. -/
theorem prepared_steps (h : Prepared b profiles segments p) (hentry : √b.entry_speed_sqr ≤ V)
    (hprofiled : Profiled V b profiles)
    (hfast : b.step_event_count / b.millimeters * (V * DT_SEGMENT) ≤ 65533) :
    (∀ segment ∈ segments, 1 ≤ segment.steps) ∧
      (((segments.map (·.steps)).sum : ℕ) : ℤ) + ⌈p.step_per_mm * p.millimeters⌉ = b.step_event_count := by
  induction h with
  | load p t =>
    refine ⟨fun segment h => absurd h List.not_mem_nil, ?_⟩
    rw [load_steps]
    simp
  | @recalculate profiles segments p t h hmm ih =>
    obtain ⟨hpositive, hsum⟩ := ih hprofiled.init
    obtain ⟨-, hleft, -, -, hstep, -⟩ := profile_frame p (p.current_speed * p.current_speed) t
    refine ⟨hpositive, ?_⟩
    unfold Prep.recalculate
    rw [hleft, hstep]
    exact hsum
  | @segment profiles segments p q segment turns h hmm hsegment ih =>
    obtain ⟨hpositive, hsum⟩ := ih hprofiled
    have hkept := prepared_kept h hentry hprofiled
    have hemits := prep_segment_emits hkept.sound hkept.counted hmm hsegment
    obtain ⟨hstep, hsteps⟩ := hemits.steps_eq (by rw [hkept.step_per_mm]; exact hfast)
    constructor
    · intro other hother
      obtain hbefore | hlast := List.mem_append.mp hother
      · exact hpositive other hbefore
      · rw [List.mem_singleton.mp hlast]
        exact hstep
    · rw [List.map_append, List.sum_append, List.map_singleton, List.sum_singleton, hemits.step_per_mm, Nat.cast_add,
        hsteps]
      linarith

/-- The AMASS shift of a slow enough block loses no bits. -/
theorem prepared_shifted (h : Prepared b profiles segments p) (hentry : √b.entry_speed_sqr ≤ V)
    (hprofiled : Profiled V b profiles)
    (hslow : b.step_event_count / b.millimeters * (V * DT_SEGMENT) ≤ 8189) :
    ∀ segment ∈ segments, segment.n_step = segment.steps <<< segment.amass_level := by
  induction h with
  | load => exact fun segment h => absurd h List.not_mem_nil
  | recalculate t h hmm ih => exact ih hprofiled.init
  | @segment profiles segments p q segment turns h hmm hsegment ih =>
    intro other hother
    obtain hbefore | hlast := List.mem_append.mp hother
    · exact ih hprofiled other hbefore
    · rw [List.mem_singleton.mp hlast]
      have hkept := prepared_kept h hentry hprofiled
      have hemits := prep_segment_emits hkept.sound hkept.counted hmm hsegment
      have hbound : ⌈p.step_per_mm * (V * DT_SEGMENT) + REQ_MM_INCREMENT_SCALAR⌉ ≤ 8191 := by
        rw [Int.ceil_le, REQ_MM_INCREMENT_SCALAR, hkept.step_per_mm]
        norm_num
        linarith
      obtain ⟨-, hsteps⟩ := hemits.steps_eq (by rw [hkept.step_per_mm]; linarith)
      have hfew : segment.steps ≤ 8191 := by
        have := hemits.bounded.trans hbound
        omega
      have hlevel : 2 ^ segment.amass_level ≤ 2 ^ 3 := Nat.pow_le_pow_right (by norm_num) hemits.level
      rw [hemits.shifted, Nat.shiftLeft_eq, Nat.mod_eq_of_lt]
      calc
        segment.steps * 2 ^ segment.amass_level ≤ 8191 * 2 ^ 3 := Nat.mul_le_mul hfew hlevel
        _ < 2 ^ 16 := by norm_num

/-- The segments of a block outside of a feed hold each have a step, at most as many of them as the block has steps,
and cover it, their steps fit their field, and the loop that makes one ends. -/
theorem prep_buffer_covers (h : Prepared b profiles segments p) (hentry : √b.entry_speed_sqr ≤ V)
    (hprofiled : Profiled V b profiles) :
    (0 < p.millimeters → ∃ turns segment q, prep_segment turns p = some (segment, q)) ∧
    (b.step_event_count / b.millimeters * (V * DT_SEGMENT) ≤ 65533 →
      (∀ segment ∈ segments, 1 ≤ segment.steps) ∧ segments.length ≤ b.step_event_count ∧
      (p.millimeters = 0 → (segments.map (·.steps)).sum = b.step_event_count)) ∧
    (b.step_event_count / b.millimeters * (V * DT_SEGMENT) ≤ 8189 →
      ∀ segment ∈ segments, segment.n_step = segment.steps <<< segment.amass_level) := by
  refine ⟨fun hmm => ?_, fun hfast => ?_, prepared_shifted h hentry hprofiled⟩
  · have hkept := prepared_kept h hentry hprofiled
    obtain ⟨turns, r, hrun⟩ := start_ends hkept.sound hmm
    refine ⟨turns, r.finish.1, r.finish.2, ?_⟩
    rw [prep_segment, hrun]
    rfl
  · obtain ⟨hpositive, hsum⟩ := prepared_steps h hentry hprofiled hfast
    have hkept := prepared_kept h hentry hprofiled
    refine ⟨hpositive, ?_, fun hdone => ?_⟩
    · have hlength : segments.length ≤ (segments.map (·.steps)).sum := by
        have := List.length_le_sum_of_one_le (segments.map (·.steps)) fun n hn => by
          obtain ⟨segment, hmem, rfl⟩ := List.mem_map.mp hn
          exact hpositive segment hmem
        rwa [List.length_map] at this
      have hleft : 0 ≤ ⌈p.step_per_mm * p.millimeters⌉ :=
        Int.ceil_nonneg (mul_nonneg hkept.sound.step_per_mm_pos.le hkept.sound.millimeters_nonneg)
      omega
    · rw [hdone, mul_zero, Int.ceil_zero, add_zero] at hsum
      exact_mod_cast hsum

/-- An override cannot overshoot a nominal speed that the block has not got to. -/
theorem not_overshoots_of_le {acceleration speed nominal : ℝ} (hacceleration : 0 < acceleration) (hspeed : 0 ≤ speed)
    (hnominal : 0 < nominal) (hle : speed ≤ nominal) : ¬Overshoots acceleration speed nominal := by
  rintro ⟨turns, hforward, hback⟩
  have hpart : 0 < acceleration * DT_SEGMENT := mul_pos hacceleration DT_SEGMENT_pos
  cases turns with
  | zero =>
    rw [Nat.cast_zero, zero_mul, sub_zero] at hback
    linarith
  | succ turns =>
    rw [Nat.cast_succ, add_mul, one_mul] at hforward hback
    linarith [mul_nonneg (Nat.cast_nonneg (α := ℝ) turns) hpart.le]

end Prepared

noncomputable section Limits

/-- A target to stop at the end of the block. -/
def Target.stop (nominal_speed : ℝ) (h : 1 ≤ nominal_speed) : Target where
  exit_speed_sqr := 0
  nominal_speed
  exit_nonneg := le_rfl
  exit_le := mul_self_nonneg _
  minimum_le := h

def Prep.idle : Prep := ⟨0, 0, 0, 0, 0, 0, .ACCEL, 0, 0, 0, 0, 0, 0⟩

/-- A block of a hundred steps, from rest. -/
def hundred : Block where
  step_event_count := 100
  millimeters := 1
  acceleration := 3600000
  entry_speed_sqr := 0
  steps_pos := by norm_num
  millimeters_pos := by norm_num
  acceleration_pos := by norm_num
  entry_nonneg := le_rfl

/-- Its first segment. -/
theorem prep_buffer_covers_hundred :
    ∃ segment q, Prepared hundred [(√hundred.entry_speed_sqr, .stop 600 (by norm_num))] [segment] q ∧
      1 ≤ segment.steps ∧ (q.millimeters = 0 → segment.steps = hundred.step_event_count) ∧
      segment.n_step = segment.steps <<< segment.amass_level := by
  have hentry : √hundred.entry_speed_sqr = 0 := Real.sqrt_zero
  have hslow : √hundred.entry_speed_sqr ≤ 600 := by
    rw [hentry]
    norm_num
  have hprofiled : Profiled 600 hundred [(√hundred.entry_speed_sqr, .stop 600 (by norm_num))] := by
    refine ⟨fun f hf => ?_, fun f hf => ?_⟩
    · rw [List.mem_singleton.mp hf]
      exact le_rfl
    · rw [List.mem_singleton.mp hf, hentry]
      exact not_overshoots_of_le hundred.acceleration_pos le_rfl (by norm_num [Target.stop]) (by norm_num [Target.stop])
  have hmm : 0 < (Prep.idle.load hundred (.stop 600 (by norm_num))).millimeters := by
    unfold Prep.load
    rw [(profile_frame _ _ _).2.1]
    exact hundred.millimeters_pos
  have hload : Prepared hundred _ _ _ := .load Prep.idle (.stop 600 (by norm_num))
  obtain ⟨turns, segment, q, hsegment⟩ := (prep_buffer_covers hload hslow hprofiled).1 hmm
  have hprepared := hload.segment hmm hsegment
  obtain ⟨-, hsteps, hshifted⟩ := prep_buffer_covers hprepared hslow hprofiled
  obtain ⟨hpositive, -, hcovered⟩ := hsteps (by norm_num [hundred, DT_SEGMENT])
  refine ⟨segment, q, hprepared, hpositive _ (List.mem_singleton_self _), fun hdone => ?_,
    hshifted (by norm_num [hundred, DT_SEGMENT]) _ (List.mem_singleton_self _)⟩
  have hsum := hcovered hdone
  rw [List.nil_append, List.map_singleton, List.sum_singleton] at hsum
  exact hsum

/-- The block gets a segment without steps, for all that its nominal speeds stay below 65535 steps in a
`DT_SEGMENT`: the interrupt would run it 65536 times. -/
def Stalls (b : Block) : Prop :=
  ∃ profiles segments p, Prepared b profiles segments p ∧
    (∀ f ∈ profiles, b.step_event_count / b.millimeters * (f.2.nominal_speed * DT_SEGMENT) < 65535) ∧
    ∃ segment ∈ segments, segment.n_step = 0

/-- A block that was entered with 65537 steps in a `DT_SEGMENT`, and is slowed down to 60000 by an override. -/
def reduced : Block where
  step_event_count := 200000000
  millimeters := 200000000
  acceleration := 72000000
  entry_speed_sqr := 393222000 * 393222000
  steps_pos := by norm_num
  millimeters_pos := by norm_num
  acceleration_pos := by norm_num
  entry_nonneg := by norm_num

def reduced_to : Target := .stop 360000000 (by norm_num)

theorem load_reduced (p : Prep) : p.load reduced reduced_to = { p with
    millimeters := 200000000, acceleration := 72000000, dt_remainder := 0, steps_remaining := 200000000
    step_per_mm := 1, req_mm_increment := 1.25, ramp_type := .DECEL_OVERRIDE, mm_complete := 0
    current_speed := 393222000, maximum_speed := 360000000, exit_speed := 0
    accelerate_until := 26225407.75, decelerate_after := 900000000 } := by
  have hentry : √((393222000 : ℝ) * 393222000) = 393222000 := Real.sqrt_mul_self (by norm_num)
  unfold Prep.load Prep.profile reduced reduced_to Target.stop
  simp only [hentry]
  norm_num [REQ_MM_INCREMENT_SCALAR]

theorem prep_reduced (p : Prep) : ∃ segment q, prep_segment 1 (p.load reduced reduced_to) = some (segment, q) ∧
    segment.n_step = 0 := by
  rw [load_reduced, prep_segment]
  simp only [Loop.run, Loop.start, Loop.turn, Loop.ramp]
  norm_num [DT_SEGMENT]
  unfold Loop.finish
  norm_num
  rw [show Int.toNat 65536 % 65536 = 0 from rfl, Nat.zero_shiftLeft]

/-- A block at three steps in a `DT_SEGMENT`, which loses four in each: an override takes it from 3 to -1, and as its
nominal speed is nearly 1, the time of the ramp comes out as a great negative one. -/
def reversed : Block where
  step_event_count := 200000
  millimeters := 200000
  acceleration := 144000000
  entry_speed_sqr := 18000 * 18000
  steps_pos := by norm_num
  millimeters_pos := by norm_num
  acceleration_pos := by norm_num
  entry_nonneg := by norm_num

def reversed_to : Target := .stop (6000 * 32767 / 32768) (by norm_num)

theorem load_reversed (p : Prep) : p.load reversed reversed_to = { p with
    millimeters := 200000, acceleration := 144000000, dt_remainder := 0, steps_remaining := 200000
    step_per_mm := 1, req_mm_increment := 1.25, ramp_type := .DECEL_OVERRIDE, mm_complete := 0
    current_speed := 18000, maximum_speed := 6000 * 32767 / 32768, exit_speed := 0
    accelerate_until := 200000 - (9 - (32767 / 32768) * (32767 / 32768)) / 8
    decelerate_after := (32767 / 32768) * (32767 / 32768) / 8 } := by
  have hentry : √((18000 : ℝ) * 18000) = 18000 := Real.sqrt_mul_self (by norm_num)
  unfold Prep.load Prep.profile reversed reversed_to Target.stop
  simp only [hentry]
  norm_num [REQ_MM_INCREMENT_SCALAR]

theorem prep_reversed (p : Prep) : ∃ segment q, prep_segment 3 (p.load reversed reversed_to) = some (segment, q) ∧
    segment.n_step = 0 := by
  rw [load_reversed, prep_segment]
  simp only [Loop.run, Loop.start, Loop.turn, Loop.ramp]
  norm_num [DT_SEGMENT]
  unfold Loop.finish
  norm_num
  rw [show Int.toNat 65536 % 65536 = 0 from rfl, Nat.zero_shiftLeft]

/-- A block that crawls along until it is let go: what it has not executed of a step by then takes longer than the
8192 steps of the next segment, which are taken for slow ones. -/
def released : Block where
  step_event_count := 10000
  millimeters := 10000
  acceleration := 4831838208000000
  entry_speed_sqr := 1 * 1
  steps_pos := by norm_num
  millimeters_pos := by norm_num
  acceleration_pos := by norm_num
  entry_nonneg := by norm_num

def released_from : Target := .stop 1 le_rfl

def released_to : Target := .stop 49152000 (by norm_num)

def crawling (p : Prep) : Prep := { p with
    millimeters := 10000, acceleration := 4831838208000000, dt_remainder := 0, steps_remaining := 10000
    step_per_mm := 1, req_mm_increment := 1.25, ramp_type := .CRUISE, mm_complete := 0
    current_speed := 1, maximum_speed := 1, exit_speed := 0
    accelerate_until := 10000, decelerate_after := 1 / 9663676416000000 }

theorem load_released (p : Prep) : p.load released released_from = crawling p := by
  have hentry : √((1 : ℝ) * 1) = 1 := Real.sqrt_mul_self (by norm_num)
  unfold Prep.load Prep.profile released released_from Target.stop crawling
  simp only [hentry]
  norm_num [REQ_MM_INCREMENT_SCALAR]

/-- The loop after some of the 7500 turns that its first segment takes. -/
def crawl (p : Prep) (turns : ℕ) : Loop where
  prep := crawling p
  dt_max := (turns + 1) * DT_SEGMENT
  dt := turns * DT_SEGMENT
  time_var := DT_SEGMENT
  mm_remaining := 10000 - turns * DT_SEGMENT
  minimum_mm := 9998.75

theorem crawl_ramp (p : Prep) {turns : ℕ} (h : turns < 7500) :
    (crawl p turns).ramp = (crawl p turns).along (10000 - (turns + 1) * DT_SEGMENT) 1 := by
  have hless : (turns : ℝ) + 1 ≤ 7500 := by exact_mod_cast h
  have hmm : 10000 - (turns : ℝ) * DT_SEGMENT - 1 * DT_SEGMENT = 10000 - (turns + 1) * DT_SEGMENT := by ring
  obtain ⟨-, heq⟩ | ⟨hend, -⟩ := ramp_cruise (s := crawl p turns) rfl
  · rw [heq, ← hmm]
    rfl
  · refine absurd hend (not_lt.mpr ?_)
    change 1 / 9663676416000000 ≤ 10000 - (turns : ℝ) * DT_SEGMENT - 1 * DT_SEGMENT
    rw [hmm, DT_SEGMENT]
    linarith

theorem crawl_turn (p : Prep) {turns : ℕ} (h : turns < 7499) : (crawl p turns).turn = (true, crawl p (turns + 1)) := by
  have hless : (turns : ℝ) + 1 < 7500 := by exact_mod_cast Nat.succ_lt_succ h
  have hshort : 9998.75 < 10000 - ((turns : ℝ) + 1) * DT_SEGMENT := by
    unfold DT_SEGMENT
    linarith
  have htime : (turns : ℝ) * DT_SEGMENT + DT_SEGMENT = (turns + 1) * DT_SEGMENT := by ring
  unfold Loop.turn
  rw [crawl_ramp p (by omega)]
  dsimp only [Loop.along, crawl]
  simp only [htime, lt_irrefl, if_false, gt_iff_lt, hshort, if_true, Nat.cast_succ]
  refine Prod.ext (decide_eq_true ?_) ?_
  · dsimp only [crawling]
    linarith
  · have h1 : ((turns : ℝ) + 1) * DT_SEGMENT + DT_SEGMENT = (turns + 1 + 1) * DT_SEGMENT := by ring
    have h2 : ((turns : ℝ) + 1 + 1) * DT_SEGMENT - (turns + 1) * DT_SEGMENT = DT_SEGMENT := by ring
    dsimp only
    rw [h1, h2]
    rfl

theorem crawl_last (p : Prep) : (crawl p 7499).turn = (false, { crawl p 7500 with dt_max := 1.25 }) := by
  unfold Loop.turn
  rw [crawl_ramp p (by omega)]
  dsimp only [Loop.along, crawl]
  unfold DT_SEGMENT crawling
  norm_num

theorem crawl_run (p : Prep) (turns : ℕ) (h : turns ≤ 7499) :
    (crawl p (7499 - turns)).run (turns + 1) = some { crawl p 7500 with dt_max := 1.25 } := by
  induction turns with
  | zero =>
    rw [Loop.run, Nat.sub_zero, crawl_last, if_neg Bool.false_ne_true]
  | succ turns ih =>
    rw [Loop.run, crawl_turn p (by omega), if_pos rfl]
    have : 7499 - (turns + 1) + 1 = 7499 - turns := by omega
    dsimp only
    rw [this]
    exact ih (by omega)

/-- What is kept behind the first segment, of a single step. -/
def crawled (p : Prep) : Prep :=
  { crawling p with millimeters := 9998.75, steps_remaining := 9999, dt_remainder := 0.25 }

theorem prep_crawling (p : Prep) : ∃ segment, prep_segment 7500 (crawling p) = some (segment, crawled p) := by
  have hstart : Loop.start (crawling p) = crawl p 0 := by
    unfold Loop.start crawl crawling
    norm_num
  have hrun := crawl_run p 7499 le_rfl
  rw [Nat.sub_self, ← hstart] at hrun
  rw [prep_segment, hrun]
  refine ⟨_, congrArg some (Prod.ext rfl ?_)⟩
  dsimp only [crawl, crawled, crawling, DT_SEGMENT, Loop.finish]
  norm_num

theorem recalculate_crawled (p : Prep) : (crawled p).recalculate released_to = { crawled p with
    ramp_type := .ACCEL, maximum_speed := 49152000, decelerate_after := 0.25
    accelerate_until := 9998.5 + 1 / 9663676416000000 } := by
  unfold Prep.recalculate Prep.profile released_to Target.stop crawled crawling
  norm_num

theorem prep_released (p : Prep) :
    ∃ segment q, prep_segment 2 ((crawled p).recalculate released_to) = some (segment, q) ∧ segment.n_step = 0 := by
  rw [recalculate_crawled]
  unfold prep_segment crawled crawling
  simp only [Loop.run, Loop.start, Loop.turn, Loop.ramp]
  norm_num [DT_SEGMENT]
  unfold Loop.finish
  norm_num
  have hslow : 35999 < ⌈(fStepperTimer : ℝ) * 60 * (2417529716736000 / 79164837199970303999)⌉₊ := by
    refine Nat.lt_ceil.mpr ?_
    norm_num [fStepperTimer]
  have hfast : ⌈(fStepperTimer : ℝ) * 60 * (2417529716736000 / 79164837199970303999)⌉₊ ≤ 37000 := by
    refine Nat.ceil_le.mpr ?_
    norm_num [fStepperTimer]
  generalize ⌈(fStepperTimer : ℝ) * 60 * (2417529716736000 / 79164837199970303999)⌉₊ = timerTicks at hslow hfast ⊢
  have hthreshold : amassThreshold * 2 ^ maxAmassLevel = 20000 := rfl
  rw [Nat.mod_eq_of_lt (a := timerTicks) (by omega), amass_level_slow (by omega)]
  rfl

/-- A nominal speed below 65535 steps in a `DT_SEGMENT` is not enough for a segment to have a step. -/
theorem segments_stall : Stalls reduced ∧ Stalls reversed ∧ Stalls released := by
  refine ⟨?_, ?_, ?_⟩
  · obtain ⟨segment, q, hsegment, hzero⟩ := prep_reduced Prep.idle
    refine ⟨_, _, _, .segment (.load Prep.idle reduced_to) ?_ hsegment, ?_, segment, List.mem_concat_self, hzero⟩
    · rw [load_reduced]
      norm_num
    · intro f hf
      rw [List.mem_singleton.mp hf]
      norm_num [reduced, reduced_to, Target.stop, DT_SEGMENT]
  · obtain ⟨segment, q, hsegment, hzero⟩ := prep_reversed Prep.idle
    refine ⟨_, _, _, .segment (.load Prep.idle reversed_to) ?_ hsegment, ?_, segment, List.mem_concat_self, hzero⟩
    · rw [load_reversed]
      norm_num
    · intro f hf
      rw [List.mem_singleton.mp hf]
      norm_num [reversed, reversed_to, Target.stop, DT_SEGMENT]
  · obtain ⟨first, hfirst⟩ := prep_crawling Prep.idle
    obtain ⟨segment, q, hsegment, hzero⟩ := prep_released Prep.idle
    have hload : Prepared released [(√released.entry_speed_sqr, released_from)] [] (crawling Prep.idle) := by
      rw [← load_released]
      exact .load Prep.idle released_from
    refine ⟨_, _, _, .segment (.recalculate released_to (.segment hload ?_ hfirst) ?_) ?_ hsegment, ?_, segment,
      List.mem_concat_self, hzero⟩
    · norm_num [crawling]
    · norm_num [crawled]
    · rw [recalculate_crawled]
      norm_num [crawled]
    · intro f hf
      obtain hfrom | hto := List.mem_append.mp hf
      · rw [List.mem_singleton.mp hfrom]
        norm_num [released, released_from, Target.stop, DT_SEGMENT]
      · rw [List.mem_singleton.mp hto]
        norm_num [released, released_to, Target.stop, DT_SEGMENT]

end Limits

end DuneWeaver.Segments
