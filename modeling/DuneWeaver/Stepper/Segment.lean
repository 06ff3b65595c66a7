import DuneWeaver.Stepper.Pulse
import Mathlib.Algebra.Order.Archimedean.Real.Basic
import Mathlib.Analysis.Real.Sqrt
import Mathlib.Tactic.Linarith
import Mathlib.Tactic.Positivity

namespace DuneWeaver.Segments

noncomputable section

/-- `ramp_type`. -/
inductive Ramp where
  | ACCEL
  | CRUISE
  | DECEL
  | DECEL_OVERRIDE
  deriving DecidableEq

/-- The time of a segment, in minutes. -/
def DT_SEGMENT : ℝ := 1 / (100 * 60)

def REQ_MM_INCREMENT_SCALAR : ℝ := 1.25

def fStepperTimer : Nat := 20000000

def amassThreshold : Nat := fStepperTimer / 8000

/-- A block as the planner queues it: one without steps is not queued. -/
structure Block where
  step_event_count : Nat
  millimeters : ℝ
  acceleration : ℝ
  entry_speed_sqr : ℝ
  steps_pos : 0 < step_event_count
  millimeters_pos : 0 < millimeters
  acceleration_pos : 0 < acceleration
  entry_nonneg : 0 ≤ entry_speed_sqr

/-- The speeds that a velocity profile is computed for. The nominal speed is at least `MINIMUM_FEED_RATE`, and the
planner lets no block be left faster than that. -/
structure Target where
  exit_speed_sqr : ℝ
  nominal_speed : ℝ
  exit_nonneg : 0 ≤ exit_speed_sqr
  exit_le : exit_speed_sqr ≤ nominal_speed * nominal_speed
  minimum_le : 1 ≤ nominal_speed

/-- What `prep_buffer` keeps for the block that it prepares, in exact arithmetic: of `pl_block` the first two,
and of `prep` the rest. -/
structure Prep where
  millimeters : ℝ
  acceleration : ℝ
  dt_remainder : ℝ
  steps_remaining : ℝ
  step_per_mm : ℝ
  req_mm_increment : ℝ
  ramp_type : Ramp
  mm_complete : ℝ
  current_speed : ℝ
  maximum_speed : ℝ
  exit_speed : ℝ
  accelerate_until : ℝ
  decelerate_after : ℝ

/-- The velocity profile of a block, or of what is left of it, outside of a feed hold. -/
def Prep.profile (p : Prep) (entry_speed_sqr : ℝ) (t : Target) : Prep :=
  let inv_2_accel := 0.5 / p.acceleration
  let p := { p with
    mm_complete := 0, ramp_type := .ACCEL, accelerate_until := p.millimeters, exit_speed := √t.exit_speed_sqr }
  let nominal_speed_sqr := t.nominal_speed * t.nominal_speed
  let intersect_distance := 0.5 * (p.millimeters + inv_2_accel * (entry_speed_sqr - t.exit_speed_sqr))
  if entry_speed_sqr > nominal_speed_sqr then
    -- only during override reductions
    let p := { p with accelerate_until := p.millimeters - inv_2_accel * (entry_speed_sqr - nominal_speed_sqr) }
    if p.accelerate_until ≤ 0 then
      { p with ramp_type := .DECEL, exit_speed := √(entry_speed_sqr - 2 * p.acceleration * p.millimeters) }
    else
      { p with
        decelerate_after := inv_2_accel * (nominal_speed_sqr - t.exit_speed_sqr)
        maximum_speed := t.nominal_speed, ramp_type := .DECEL_OVERRIDE }
  else if intersect_distance > 0 then
    if intersect_distance < p.millimeters then
      let p := { p with decelerate_after := inv_2_accel * (nominal_speed_sqr - t.exit_speed_sqr) }
      if p.decelerate_after < intersect_distance then
        let p := { p with maximum_speed := t.nominal_speed }
        if entry_speed_sqr = nominal_speed_sqr then { p with ramp_type := .CRUISE }
        else { p with accelerate_until := p.accelerate_until - inv_2_accel * (nominal_speed_sqr - entry_speed_sqr) }
      else
        { p with
          accelerate_until := intersect_distance, decelerate_after := intersect_distance
          maximum_speed := √(2 * p.acceleration * intersect_distance + t.exit_speed_sqr) }
    else { p with ramp_type := .DECEL }
  else { p with accelerate_until := 0, maximum_speed := p.exit_speed }

/-- A block is loaded. What is left in `prep` from the block before it is overwritten, as far as it is read. Behind
a block that an override has left decelerating, the entry speed of the block is that block's exit speed. -/
def Prep.load (p : Prep) (b : Block) (t : Target) : Prep :=
  let step_per_mm := b.step_event_count / b.millimeters
  Prep.profile { p with
    millimeters := b.millimeters, acceleration := b.acceleration, dt_remainder := 0
    steps_remaining := b.step_event_count, step_per_mm
    req_mm_increment := REQ_MM_INCREMENT_SCALAR / step_per_mm
    current_speed := √b.entry_speed_sqr } b.entry_speed_sqr t

/-- The profile of the block is computed again, from its current speed. -/
def Prep.recalculate (p : Prep) (t : Target) : Prep := p.profile (p.current_speed * p.current_speed) t

/-- The local variables of the loop over the ramps of a segment. -/
structure Loop where
  prep : Prep
  dt_max : ℝ
  dt : ℝ
  time_var : ℝ
  mm_remaining : ℝ
  minimum_mm : ℝ

/-- A segment begins. -/
def Loop.start (p : Prep) : Loop where
  prep := p
  dt_max := DT_SEGMENT
  dt := 0
  time_var := DT_SEGMENT
  mm_remaining := p.millimeters
  minimum_mm := if p.millimeters - p.req_mm_increment < 0 then 0 else p.millimeters - p.req_mm_increment

/-- The `switch` of the loop. -/
def Loop.ramp (s : Loop) : Loop :=
  let p := s.prep
  match p.ramp_type with
  | .DECEL_OVERRIDE =>
    let speed_var := p.acceleration * s.time_var
    let mm_var := s.time_var * (p.current_speed - 0.5 * speed_var)
    if s.mm_remaining - mm_var < p.accelerate_until ∨ mm_var ≤ 0 then
      { s with
        mm_remaining := p.accelerate_until
        time_var := 2 * (p.millimeters - p.accelerate_until) / (p.current_speed + p.maximum_speed)
        prep := { p with ramp_type := .CRUISE, current_speed := p.maximum_speed } }
    else
      { s with
        mm_remaining := s.mm_remaining - mm_var
        prep := { p with current_speed := p.current_speed - speed_var } }
  | .ACCEL =>
    let speed_var := p.acceleration * s.time_var
    let mm_remaining := s.mm_remaining - s.time_var * (p.current_speed + 0.5 * speed_var)
    if mm_remaining < p.accelerate_until then
      { s with
        mm_remaining := p.accelerate_until
        time_var := 2 * (p.millimeters - p.accelerate_until) / (p.current_speed + p.maximum_speed)
        prep := { p with
          ramp_type := if p.accelerate_until = p.decelerate_after then .DECEL else .CRUISE
          current_speed := p.maximum_speed } }
    else { s with mm_remaining, prep := { p with current_speed := p.current_speed + speed_var } }
  | .CRUISE =>
    let mm_var := s.mm_remaining - p.maximum_speed * s.time_var
    if mm_var < p.decelerate_after then
      { s with
        time_var := (s.mm_remaining - p.decelerate_after) / p.maximum_speed
        mm_remaining := p.decelerate_after
        prep := { p with ramp_type := .DECEL } }
    else { s with mm_remaining := mm_var }
  | .DECEL =>
    let speed_var := p.acceleration * s.time_var
    let mm_var := s.mm_remaining - s.time_var * (p.current_speed - 0.5 * speed_var)
    if p.current_speed > speed_var ∧ mm_var > p.mm_complete then
      { s with mm_remaining := mm_var, prep := { p with current_speed := p.current_speed - speed_var } }
    else
      { s with
        time_var := 2 * (s.mm_remaining - p.mm_complete) / (p.current_speed + p.exit_speed)
        mm_remaining := p.mm_complete
        prep := { p with current_speed := p.exit_speed } }

/-- One turn of the loop, with whether it goes on. A segment without a full step gets more time. -/
def Loop.turn (s : Loop) : Bool × Loop :=
  let s := s.ramp
  let s := { s with dt := s.dt + s.time_var }
  if s.dt < s.dt_max then (s.mm_remaining > s.prep.mm_complete, { s with time_var := s.dt_max - s.dt })
  else if s.mm_remaining > s.minimum_mm then
    (s.mm_remaining > s.prep.mm_complete,
      { s with dt_max := s.dt_max + DT_SEGMENT, time_var := s.dt_max + DT_SEGMENT - s.dt })
  else (false, s)

def Loop.run : Nat → Loop → Option Loop
  | 0, _ => none
  | turns + 1, s => if s.turn.1 then Loop.run turns s.turn.2 else some s.turn.2

/-- The loop that chooses the AMASS level, and what it leaves of the timer ticks. -/
def amass_level : Nat → Nat → Nat × Nat
  | 0, timerTicks => (0, timerTicks)
  | levels + 1, timerTicks =>
    if timerTicks < amassThreshold then (0, timerTicks)
    else
      let (level, timerTicks) := amass_level levels (timerTicks >>> 1)
      (level + 1, timerTicks)

/-- A segment, with its steps before the AMASS shift. -/
structure Segment where
  steps : Nat
  n_step : Nat
  amass_level : Nat
  isrPeriod : Nat
  deriving DecidableEq

/-- The steps of the segment, their rate, and what is kept for the next one. -/
def Loop.finish (s : Loop) : Segment × Prep :=
  let p := s.prep
  let step_dist_remaining := p.step_per_mm * s.mm_remaining
  let n_steps_remaining := ⌈step_dist_remaining⌉
  let last_n_steps_remaining := ⌈p.steps_remaining⌉
  let n_step := (last_n_steps_remaining - n_steps_remaining).toNat % 2 ^ 16
  let dt := s.dt + p.dt_remainder
  let inv_rate := dt / (last_n_steps_remaining - step_dist_remaining)
  let timerTicks := ⌈fStepperTimer * 60 * inv_rate⌉₊ % 2 ^ 32
  let (level, timerTicks) := amass_level maxAmassLevel timerTicks
  ({ steps := n_step, n_step := (n_step <<< level) % 2 ^ 16, amass_level := level
     isrPeriod := if timerTicks > 0xffff then 0xffff else timerTicks },
    { p with
      millimeters := s.mm_remaining
      steps_remaining := n_steps_remaining
      dt_remainder := (n_steps_remaining - step_dist_remaining) * inv_rate })

/-- `prep_buffer` for one segment. -/
def prep_segment (turns : Nat) (p : Prep) : Option (Segment × Prep) := (Loop.run turns (Loop.start p)).map Loop.finish

/-- The segments of a block outside of a feed hold, and what is kept behind them. The planner may have its
profile computed again between two segments: each profile is listed with the speed that it begins with. -/
inductive Prepared (b : Block) : List (ℝ × Target) → List Segment → Prep → Prop where
  | load (p : Prep) (t : Target) : Prepared b [(√b.entry_speed_sqr, t)] [] (p.load b t)
  | recalculate {profiles : List (ℝ × Target)} {segments : List Segment} {p : Prep} (t : Target)
      (h : Prepared b profiles segments p) (hmm : 0 < p.millimeters) :
      Prepared b (profiles ++ [(p.current_speed, t)]) segments (p.recalculate t)
  | segment {profiles : List (ℝ × Target)} {segments : List Segment} {p q : Prep} {segment : Segment} {turns : Nat}
      (h : Prepared b profiles segments p) (hmm : 0 < p.millimeters)
      (hsegment : prep_segment turns p = some (segment, q)) : Prepared b profiles (segments ++ [segment]) q

end

variable {s : Loop}

theorem DT_SEGMENT_pos : 0 < DT_SEGMENT := by
  unfold DT_SEGMENT
  norm_num

section Ramps

/-- The distance of a ramp that slows down from `speed` for a time. -/
def slowing_distance (acceleration speed time : ℝ) : ℝ := time * (speed - 0.5 * (acceleration * time))

/-- The distance of a ramp that speeds up from `speed` for a time. -/
def speeding_distance (acceleration speed time : ℝ) : ℝ := time * (speed + 0.5 * (acceleration * time))

/-- The loop at the end of a ramp. `time_var` reckons with the whole distance of the segment, as the code does. -/
def Loop.junction (s : Loop) (mm_remaining time_var current_speed : ℝ) (ramp_type : Ramp) : Loop :=
  { s with mm_remaining, time_var, prep := { s.prep with ramp_type, current_speed } }

/-- The loop in the middle of a ramp, which takes the time that it is given. -/
def Loop.along (s : Loop) (mm_remaining current_speed : ℝ) : Loop :=
  { s with mm_remaining, prep := { s.prep with current_speed } }

theorem ramp_override (hramp : s.prep.ramp_type = .DECEL_OVERRIDE) :
    (s.prep.accelerate_until ≤
        s.mm_remaining - slowing_distance s.prep.acceleration s.prep.current_speed s.time_var ∧
      0 < slowing_distance s.prep.acceleration s.prep.current_speed s.time_var ∧
      s.ramp = s.along (s.mm_remaining - slowing_distance s.prep.acceleration s.prep.current_speed s.time_var)
        (s.prep.current_speed - s.prep.acceleration * s.time_var)) ∨
    ((s.mm_remaining - slowing_distance s.prep.acceleration s.prep.current_speed s.time_var <
          s.prep.accelerate_until ∨
        slowing_distance s.prep.acceleration s.prep.current_speed s.time_var ≤ 0) ∧
      s.ramp = s.junction s.prep.accelerate_until
        (2 * (s.prep.millimeters - s.prep.accelerate_until) / (s.prep.current_speed + s.prep.maximum_speed))
        s.prep.maximum_speed .CRUISE) := by
  obtain ⟨⟨mm, a, rem, steps, per, req, ramp, complete, cur, vmax, exit, A, D⟩, dt_max, dt, t, left, minimum⟩ := s
  cases hramp
  unfold Loop.ramp
  dsimp only
  split
  case isTrue hend => exact .inr ⟨hend, rfl⟩
  case isFalse hend => exact .inl ⟨not_lt.mp fun h => hend (.inl h), not_le.mp fun h => hend (.inr h), rfl⟩

theorem ramp_accel (hramp : s.prep.ramp_type = .ACCEL) :
    (s.prep.accelerate_until ≤
        s.mm_remaining - speeding_distance s.prep.acceleration s.prep.current_speed s.time_var ∧
      s.ramp = s.along (s.mm_remaining - speeding_distance s.prep.acceleration s.prep.current_speed s.time_var)
        (s.prep.current_speed + s.prep.acceleration * s.time_var)) ∨
    (s.mm_remaining - speeding_distance s.prep.acceleration s.prep.current_speed s.time_var <
        s.prep.accelerate_until ∧
      s.ramp = s.junction s.prep.accelerate_until
        (2 * (s.prep.millimeters - s.prep.accelerate_until) / (s.prep.current_speed + s.prep.maximum_speed))
        s.prep.maximum_speed (if s.prep.accelerate_until = s.prep.decelerate_after then .DECEL else .CRUISE)) := by
  obtain ⟨⟨mm, a, rem, steps, per, req, ramp, complete, cur, vmax, exit, A, D⟩, dt_max, dt, t, left, minimum⟩ := s
  cases hramp
  unfold Loop.ramp
  dsimp only
  split
  case isTrue hend => exact .inr ⟨hend, rfl⟩
  case isFalse hend => exact .inl ⟨not_lt.mp hend, rfl⟩

theorem ramp_cruise (hramp : s.prep.ramp_type = .CRUISE) :
    (s.prep.decelerate_after ≤ s.mm_remaining - s.prep.maximum_speed * s.time_var ∧
      s.ramp = s.along (s.mm_remaining - s.prep.maximum_speed * s.time_var) s.prep.current_speed) ∨
    (s.mm_remaining - s.prep.maximum_speed * s.time_var < s.prep.decelerate_after ∧
      s.ramp = s.junction s.prep.decelerate_after
        ((s.mm_remaining - s.prep.decelerate_after) / s.prep.maximum_speed) s.prep.current_speed .DECEL) := by
  obtain ⟨⟨mm, a, rem, steps, per, req, ramp, complete, cur, vmax, exit, A, D⟩, dt_max, dt, t, left, minimum⟩ := s
  cases hramp
  unfold Loop.ramp
  dsimp only
  split
  case isTrue hend => exact .inr ⟨hend, rfl⟩
  case isFalse hend => exact .inl ⟨not_lt.mp hend, rfl⟩

theorem ramp_decel (hramp : s.prep.ramp_type = .DECEL) :
    (s.prep.acceleration * s.time_var < s.prep.current_speed ∧
      s.prep.mm_complete <
        s.mm_remaining - slowing_distance s.prep.acceleration s.prep.current_speed s.time_var ∧
      s.ramp = s.along (s.mm_remaining - slowing_distance s.prep.acceleration s.prep.current_speed s.time_var)
        (s.prep.current_speed - s.prep.acceleration * s.time_var)) ∨
    ((s.prep.current_speed ≤ s.prep.acceleration * s.time_var ∨
        s.mm_remaining - slowing_distance s.prep.acceleration s.prep.current_speed s.time_var ≤
          s.prep.mm_complete) ∧
      s.ramp = s.junction s.prep.mm_complete
        (2 * (s.mm_remaining - s.prep.mm_complete) / (s.prep.current_speed + s.prep.exit_speed))
        s.prep.exit_speed .DECEL) := by
  obtain ⟨⟨mm, a, rem, steps, per, req, ramp, complete, cur, vmax, exit, A, D⟩, dt_max, dt, t, left, minimum⟩ := s
  cases hramp
  unfold Loop.ramp
  dsimp only
  split
  case isTrue hmore => exact .inl ⟨hmore.1, hmore.2, rfl⟩
  case isFalse hmore =>
    rw [not_and_or, not_lt, not_lt] at hmore
    exact .inr ⟨hmore, rfl⟩

end Ramps

section Turn

/-- The clock of the loop behind a ramp: what is left of the time of the segment is what the next one is given. -/
inductive Turned (s : Loop) : Bool → Loop → Prop where
  | junction (h : s.dt + s.ramp.time_var < s.dt_max) (hmore : s.ramp.prep.mm_complete < s.ramp.mm_remaining) :
      Turned s true { s with
        prep := s.ramp.prep, mm_remaining := s.ramp.mm_remaining
        dt := s.dt + s.ramp.time_var, time_var := s.dt_max - (s.dt + s.ramp.time_var) }
  | longer (h : s.dt_max ≤ s.dt + s.ramp.time_var) (hshort : s.minimum_mm < s.ramp.mm_remaining)
      (hmore : s.ramp.prep.mm_complete < s.ramp.mm_remaining) :
      Turned s true { s with
        prep := s.ramp.prep, mm_remaining := s.ramp.mm_remaining
        dt := s.dt + s.ramp.time_var, dt_max := s.dt_max + DT_SEGMENT
        time_var := s.dt_max + DT_SEGMENT - (s.dt + s.ramp.time_var) }
  | complete (r : Loop)
      (hr : r.mm_remaining = s.ramp.mm_remaining ∧ r.prep = s.ramp.prep ∧ r.dt = s.dt + s.ramp.time_var)
      (hend : s.ramp.mm_remaining ≤ s.ramp.prep.mm_complete ∨
        (s.dt_max ≤ s.dt + s.ramp.time_var ∧ s.ramp.mm_remaining ≤ s.minimum_mm)) : Turned s false r

/-- The ramps leave the clock and the block alone. -/
theorem ramp_frame (s : Loop) : s.ramp.dt = s.dt ∧ s.ramp.dt_max = s.dt_max ∧ s.ramp.minimum_mm = s.minimum_mm ∧
    s.ramp.prep = { s.prep with
      ramp_type := s.ramp.prep.ramp_type, current_speed := s.ramp.prep.current_speed } := by
  cases hramp : s.prep.ramp_type with
  | DECEL_OVERRIDE =>
    obtain ⟨-, -, heq⟩ | ⟨-, heq⟩ := ramp_override hramp
    all_goals
      rw [heq]
      exact ⟨rfl, rfl, rfl, rfl⟩
  | ACCEL =>
    obtain ⟨-, heq⟩ | ⟨-, heq⟩ := ramp_accel hramp
    all_goals
      rw [heq]
      exact ⟨rfl, rfl, rfl, rfl⟩
  | CRUISE =>
    obtain ⟨-, heq⟩ | ⟨-, heq⟩ := ramp_cruise hramp
    all_goals
      rw [heq]
      exact ⟨rfl, rfl, rfl, rfl⟩
  | DECEL =>
    obtain ⟨-, -, heq⟩ | ⟨-, heq⟩ := ramp_decel hramp
    all_goals
      rw [heq]
      exact ⟨rfl, rfl, rfl, rfl⟩

theorem turn_cases (s : Loop) : Turned s s.turn.1 s.turn.2 := by
  have hramp : s.ramp = { s.ramp with
      dt := s.dt, dt_max := s.dt_max, minimum_mm := s.minimum_mm } := by
    obtain ⟨hdt, hmax, hmin, -⟩ := ramp_frame s
    rw [← hdt, ← hmax, ← hmin]
  unfold Loop.turn
  rw [hramp]
  dsimp only
  by_cases hless : s.dt + s.ramp.time_var < s.dt_max
  · rw [if_pos hless]
    dsimp only
    by_cases hmore : s.ramp.prep.mm_complete < s.ramp.mm_remaining
    · rw [decide_eq_true hmore]
      exact .junction hless hmore
    · rw [decide_eq_false hmore]
      exact .complete _ ⟨rfl, rfl, rfl⟩ (.inl (not_lt.mp hmore))
  · rw [if_neg hless]
    by_cases hshort : s.minimum_mm < s.ramp.mm_remaining
    · rw [if_pos hshort]
      dsimp only
      by_cases hmore : s.ramp.prep.mm_complete < s.ramp.mm_remaining
      · rw [decide_eq_true hmore]
        exact .longer (not_lt.mp hless) hshort hmore
      · rw [decide_eq_false hmore]
        exact .complete _ ⟨rfl, rfl, rfl⟩ (.inl (not_lt.mp hmore))
    · rw [if_neg hshort]
      exact .complete _ ⟨rfl, rfl, rfl⟩ (.inr ⟨not_lt.mp hless, not_lt.mp hshort⟩)

theorem turn_prep (s : Loop) : s.turn.2.prep = s.ramp.prep := by
  have hcases := turn_cases s
  generalize s.turn.1 = more at hcases
  generalize s.turn.2 = t at hcases ⊢
  cases hcases with
  | junction => rfl
  | longer => rfl
  | complete _ hr => exact hr.2.1

end Turn

section Ends

/-- The loop comes to an end. -/
def Loop.Ends (s : Loop) : Prop := ∃ turns r, s.run turns = some r

/-- What is left of the time of the segment is what the next ramp is given. -/
def Loop.Timed (s : Loop) : Prop := s.time_var = s.dt_max - s.dt

/-- A turn ends the loop, or hands on to the next one. A ramp that takes the time that it is given leaves the next
turn a whole `DT_SEGMENT`. -/
theorem ends_of_turn (htimed : s.Timed)
    (hnext : ∀ t : Loop, t.Timed → t.prep = s.ramp.prep → t.mm_remaining = s.ramp.mm_remaining →
      (s.ramp.time_var = s.time_var → t.time_var = DT_SEGMENT) →
      s.ramp.prep.mm_complete < s.ramp.mm_remaining → t.Ends) : s.Ends := by
  have hcases := turn_cases s
  by_cases hmore : s.turn.1 = true
  · have hends : s.turn.2.Ends := by
      rw [hmore] at hcases
      unfold Loop.Timed at htimed
      generalize s.turn.2 = t at hcases ⊢
      cases hcases with
      | junction h hmore =>
        refine hnext _ rfl rfl rfl (fun htime => ?_) hmore
        linarith
      | longer h hshort hmore =>
        refine hnext _ rfl rfl rfl (fun htime => ?_) hmore
        dsimp only
        linarith
    obtain ⟨turns, r, hrun⟩ := hends
    exact ⟨turns + 1, r, by rw [Loop.run, if_pos hmore, hrun]⟩
  · exact ⟨1, s.turn.2, by rw [Loop.run, if_neg hmore]⟩

/-- A loop comes to an end if every turn that does not end it takes one off a nonnegative measure. -/
theorem ends_of_measure {P : Loop → Prop} (measure : Loop → ℝ)
    (hturn : ∀ s, P s → (∀ t, P t → 0 ≤ measure t → measure t ≤ measure s - 1 → t.Ends) → s.Ends)
    (hs : P s) : s.Ends := by
  have hbounded : ∀ turns : ℕ, ∀ s, P s → measure s ≤ turns → s.Ends := by
    intro turns
    induction turns with
    | zero =>
      intro s hs hle
      refine hturn s hs fun t ht hnonneg hless => ?_
      rw [Nat.cast_zero] at hle
      linarith
    | succ turns ih =>
      intro s hs hle
      refine hturn s hs fun t ht hnonneg hless => ih t ht ?_
      rw [Nat.cast_succ] at hle
      linarith
  obtain ⟨turns, hturns⟩ := exists_nat_ge (measure s)
  exact hbounded turns s hs hturns

/-- The loop is on a ramp. -/
structure Loop.On (ramp : Ramp) (s : Loop) : Prop where
  timed : s.Timed
  ramp_type : s.prep.ramp_type = ramp
  acceleration_pos : 0 < s.prep.acceleration

theorem Loop.On.along {ramp : Ramp} {mm speed : ℝ} {t : Loop} (hs : s.On ramp) (htimed : t.Timed)
    (hprep : t.prep = (s.along mm speed).prep) : t.On ramp := by
  refine ⟨htimed, ?_, ?_⟩
  · rw [hprep]
    exact hs.ramp_type
  · rw [hprep]
    exact hs.acceleration_pos

theorem Loop.On.junction {ramp next : Ramp} {mm time speed : ℝ} {t : Loop} (hs : s.On ramp) (htimed : t.Timed)
    (hprep : t.prep = (s.junction mm time speed next).prep) : t.On next := by
  refine ⟨htimed, ?_, ?_⟩
  · rw [hprep]
    rfl
  · rw [hprep]
    exact hs.acceleration_pos

/-- Each `DT_SEGMENT` of a deceleration takes its part of the speed. -/
theorem ends_of_decel (hs : s.On .DECEL) : s.Ends := by
  have hturn : ∀ s : Loop, s.On .DECEL →
      (∀ t : Loop, t.On .DECEL ∧ t.time_var = DT_SEGMENT → 0 ≤ t.prep.current_speed →
        t.prep.acceleration = s.prep.acceleration →
        t.prep.current_speed = s.prep.current_speed - s.prep.acceleration * s.time_var → t.Ends) → s.Ends := by
    intro s hs hnext
    refine ends_of_turn hs.timed fun t htimed hprep hmm hsame hmore => ?_
    obtain ⟨hfast, -, heq⟩ | ⟨-, heq⟩ := ramp_decel hs.ramp_type
    · rw [heq] at hprep hsame
      refine hnext t ⟨hs.along htimed hprep, hsame rfl⟩ ?_ ?_ ?_
      · rw [hprep]
        exact sub_nonneg.mpr hfast.le
      · rw [hprep]
        rfl
      · rw [hprep]
        rfl
    · rw [heq] at hmore
      exact absurd hmore (lt_irrefl _)
  refine hturn s hs fun t ht _ _ _ => ?_
  refine ends_of_measure (P := fun s => s.On .DECEL ∧ s.time_var = DT_SEGMENT)
    (fun s => s.prep.current_speed / (s.prep.acceleration * DT_SEGMENT)) ?_ ht
  intro s hs hnext
  have hpart : 0 < s.prep.acceleration * DT_SEGMENT := mul_pos hs.1.acceleration_pos DT_SEGMENT_pos
  refine hturn s hs.1 fun t ht hspeed hacceleration heq => hnext t ht ?_ ?_
  · rw [hacceleration]
    exact div_nonneg hspeed hpart.le
  · rw [hacceleration, heq, hs.2, sub_div, div_self hpart.ne']

/-- Each `DT_SEGMENT` of a cruise takes its part of the distance to the deceleration. -/
theorem ends_of_cruise (hs : s.On .CRUISE) (hmaximum : 0 < s.prep.maximum_speed) : s.Ends := by
  have hturn : ∀ s : Loop, s.On .CRUISE ∧ 0 < s.prep.maximum_speed →
      (∀ t : Loop, (t.On .CRUISE ∧ 0 < t.prep.maximum_speed) ∧ t.time_var = DT_SEGMENT →
        0 ≤ t.mm_remaining - t.prep.decelerate_after → t.prep.maximum_speed = s.prep.maximum_speed →
        t.mm_remaining - t.prep.decelerate_after =
          s.mm_remaining - s.prep.decelerate_after - s.prep.maximum_speed * s.time_var → t.Ends) → s.Ends := by
    rintro s ⟨hs, hmaximum⟩ hnext
    refine ends_of_turn hs.timed fun t htimed hprep hmm hsame hmore => ?_
    obtain ⟨hfar, heq⟩ | ⟨-, heq⟩ := ramp_cruise hs.ramp_type
    · rw [heq] at hprep hsame hmm
      refine hnext t ⟨⟨hs.along htimed hprep, ?_⟩, hsame rfl⟩ ?_ ?_ ?_
      · rw [hprep]
        exact hmaximum
      · rw [hprep, hmm]
        exact sub_nonneg.mpr hfar
      · rw [hprep]
        rfl
      · rw [hprep, hmm]
        exact sub_right_comm _ _ _
    · rw [heq] at hprep
      exact ends_of_decel (hs.junction htimed hprep)
  refine hturn s ⟨hs, hmaximum⟩ fun t ht _ _ _ => ?_
  refine ends_of_measure (P := fun s => (s.On .CRUISE ∧ 0 < s.prep.maximum_speed) ∧ s.time_var = DT_SEGMENT)
    (fun s => (s.mm_remaining - s.prep.decelerate_after) / (s.prep.maximum_speed * DT_SEGMENT)) ?_ ht
  intro s hs hnext
  have hpart : 0 < s.prep.maximum_speed * DT_SEGMENT := mul_pos hs.1.2 DT_SEGMENT_pos
  refine hturn s hs.1 fun t ht hdistance hspeed heq => hnext t ht ?_ ?_
  · rw [hspeed]
    exact div_nonneg hdistance hpart.le
  · rw [hspeed, heq, hs.2, sub_div, div_self hpart.ne']

/-- Each `DT_SEGMENT` of an acceleration takes at least the distance that it takes from rest. -/
theorem ends_of_accel (hs : s.On .ACCEL) (hmaximum : 0 < s.prep.maximum_speed) (hspeed : 0 ≤ s.prep.current_speed)
    (htime : s.time_var = DT_SEGMENT) : s.Ends := by
  refine ends_of_measure (P := fun s => (s.On .ACCEL ∧ 0 < s.prep.maximum_speed) ∧
      0 ≤ s.prep.current_speed ∧ s.time_var = DT_SEGMENT)
    (fun s => (s.mm_remaining - s.prep.accelerate_until) /
      (DT_SEGMENT * (0.5 * (s.prep.acceleration * DT_SEGMENT)))) ?_ ⟨⟨hs, hmaximum⟩, hspeed, htime⟩
  rintro s ⟨⟨hs, hmaximum⟩, hspeed, htime⟩ hnext
  have hacceleration := hs.acceleration_pos
  have hsegment := DT_SEGMENT_pos
  have hpart : 0 < DT_SEGMENT * (0.5 * (s.prep.acceleration * DT_SEGMENT)) := by positivity
  refine ends_of_turn hs.timed fun t htimed hprep hmm hsame hmore => ?_
  obtain ⟨hfar, heq⟩ | ⟨-, heq⟩ := ramp_accel hs.ramp_type
  · rw [heq] at hprep hsame hmm
    refine hnext t ⟨⟨hs.along htimed hprep, ?_⟩, ?_, hsame rfl⟩ ?_ ?_
    · rw [hprep]
      exact hmaximum
    · rw [hprep]
      change 0 ≤ s.prep.current_speed + s.prep.acceleration * s.time_var
      rw [htime]
      positivity
    · rw [hprep, hmm]
      exact div_nonneg (sub_nonneg.mpr hfar) hpart.le
    · rw [hprep, hmm]
      change (s.mm_remaining - speeding_distance _ _ _ - s.prep.accelerate_until) /
        (DT_SEGMENT * (0.5 * (s.prep.acceleration * DT_SEGMENT))) ≤ _
      rw [htime, speeding_distance, div_le_iff₀ hpart, sub_mul, one_mul, div_mul_cancel₀ _ hpart.ne']
      have hrest : 0 ≤ DT_SEGMENT * s.prep.current_speed := by positivity
      linarith [mul_add DT_SEGMENT s.prep.current_speed (0.5 * (s.prep.acceleration * DT_SEGMENT))]
  · rw [heq] at hprep
    have hnext := hs.junction htimed hprep
    split at hnext
    case isTrue => exact ends_of_decel hnext
    case isFalse =>
      refine ends_of_cruise hnext ?_
      rw [hprep]
      exact hmaximum

/-- Each `DT_SEGMENT` of an override takes its part of the speed, for as long as it takes the motion forward. -/
theorem ends_of_override (hs : s.On .DECEL_OVERRIDE) (hmaximum : 0 < s.prep.maximum_speed)
    (htime : s.time_var = DT_SEGMENT) : s.Ends := by
  refine ends_of_measure (P := fun s => (s.On .DECEL_OVERRIDE ∧ 0 < s.prep.maximum_speed) ∧ s.time_var = DT_SEGMENT)
    (fun s => s.prep.current_speed / (s.prep.acceleration * DT_SEGMENT) + 1) ?_ ⟨⟨hs, hmaximum⟩, htime⟩
  rintro s ⟨⟨hs, hmaximum⟩, htime⟩ hnext
  have hpart : 0 < s.prep.acceleration * DT_SEGMENT := mul_pos hs.acceleration_pos DT_SEGMENT_pos
  refine ends_of_turn hs.timed fun t htimed hprep hmm hsame hmore => ?_
  obtain ⟨-, hforward, heq⟩ | ⟨-, heq⟩ := ramp_override hs.ramp_type
  · rw [heq] at hprep hsame
    have hspeed : t.prep.current_speed / (t.prep.acceleration * DT_SEGMENT) =
        s.prep.current_speed / (s.prep.acceleration * DT_SEGMENT) - 1 := by
      rw [hprep]
      change (s.prep.current_speed - s.prep.acceleration * s.time_var) / (s.prep.acceleration * DT_SEGMENT) = _
      rw [htime, sub_div, div_self hpart.ne']
    refine hnext t ⟨⟨hs.along htimed hprep, ?_⟩, hsame rfl⟩ ?_ ?_
    · rw [hprep]
      exact hmaximum
    · rw [htime, slowing_distance] at hforward
      have hfast := (mul_pos_iff_of_pos_left DT_SEGMENT_pos).mp hforward
      rw [hspeed, sub_add_cancel]
      exact div_nonneg (by linarith) hpart.le
    · rw [hspeed]
      linarith
  · rw [heq] at hprep
    refine ends_of_cruise (hs.junction htimed hprep) ?_
    rw [hprep]
    exact hmaximum

end Ends

end DuneWeaver.Segments
