import DuneWeaver.Lookahead.Path
import DuneWeaver.Transition.Run
import Mathlib.Data.Rat.Defs
import Mathlib.Algebra.Order.Ring.Rat

namespace DuneWeaver

/-- No feed is slower than this, in mm/min. -/
def MINIMUM_FEED_RATE : ℚ := 1

def MINIMUM_JUNCTION_SPEED : ℚ := 0

def SOME_LARGE_VALUE : ℚ := 10 ^ 38

structure PlMotion where
  rapidMotion : Bool := false
  systemMotion : Bool := false
  noFeedOverride : Bool := false
  inverseTime : Bool := false
  deriving DecidableEq

/-- `plan_block_t`, as far as the planner reads it, in exact arithmetic. -/
structure PlanBlock where
  motion : PlMotion
  entry_speed_sqr : ℚ
  max_entry_speed_sqr : ℚ
  acceleration : ℚ
  millimeters : ℚ
  max_junction_speed_sqr : ℚ
  rapid_rate : ℚ
  programmed_rate : ℚ
  acceleration_nonneg : 0 ≤ acceleration
  millimeters_nonneg : 0 ≤ millimeters
  max_entry_nonneg : 0 ≤ max_entry_speed_sqr
  max_junction_nonneg : 0 ≤ max_junction_speed_sqr
  deriving DecidableEq

/-- The corner between a line and the one before it. The speed limit of a proper corner
comes from the two directions. -/
inductive Junction where
  | reversal
  | straight
  | corner (speed_sqr : ℚ)

/-- `max_junction_speed_sqr` of a block that does not start from rest. -/
def Junction.max_speed_sqr : Junction → ℚ
  | reversal => MINIMUM_JUNCTION_SPEED * MINIMUM_JUNCTION_SPEED
  | straight => SOME_LARGE_VALUE
  | corner speed_sqr => max (MINIMUM_JUNCTION_SPEED * MINIMUM_JUNCTION_SPEED) speed_sqr

theorem Junction.max_speed_sqr_nonneg (junction : Junction) : 0 ≤ junction.max_speed_sqr := by
  cases junction with
  | reversal => exact mul_self_nonneg _
  | straight => exact pow_nonneg (by decide) 38
  | corner speed_sqr => exact (mul_self_nonneg _).trans (le_max_left _ _)

/-- What `plan_buffer_line` is given, and what it computes from the positions and the
axis limits: the direction of the line enters only through the values here. -/
structure PlanLine where
  motion : PlMotion
  feed_rate : ℚ
  is_jog : Bool := false
  unhomed_axes : Bool := false
  step_event_count : Nat
  millimeters : ℚ
  acceleration : ℚ
  rapid_rate : ℚ
  junction : Junction
  acceleration_nonneg : 0 ≤ acceleration
  millimeters_nonneg : 0 ≤ millimeters

/-- A line on which the square of the speed can change by 2 for each of its millimeters. -/
def PlanLine.of (rapidMotion : Bool) (rate millimeters : ℚ) (junction : Junction) (h : 0 ≤ millimeters) :
    PlanLine where
  motion := { rapidMotion := rapidMotion }
  feed_rate := rate
  step_event_count := 100
  millimeters := millimeters
  acceleration := 1
  rapid_rate := rate
  junction := junction
  acceleration_nonneg := by decide
  millimeters_nonneg := h

/-- The planner: its ring buffer as the list of blocks from the tail on, the planned
pointer as a distance from the tail, and what it shares with the stepper. `pl_block` says
that the stepper has the tail loaded, and `recalculate` that it will load the tail again,
in the middle. -/
structure Planner where
  planner_blocks : Nat
  blocks : List PlanBlock := []
  planned : Nat := 0
  previous_nominal_speed : ℚ := 0
  f_override : Nat := 100
  r_override : Nat := 100
  pl_block : Bool := false
  recalculate : Bool := false
  current_speed_sqr : ℚ := 0

namespace PlanBlock

/-- What the square of the speed can change by on the way through the block. -/
def reach (block : PlanBlock) : ℚ := 2 * block.acceleration * block.millimeters

theorem reach_nonneg (block : PlanBlock) : 0 ≤ block.reach :=
  mul_nonneg (mul_nonneg (by decide) block.acceleration_nonneg) block.millimeters_nonneg

/-- `plan_compute_profile_nominal_speed`. -/
def nominal_speed (f_override r_override : Nat) (block : PlanBlock) : ℚ :=
  let nominal_speed :=
    if block.motion.rapidMotion then block.programmed_rate * (r_override / 100)
    else
      let nominal_speed :=
        if ¬ block.motion.noFeedOverride then block.programmed_rate * (f_override / 100) else block.programmed_rate
      if nominal_speed > block.rapid_rate then block.rapid_rate else nominal_speed
  if nominal_speed > MINIMUM_FEED_RATE then nominal_speed else MINIMUM_FEED_RATE

/-- The fastest the block may be entered, given the nominal speeds of both sides. -/
def max_entry (block : PlanBlock) (nominal_speed prev_nominal_speed : ℚ) : ℚ :=
  let speed_sqr :=
    if nominal_speed > prev_nominal_speed then prev_nominal_speed * prev_nominal_speed
    else nominal_speed * nominal_speed
  if speed_sqr > block.max_junction_speed_sqr then block.max_junction_speed_sqr else speed_sqr

theorem max_entry_nonneg' (block : PlanBlock) (nominal_speed prev_nominal_speed : ℚ) :
    0 ≤ block.max_entry nominal_speed prev_nominal_speed := by
  unfold max_entry
  dsimp only
  split_ifs
  · exact block.max_junction_nonneg
  · exact mul_self_nonneg _
  · exact block.max_junction_nonneg
  · exact mul_self_nonneg _

/-- `plan_compute_profile_parameters`. -/
def compute_profile_parameters (block : PlanBlock) (nominal_speed prev_nominal_speed : ℚ) : PlanBlock :=
  { block with
    max_entry_speed_sqr := block.max_entry nominal_speed prev_nominal_speed
    max_entry_nonneg := block.max_entry_nonneg' nominal_speed prev_nominal_speed }

/-- The block with another entry speed. -/
def entered (block : PlanBlock) (speed_sqr : ℚ) : PlanBlock := { block with entry_speed_sqr := speed_sqr }

@[simp] theorem entered_entry (block : PlanBlock) (v : ℚ) : (block.entered v).entry_speed_sqr = v := rfl

@[simp] theorem entered_max (block : PlanBlock) (v : ℚ) :
    (block.entered v).max_entry_speed_sqr = block.max_entry_speed_sqr := rfl

@[simp] theorem entered_reach (block : PlanBlock) (v : ℚ) : (block.entered v).reach = block.reach := rfl

end PlanBlock

/-- The entry speed of the first of the blocks, the exit speed of what is before them. -/
def exit_speed_sqr (blocks : List PlanBlock) : ℚ := (blocks.head?.map (·.entry_speed_sqr)).getD 0

/-- The reverse pass of `planner_recalculate` over the blocks behind the planned pointer. The
last block is always planned anew; the others are passed over at their maximum. -/
def reverse_pass : List PlanBlock → List PlanBlock
  | [] => []
  | [current] => [current.entered (min current.max_entry_speed_sqr current.reach)]
  | current :: next :: rest =>
    let planned := reverse_pass (next :: rest)
    if current.entry_speed_sqr ≠ current.max_entry_speed_sqr then
      let entry_speed_sqr := exit_speed_sqr planned + current.reach
      if entry_speed_sqr < current.max_entry_speed_sqr then current.entered entry_speed_sqr :: planned
      else current.entered current.max_entry_speed_sqr :: planned
    else current :: planned

/-- The forward pass, on from the block `current`, over the blocks from `block_index` on. It
also moves the planned pointer. -/
def forward_pass (current : PlanBlock) (block_index planned : Nat) : List PlanBlock → Nat × List PlanBlock
  | [] => (planned, [])
  | next :: rest =>
    let entry_speed_sqr := current.entry_speed_sqr + current.reach
    let full := current.entry_speed_sqr < next.entry_speed_sqr ∧ entry_speed_sqr < next.entry_speed_sqr
    let planned := if full then block_index else planned
    let next := if full then next.entered entry_speed_sqr else next
    let planned := if next.entry_speed_sqr = next.max_entry_speed_sqr then block_index else planned
    let result := forward_pass next (block_index + 1) planned rest
    (result.1, next :: result.2)

namespace Planner

/-- The stepper is in the middle of the tail block. -/
def executing (p : Planner) : Bool := p.pl_block || p.recalculate

/-- Give the tail another entry speed. -/
def enter_tail (p : Planner) (speed_sqr : ℚ) : Planner :=
  match p.blocks with
  | [] => p
  | tail :: rest => { p with blocks := tail.entered speed_sqr :: rest }

/-- `Stepper::update_plan_block_parameters`: a block that the stepper has loaded is from now
on entered at the speed the stepper has reached in it. -/
def update_plan_block_parameters (p : Planner) : Planner :=
  if p.pl_block then { p.enter_tail p.current_speed_sqr with recalculate := true, pl_block := false }
  else p

/-- `planner_recalculate`. -/
def planner_recalculate (p : Planner) : Planner :=
  if (p.blocks.drop p.planned).length ≤ 1 then p
  else
    let p := if p.planned = 0 then p.update_plan_block_parameters else p
    match p.blocks.drop p.planned with
    | [] => p
    | current :: rest =>
      let result := forward_pass current (p.planned + 1) p.planned (reverse_pass rest)
      { p with planned := result.1, blocks := p.blocks.take p.planned ++ current :: result.2 }

/-- `plan_cycle_reinitialize`. -/
def cycle_reinit (p : Planner) : Planner :=
  planner_recalculate { p.update_plan_block_parameters with planned := 0 }

/-- The loop of `plan_update_velocity_profile_parameters`, with the nominal speed it ends
with. -/
def update_profiles (f_override r_override : Nat) (prev_nominal_speed : ℚ) :
    List PlanBlock → ℚ × List PlanBlock
  | [] => (prev_nominal_speed, [])
  | block :: rest =>
    let nominal_speed := block.nominal_speed f_override r_override
    let result := update_profiles f_override r_override nominal_speed rest
    (result.1, block.compute_profile_parameters nominal_speed prev_nominal_speed :: result.2)

/-- `plan_update_velocity_profile_parameters`. -/
def plan_update_velocity_profile_parameters (p : Planner) : Planner :=
  let result := update_profiles p.f_override p.r_override SOME_LARGE_VALUE p.blocks
  let p := { p with previous_nominal_speed := result.1, blocks := result.2 }
  if p.blocks = [] then p else p.cycle_reinit

/-- `plan_discard_current_block`, and with it the stepper lets go of the block. -/
def plan_discard_current_block (p : Planner) : Planner :=
  match p.blocks with
  | [] => p
  | _ :: rest =>
    { p with
      blocks := rest
      planned := if p.planned = 0 then 0 else p.planned - 1
      pl_block := false
      recalculate := false }

/-- `plan_check_full_buffer`. One place of the ring stays empty. -/
def plan_check_full_buffer (p : Planner) : Bool := decide (p.planner_blocks ≤ p.blocks.length + 1)

/-- The block of a line before its speeds are limited. -/
def new_block (p : Planner) (line : PlanLine) : PlanBlock where
  motion := line.motion
  entry_speed_sqr := 0
  max_entry_speed_sqr := 0
  acceleration := line.acceleration
  millimeters := line.millimeters
  max_junction_speed_sqr := if p.blocks = [] then 0 else line.junction.max_speed_sqr
  rapid_rate := line.rapid_rate
  programmed_rate :=
    if line.motion.rapidMotion then line.rapid_rate
    else if line.motion.inverseTime then line.feed_rate * line.millimeters
    else line.feed_rate
  acceleration_nonneg := line.acceleration_nonneg
  millimeters_nonneg := line.millimeters_nonneg
  max_entry_nonneg := le_rfl
  max_junction_nonneg := by
    split_ifs
    · exact le_rfl
    · exact line.junction.max_speed_sqr_nonneg

/-- `plan_buffer_line`. The block of a system motion stays outside the queue. -/
def plan_buffer_line (p : Planner) (line : PlanLine) : Planner :=
  if ¬ line.motion.systemMotion ∧ ¬ line.is_jog ∧ line.unhomed_axes then p
  else if line.step_event_count = 0 then p
  else if line.motion.systemMotion then p
  else
    let block := p.new_block line
    let nominal_speed := block.nominal_speed p.f_override p.r_override
    let block := block.compute_profile_parameters nominal_speed p.previous_nominal_speed
    planner_recalculate
      { p with previous_nominal_speed := nominal_speed, blocks := p.blocks ++ [block] }

/-- What the stepper does while it prepares segments of the tail block: it loads the block,
in a hold with its own speed in place of the planned one, and moves on in it. -/
structure Prep where
  exit_speed_sqr : Option ℚ := none
  millimeters : ℚ
  speed_sqr : ℚ
  millimeters_nonneg : 0 ≤ millimeters

/-- Load the tail block, if it is not loaded, and leave it with less to go. -/
def prep_buffer (p : Planner) (prep : Prep) : Planner :=
  match p.blocks with
  | [] => p
  | tail :: rest =>
    let tail :=
      if ¬ p.executing then tail.entered (prep.exit_speed_sqr.getD tail.entry_speed_sqr) else tail
    { p with
      blocks :=
        { tail with millimeters := prep.millimeters, millimeters_nonneg := prep.millimeters_nonneg } :: rest
      pl_block := true
      recalculate := false
      current_speed_sqr := prep.speed_sqr }

end Planner

/-- What happens to the planner. -/
inductive PlannerEvent where
  | append (line : PlanLine)
  | discard
  | override (f_override r_override : Nat)
  | cycle_reinit
  | prep (prep : Planner.Prep)

/-- One event. A line waits, in `mc_move_motors`, until the buffer has room. -/
def Planner.step (p : Planner) : PlannerEvent → Planner
  | .append line => if p.plan_check_full_buffer then p else p.plan_buffer_line line
  | .discard => p.plan_discard_current_block
  | .override f_override r_override =>
    plan_update_velocity_profile_parameters { p with f_override := f_override, r_override := r_override }
  | .cycle_reinit => p.cycle_reinit
  | .prep prep => p.prep_buffer prep

end DuneWeaver