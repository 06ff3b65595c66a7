import DuneWeaver.Planner.Block
import DuneWeaver.RingBuffer.Fifo
import Mathlib.Logic.Function.Basic

open RingIndex

namespace DuneWeaver

/-- A cell of `block_buffer`. -/
structure RingBlock extends PlanBlock where
  line_number : Int

/-- The planner with its ring buffer: `block_buffer` and its four indices, the planner
variables that a speed depends on, and what it shares with the stepper, whose `pl_block`
points at a cell. -/
structure PlannerRing where
  planner_blocks : Nat
  block_buffer : Nat → RingBlock
  block_buffer_tail : Nat := 0
  block_buffer_head : Nat := 0
  next_buffer_head : Nat := 1
  block_buffer_planned : Nat := 0
  previous_nominal_speed : ℚ := 0
  f_override : Nat := 100
  r_override : Nat := 100
  pl_block : Option Nat := none
  recalculate : Bool := false
  current_speed_sqr : ℚ := 0

namespace PlannerRing

def plan_next_block_index (p : PlannerRing) (block_index : Nat) : Nat := next p.planner_blocks block_index

def plan_prev_block_index (p : PlannerRing) (block_index : Nat) : Nat := prev p.planner_blocks block_index

def store (p : PlannerRing) (block_index : Nat) (block : RingBlock) : PlannerRing :=
  { p with block_buffer := Function.update p.block_buffer block_index block }

/-- Give a block another entry speed. -/
def enter (p : PlannerRing) (block_index : Nat) (speed_sqr : ℚ) : PlannerRing :=
  p.store block_index { p.block_buffer block_index with
    toPlanBlock := (p.block_buffer block_index).entered speed_sqr }

/-- `Stepper::update_plan_block_parameters`. -/
def update_plan_block_parameters (p : PlannerRing) : PlannerRing :=
  match p.pl_block with
  | none => p
  | some block_index =>
    { p.enter block_index p.current_speed_sqr with recalculate := true, pl_block := none }

/-- The entry speed the reverse pass gives the block `current` before `next`. -/
def slow_down (p : PlannerRing) (current next : Nat) : PlannerRing :=
  let block := p.block_buffer current
  if block.entry_speed_sqr ≠ block.max_entry_speed_sqr then
    let entry_speed_sqr := (p.block_buffer next).entry_speed_sqr + block.reach
    if entry_speed_sqr < block.max_entry_speed_sqr then p.enter current entry_speed_sqr
    else p.enter current block.max_entry_speed_sqr
  else p

/-- The loop of the reverse pass, from the last block but one back to the planned pointer.
There is no result when the turns that are left do not get it there. -/
def reverse_loop : Nat → Nat → Nat → PlannerRing → Option PlannerRing
  | turns, block_index, current, p =>
    if block_index = p.block_buffer_planned then some p
    else
      match turns with
      | 0 => none
      | turns + 1 =>
        let next := current
        let current := block_index
        let block_index := p.plan_prev_block_index block_index
        let p := if block_index = p.block_buffer_tail then p.update_plan_block_parameters else p
        reverse_loop turns block_index current (p.slow_down current next)

/-- The entry speed the forward pass gives the block `next` behind `current`, and where it
leaves the planned pointer. -/
def speed_up (p : PlannerRing) (current next : Nat) : PlannerRing :=
  let block := p.block_buffer current
  let entry_speed_sqr := block.entry_speed_sqr + block.reach
  let p :=
    if block.entry_speed_sqr < (p.block_buffer next).entry_speed_sqr ∧
        entry_speed_sqr < (p.block_buffer next).entry_speed_sqr then
      { p.enter next entry_speed_sqr with block_buffer_planned := next }
    else p
  if (p.block_buffer next).entry_speed_sqr = (p.block_buffer next).max_entry_speed_sqr then
    { p with block_buffer_planned := next }
  else p

/-- The loop of the forward pass, up to the head. -/
def forward_loop : Nat → Nat → Nat → PlannerRing → Option PlannerRing
  | turns, block_index, next, p =>
    if block_index = p.block_buffer_head then some p
    else
      match turns with
      | 0 => none
      | turns + 1 =>
        let current := next
        let next := block_index
        let p := p.speed_up current next
        forward_loop turns (p.plan_next_block_index block_index) next p

/-- The reverse pass of `planner_recalculate`, from the last block in the buffer on. -/
def reverse_pass (p : PlannerRing) (last : Nat) : Option PlannerRing :=
  let block := p.block_buffer last
  let p := p.enter last (min block.max_entry_speed_sqr block.reach)
  let block_index := p.plan_prev_block_index last
  if block_index = p.block_buffer_planned then
    if block_index = p.block_buffer_tail then some p.update_plan_block_parameters else some p
  else reverse_loop p.planner_blocks block_index last p

def planner_recalculate (p : PlannerRing) : Option PlannerRing :=
  if p.block_buffer_head = p.block_buffer_tail then some p
  else
    let block_index := p.plan_prev_block_index p.block_buffer_head
    if block_index = p.block_buffer_planned then some p
    else
      (p.reverse_pass block_index).bind fun p =>
        forward_loop p.planner_blocks (p.plan_next_block_index p.block_buffer_planned) p.block_buffer_planned p

def plan_reset_buffer (p : PlannerRing) : PlannerRing :=
  { p with block_buffer_tail := 0, block_buffer_head := 0, next_buffer_head := 1, block_buffer_planned := 0 }

def plan_reset (p : PlannerRing) : PlannerRing := { p with previous_nominal_speed := 0 }.plan_reset_buffer

def plan_discard_current_block (p : PlannerRing) : PlannerRing :=
  if p.block_buffer_head ≠ p.block_buffer_tail then
    let block_index := p.plan_next_block_index p.block_buffer_tail
    let p := if p.block_buffer_tail = p.block_buffer_planned then { p with block_buffer_planned := block_index } else p
    { p with block_buffer_tail := block_index }
  else p

def plan_check_full_buffer (p : PlannerRing) : Bool := p.block_buffer_tail = p.next_buffer_head

def plan_get_block_buffer_available (p : PlannerRing) : Nat :=
  if p.block_buffer_head ≥ p.block_buffer_tail then
    p.planner_blocks - 1 - (p.block_buffer_head - p.block_buffer_tail)
  else p.block_buffer_tail - p.block_buffer_head - 1

/-- `plan_cycle_reinitialize`. -/
def cycle_reinit (p : PlannerRing) : Option PlannerRing :=
  let p := p.update_plan_block_parameters
  { p with block_buffer_planned := p.block_buffer_tail }.planner_recalculate

/-- The loop of `plan_update_velocity_profile_parameters`. -/
def profile_loop : Nat → Nat → ℚ → PlannerRing → Option PlannerRing
  | turns, block_index, prev_nominal_speed, p =>
    if block_index = p.block_buffer_head then some { p with previous_nominal_speed := prev_nominal_speed }
    else
      match turns with
      | 0 => none
      | turns + 1 =>
        let block := p.block_buffer block_index
        let nominal_speed := block.nominal_speed p.f_override p.r_override
        let p := p.store block_index
          { block with toPlanBlock := block.compute_profile_parameters nominal_speed prev_nominal_speed }
        profile_loop turns (p.plan_next_block_index block_index) nominal_speed p

def plan_update_velocity_profile_parameters (p : PlannerRing) : Option PlannerRing :=
  (profile_loop p.planner_blocks p.block_buffer_tail SOME_LARGE_VALUE p).bind fun p =>
    if p.block_buffer_tail ≠ p.block_buffer_head then p.cycle_reinit else some p

private theorem nothing_nonneg : (0 : ℚ) ≤ 0 := le_rfl

/-- A block that has been zeroed and given the data that need no computation. -/
def blank (line : PlanLine) (line_number : Int) : RingBlock where
  motion := line.motion
  entry_speed_sqr := 0
  max_entry_speed_sqr := 0
  acceleration := 0
  millimeters := 0
  max_junction_speed_sqr := 0
  rapid_rate := 0
  programmed_rate := 0
  acceleration_nonneg := nothing_nonneg
  millimeters_nonneg := nothing_nonneg
  max_entry_nonneg := nothing_nonneg
  max_junction_nonneg := nothing_nonneg
  line_number := line_number

/-- The block of a line before its speeds are limited. -/
def new_block (p : PlannerRing) (line : PlanLine) (line_number : Int) : RingBlock where
  motion := line.motion
  entry_speed_sqr := 0
  max_entry_speed_sqr := 0
  acceleration := line.acceleration
  millimeters := line.millimeters
  max_junction_speed_sqr :=
    if p.block_buffer_head = p.block_buffer_tail ∨ line.motion.systemMotion then 0 else line.junction.max_speed_sqr
  rapid_rate := line.rapid_rate
  programmed_rate :=
    if line.motion.rapidMotion then line.rapid_rate
    else if line.motion.inverseTime then line.feed_rate * line.millimeters
    else line.feed_rate
  acceleration_nonneg := line.acceleration_nonneg
  millimeters_nonneg := line.millimeters_nonneg
  max_entry_nonneg := nothing_nonneg
  max_junction_nonneg := by
    split_ifs
    · exact le_rfl
    · exact line.junction.max_speed_sqr_nonneg
  line_number := line_number

/-- `plan_buffer_line`. The block is built in the cell at the head, whatever becomes of it. -/
def plan_buffer_line (p : PlannerRing) (line : PlanLine) (line_number : Int) : Option PlannerRing :=
  if ¬ line.motion.systemMotion ∧ ¬ line.is_jog ∧ line.unhomed_axes then
    some (p.store p.block_buffer_head (blank line line_number))
  else if line.step_event_count = 0 then some (p.store p.block_buffer_head (blank line line_number))
  else
    let block := p.new_block line line_number
    if line.motion.systemMotion then some (p.store p.block_buffer_head block)
    else
      let nominal_speed := block.nominal_speed p.f_override p.r_override
      let block :=
        { block with toPlanBlock := block.compute_profile_parameters nominal_speed p.previous_nominal_speed }
      let p := { p.store p.block_buffer_head block with previous_nominal_speed := nominal_speed }
      let p := { p with block_buffer_head := p.next_buffer_head }
      planner_recalculate { p with next_buffer_head := p.plan_next_block_index p.block_buffer_head }

/-- The stepper loads a block, that of a system motion or the current one, in a hold with its
own speed, and moves on in it. -/
def prep_buffer (p : PlannerRing) (executeSysMotion : Bool) (prep : Planner.Prep) : PlannerRing :=
  let pl_block :=
    match p.pl_block with
    | some block_index => some block_index
    | none =>
      if executeSysMotion then some p.block_buffer_head
      else if p.block_buffer_head = p.block_buffer_tail then none
      else some p.block_buffer_tail
  match pl_block with
  | none => p
  | some block_index =>
    let block := p.block_buffer block_index
    let loaded :=
      if p.pl_block = none ∧ ¬ p.recalculate then
        block.entered (prep.exit_speed_sqr.getD block.entry_speed_sqr)
      else block.toPlanBlock
    let block :=
      { block with
        toPlanBlock := { loaded with millimeters := prep.millimeters, millimeters_nonneg := prep.millimeters_nonneg } }
    { p.store block_index block with
      pl_block := some block_index
      recalculate := false
      current_speed_sqr := prep.speed_sqr }

end PlannerRing

/-- What happens to the planner and its ring. -/
inductive RingEvent where
  | append (line : PlanLine) (line_number : Int)
  | discard
  | reset
  | override (f_override r_override : Nat)
  | cycle_reinit
  | prep (executeSysMotion : Bool) (prep : Planner.Prep)

/-- One event. A line waits, in `mc_move_motors`, until the buffer has room; the stepper lets
go of a block that it discards. -/
def PlannerRing.step (p : PlannerRing) : RingEvent → Option PlannerRing
  | .append line line_number => if p.plan_check_full_buffer then some p else p.plan_buffer_line line line_number
  | .discard => some { p with pl_block := none, recalculate := false }.plan_discard_current_block
  | .reset => some p.plan_reset
  | .override f_override r_override =>
    plan_update_velocity_profile_parameters { p with f_override := f_override, r_override := r_override }
  | .cycle_reinit => p.cycle_reinit
  | .prep executeSysMotion prep => some (p.prep_buffer executeSysMotion prep)

end DuneWeaver
