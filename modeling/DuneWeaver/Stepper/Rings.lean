import DuneWeaver.RingBuffer.Fifo
import DuneWeaver.Stepper.Pulse

open RingIndex

namespace DuneWeaver

/-- A planner block: one of the queue, or one that a system motion, homing or parking, has built at
the head of the planner buffer. Each kind is numbered as it is planned. -/
inductive PlannedBlock where
  | queued (n : Nat)
  | system (n : Nat)
  deriving DecidableEq

/-- A cell of `segment_buffer`, with the planner block that its steps are from. -/
structure BlockSegment where
  n_step : Nat
  st_block_index : Nat
  block : PlannedBlock
  deriving DecidableEq

/-- The flags that decide what `prep_buffer` loads. -/
structure PrepFlag where
  recalculate : Bool := false
  holdPartialBlock : Bool := false
  parking : Bool := false
  deriving DecidableEq

/-- The segment ring and the ring of block data, with what the step interrupt and `prep_buffer`
keep about them. A slot of `st_block_buffer` is known by the block whose data it has, `exec_block`
is the block the Bresenham counters were started for, and of the planner there is how many blocks
it has queued and which is the current one. `moving` is set while `Parking::moveto` waits. -/
structure StepperRings where
  segments : Nat
  segment_buffer : Nat → BlockSegment
  st_block_buffer : Nat → Option PlannedBlock
  segment_buffer_tail : Nat := 0
  segment_buffer_head : Nat := 0
  segment_next_head : Nat := 1
  exec_segment : Option Nat := none
  exec_block_index : Nat := 0
  exec_block : Option PlannedBlock := none
  step_count : Nat := 0
  pl_block : Option PlannedBlock := none
  st_block_index : Nat := 0
  last_st_block_index : Nat := 0
  recalculate_flag : PrepFlag := {}
  executeHold : Bool := false
  endMotion : Bool := false
  executeSysMotion : Bool := false
  moving : Bool := false
  planned : Nat := 0
  current : Nat := 0
  system_motions : Nat := 0

/-- How far a segment gets: short of `mm_complete`, up to it inside the block, or to the end of
the block. -/
inductive SegmentEnd where
  | short
  | forced
  | block_end
  deriving DecidableEq

/-- What `prep_buffer` computes for a segment. -/
structure SegmentCut where
  n_step : Nat
  level : Nat
  reaches : SegmentEnd
  deriving DecidableEq

namespace StepperRings

/-- The segments of the ring, the one being executed at the front: the interrupt leaves it in the
ring until it is complete. -/
def queued (s : StepperRings) : List BlockSegment :=
  contents s.segments s.segment_buffer s.segment_buffer_tail s.segment_buffer_head

/-- The step of both indices of the segment ring. -/
def next_segment_index (s : StepperRings) (i : Nat) : Nat := if i ≥ s.segments - 1 then 0 else i + 1

/-- `next_block_index`: there is one slot less than there are segments. -/
def next_block_index (s : StepperRings) (block_index : Nat) : Nat := next (s.segments - 1) block_index

/-- The interrupt takes a segment. -/
def begin_segment (s : StepperRings) : StepperRings :=
  let segment := s.segment_buffer s.segment_buffer_tail
  let s := { s with exec_segment := some s.segment_buffer_tail, step_count := segment.n_step }
  if s.exec_block_index ≠ segment.st_block_index then
    { s with
      exec_block_index := segment.st_block_index
      exec_block := s.st_block_buffer segment.st_block_index }
  else s

/-- The interrupt counts a step, and after the last one lets go of the segment. -/
def count_step (s : StepperRings) : StepperRings :=
  let s := { s with step_count := Stepper.decremented s.step_count }
  if s.step_count = 0 then
    { s with exec_segment := none, segment_buffer_tail := s.next_segment_index s.segment_buffer_tail }
  else s

def pulse_func (s : StepperRings) : StepperRings :=
  match s.exec_segment with
  | some _ => s.count_step
  | none => if s.segment_buffer_head ≠ s.segment_buffer_tail then s.begin_segment.count_step else s

/-- The planner's answer to `prep_buffer`: the system motion or the current block. -/
def queried_block (s : StepperRings) : Option PlannedBlock :=
  if s.executeSysMotion then some (.system s.system_motions)
  else if s.current < s.planned then some (.queued s.current)
  else none

/-- A pass of `prep_buffer` without a block gets one. It is loaded into the next slot unless it is the
one in hand, which is to be recomputed only. -/
def load_block (s : StepperRings) : StepperRings :=
  match s.queried_block with
  | none => s
  | some block =>
    let s := { s with pl_block := some block }
    if s.recalculate_flag.recalculate then
      if s.recalculate_flag.parking then
        { s with recalculate_flag := { s.recalculate_flag with recalculate := false } }
      else { s with recalculate_flag := {} }
    else
      let st_block_index := s.next_block_index s.st_block_index
      { s with
        st_block_index := st_block_index
        st_block_buffer := Function.update s.st_block_buffer st_block_index (some block) }

/-- The end of a hold, for now: outside of parking the block is marked as partly executed. -/
def end_motion (s : StepperRings) : StepperRings :=
  { s with
    endMotion := true
    recalculate_flag := { s.recalculate_flag with
      holdPartialBlock := s.recalculate_flag.holdPartialBlock || !s.recalculate_flag.parking } }

def plan_discard_current_block (s : StepperRings) : StepperRings :=
  if s.current < s.planned then { s with current := s.current + 1 } else s

/-- Write the cell at the head of the segment ring. -/
def fill_segment (s : StepperRings) (segment : BlockSegment) : StepperRings :=
  { s with segment_buffer := Function.update s.segment_buffer s.segment_buffer_head segment }

/-- Hand that cell on to the interrupt. -/
def commit_segment (s : StepperRings) : StepperRings :=
  { s with
    segment_buffer_head := s.segment_next_head
    segment_next_head := s.next_segment_index s.segment_next_head }

/-- The exit conditions that `prep_buffer` checks after a segment. -/
def check_exit (s : StepperRings) : SegmentEnd → StepperRings
  | .short => s
  | .forced => s.end_motion
  | .block_end =>
    if s.executeSysMotion then { s with endMotion := true }
    else { s with pl_block := none }.plan_discard_current_block

/-- The rest of the pass: a segment of `pl_block`. In a hold one without a step is not handed on. -/
def prep_segment (s : StepperRings) (cut : SegmentCut) : StepperRings :=
  match s.pl_block with
  | none => s
  | some block =>
    let n_step := cut.n_step % 2 ^ 16
    if n_step = 0 ∧ s.executeHold then
      (s.fill_segment { n_step, st_block_index := s.st_block_index, block }).end_motion
    else
      let n_step := (n_step <<< cut.level) % 2 ^ 16
      let s := (s.fill_segment { n_step, st_block_index := s.st_block_index, block }).commit_segment
      s.check_exit cut.reaches

/-- The loop of `prep_buffer`, with what its passes compute. -/
def prep_buffer (s : StepperRings) : List SegmentCut → StepperRings
  | [] => s
  | cut :: cuts =>
    if s.endMotion ∨ s.segment_buffer_tail = s.segment_next_head then s
    else
      let s := if s.pl_block = none then s.load_block else s
      if s.pl_block = none then s else (s.prep_segment cut).prep_buffer cuts

def update_plan_block_parameters (s : StepperRings) : StepperRings :=
  if s.pl_block ≠ none then
    { s with recalculate_flag := { s.recalculate_flag with recalculate := true }, pl_block := none }
  else s

def parking_setup_buffer (s : StepperRings) : StepperRings :=
  let s := if s.recalculate_flag.holdPartialBlock then { s with last_st_block_index := s.st_block_index } else s
  { s with
    recalculate_flag := { s.recalculate_flag with parking := true, recalculate := false }
    pl_block := none }

def parking_restore_buffer (s : StepperRings) : StepperRings :=
  let s :=
    if s.recalculate_flag.holdPartialBlock then
      { s with
        st_block_index := s.last_st_block_index
        recalculate_flag := { s.recalculate_flag with holdPartialBlock := true, recalculate := true } }
    else { s with recalculate_flag := {} }
  { s with pl_block := none }

/-- What `protocol_do_cycle_stop` does in a hold. -/
def cycle_stop (s : StepperRings) : StepperRings :=
  { s.update_plan_block_parameters with executeHold := false, executeSysMotion := false }

/-- `Stepper::init` with buffers as they are. -/
def start (segments : Nat) (segment_buffer : Nat → BlockSegment) (st_block_buffer : Nat → Option PlannedBlock) :
    StepperRings where
  segments := segments
  segment_buffer := segment_buffer
  st_block_buffer := st_block_buffer

/-- `Stepper::reset` and the step control that goes with it, with `plan_reset` where `flush` is set.
The blocks are numbered on. -/
def reset (s : StepperRings) (flush : Bool) : StepperRings :=
  { start s.segments s.segment_buffer s.st_block_buffer with
    planned := s.planned
    current := if flush then s.planned else s.current
    system_motions := s.system_motions }

/-- The interrupt has come to the end of the ring. -/
def at_rest (s : StepperRings) : Bool := s.segment_buffer_head = s.segment_buffer_tail && s.exec_segment.isNone

/-- What happens to the rings. A pass of `prep_buffer` is two events, the interrupt may come between
them, and so may any other event but those of a motion that waits for the rings to be at rest. -/
inductive RingsEvent where
  | pulse
  | load
  | cut (cut : SegmentCut)
  | update
  | control (executeHold endMotion : Bool)
  | plan_line
  | reset (flush : Bool)
  | homing
  | moveto
  | moved (cuts : List SegmentCut)

/-- `prep_buffer` goes on to fill the ring. -/
def fills (s : StepperRings) : Bool := !s.endMotion && s.segment_buffer_tail ≠ s.segment_next_head

/-- One event. `Parking::moveto` starts a motion at rest, and ends it with the cycle stop, which
`prep_buffer` is called after before `moveto` sees it. -/
def step (s : StepperRings) : RingsEvent → StepperRings
  | .pulse => s.pulse_func
  | .load => if s.fills ∧ s.pl_block = none then s.load_block else s
  | .cut cut => if s.fills then s.prep_segment cut else s
  | .update => s.update_plan_block_parameters
  | .control executeHold endMotion => { s with executeHold, endMotion }
  | .plan_line => { s with planned := s.planned + 1 }
  | .reset flush => s.reset flush
  | .homing =>
    if s.moving then s
    else
      { s with
        system_motions := s.system_motions + 1, executeSysMotion := true, executeHold := false, endMotion := false }
  | .moveto =>
    if s.moving ∨ s.executeSysMotion ∨ ¬ s.at_rest then s
    else
      { s with
        system_motions := s.system_motions + 1, executeSysMotion := true, endMotion := false
        moving := true }.parking_setup_buffer
  | .moved cuts =>
    if s.moving ∧ s.at_rest then { (s.cycle_stop.prep_buffer cuts).parking_restore_buffer with moving := false }
    else s

/-- The events of the passes of `prep_buffer`. -/
def passes (cuts : List SegmentCut) : List RingsEvent := cuts.flatMap fun cut => [.load, .cut cut]

/-- Passes that change nothing go on to change nothing. -/
theorem run_passes_idle {s : StepperRings} (hload : s.step .load = s) (hcut : ∀ cut, s.step (.cut cut) = s)
    (cuts : List SegmentCut) : Transition.run step s (passes cuts) = s := by
  induction cuts with
  | nil => rfl
  | cons cut cuts ih =>
    change Transition.run step ((s.step .load).step (.cut cut)) (passes cuts) = s
    rw [hload, hcut]
    exact ih

theorem step_cut {s : StepperRings} (h : s.fills = true) (cut : SegmentCut) :
    s.step (.cut cut) = s.prep_segment cut := by
  rw [step, if_pos h]

theorem load_block_fills (s : StepperRings) : s.load_block.fills = s.fills := by
  unfold load_block
  cases s.queried_block with
  | none => rfl
  | some block =>
    dsimp only
    split_ifs <;> rfl

/-- Only without an answer from the planner is there no block after a load. -/
theorem load_block_pl_block {s : StepperRings} (h : s.load_block.pl_block = none) : s.load_block = s := by
  unfold load_block at h ⊢
  cases hquery : s.queried_block with
  | none => rfl
  | some block =>
    rw [hquery] at h
    dsimp only at h
    split_ifs at h

/-- `prep_buffer` is a run of its events. -/
theorem prep_buffer_eq_run (s : StepperRings) (cuts : List SegmentCut) :
    s.prep_buffer cuts = Transition.run step s (passes cuts) := by
  induction cuts generalizing s with
  | nil => rfl
  | cons cut cuts ih =>
    rw [prep_buffer]
    by_cases hfills : s.fills = true
    · have hgoes : ¬(s.endMotion = true ∨ s.segment_buffer_tail = s.segment_next_head) := by
        simpa [fills] using hfills
      rw [if_neg hgoes]
      have hload : s.step .load = if s.pl_block = none then s.load_block else s := by
        rw [step, hfills]
        simp only [true_and]
      have hloaded : (s.step .load).fills = true := by
        rw [hload]
        split
        · rw [load_block_fills, hfills]
        · exact hfills
      dsimp only
      rw [← hload]
      by_cases hblock : (s.step .load).pl_block = none
      · -- the planner has no block, and nothing changes any more
        have hsame : s.step .load = s := by
          rw [hload] at hblock ⊢
          split
          case isTrue hnone => rw [if_pos hnone] at hblock; exact load_block_pl_block hblock
          case isFalse => rfl
        have hidle : ∀ cut, s.step (.cut cut) = s := by
          intro cut
          rw [hsame] at hblock
          rw [step_cut hfills, prep_segment, hblock]
        rw [if_pos hblock, run_passes_idle hsame hidle (cut :: cuts), hsame]
      · rw [if_neg hblock, ih, ← step_cut hloaded]
        rfl
    · have hreturn : s.endMotion = true ∨ s.segment_buffer_tail = s.segment_next_head := by
        simpa [fills, Decidable.imp_iff_not_or] using hfills
      rw [if_pos hreturn]
      have hload : s.step .load = s := by simp [step, hfills]
      have hcut : ∀ cut, s.step (.cut cut) = s := by simp [step, hfills]
      exact (run_passes_idle hload hcut (cut :: cuts)).symm

end StepperRings

end DuneWeaver
