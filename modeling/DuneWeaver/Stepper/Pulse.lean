import Mathlib.Algebra.Group.Nat.Defs
import DuneWeaver.Transition.Run

namespace DuneWeaver

/-- Each level of the step smoothing doubles the interrupt rate. -/
def maxAmassLevel : Nat := 3

/-- `st_block_t`, the Bresenham data of a planner block. -/
structure StBlock (axis : Type*) where
  steps : axis → Nat
  step_event_count : Nat
  direction_bits : Nat

/-- `segment_t`. -/
structure Segment where
  n_step : Nat
  isrPeriod : Nat
  st_block_index : Nat
  amass_level : Nat
  deriving DecidableEq

variable {axis : Type*}

/-- How `prep_buffer` sets up the data of a planner block, in arithmetic modulo
`word`: `2 ^ 32` in the source, and 0 for arithmetic without a bound. -/
def StBlock.prepared (word : Nat) (pl_block : StBlock axis) : StBlock axis where
  steps axis := (pl_block.steps axis <<< maxAmassLevel) % word
  step_event_count := (pl_block.step_event_count <<< maxAmassLevel) % word
  direction_bits := pl_block.direction_bits

/-- The segment `prep_buffer` makes of `count` steps of the block it prepares. -/
def prep_segment (st_block_index count level isrPeriod : Nat) : Segment where
  n_step := ((count % 2 ^ 16) <<< level) % 2 ^ 16
  isrPeriod := if isrPeriod > 0xffff then 0xffff else isrPeriod
  st_block_index := st_block_index
  amass_level := level

/-- The step interrupt's data and its two buffers. `segments` is the segment buffer
from its tail on; `exec_segment` stays at the tail until it is complete. -/
structure Stepper (axis : Type*) where
  awake : Bool := false
  counter : axis → Nat := fun _ => 0
  steps : axis → Nat := fun _ => 0
  step_outbits : axis → Bool := fun _ => false
  dir_outbits : Nat := 0
  step_count : Nat := 0
  timerPeriod : Nat := 0
  exec_block_index : Nat := 0
  exec_segment : Option Segment := none
  segments : List Segment := []
  st_block_buffer : Nat → StBlock axis

/-- What one interrupt does to the world outside. -/
structure Pulse (axis : Type*) where
  stepped : axis → Bool := fun _ => false
  dir_outbits : Nat := 0
  cycleStop : Bool := false
  again : Bool

namespace Stepper

/-- `Stepper::reset`. -/
def reset (st_block_buffer : Nat → StBlock axis) : Stepper axis where
  st_block_buffer := st_block_buffer

/-- The data of the block being executed. -/
def exec_block (st : Stepper axis) : StBlock axis := st.st_block_buffer st.exec_block_index

/-- Load a segment. Only a segment of another block starts the counters anew. -/
def begin_segment (segment : Segment) (st : Stepper axis) : Stepper axis :=
  let st := { st with
    exec_segment := some segment, timerPeriod := segment.isrPeriod, step_count := segment.n_step }
  let st :=
    if st.exec_block_index ≠ segment.st_block_index then
      { st with
        exec_block_index := segment.st_block_index
        counter := fun _ => (st.st_block_buffer segment.st_block_index).step_event_count >>> 1 }
    else st
  { st with
    dir_outbits := st.exec_block.direction_bits
    steps := fun axis => st.exec_block.steps axis >>> segment.amass_level }

/-- The segment to execute, if there is one or one can be popped. -/
def next_segment (st : Stepper axis) : Option (Stepper axis) :=
  match st.exec_segment, st.segments with
  | some _, _ => some st
  | none, segment :: _ => some (st.begin_segment segment)
  | none, [] => none

/-- One axis of the Bresenham line algorithm. -/
def bresenham (word step_event_count counter steps : Nat) : Nat × Bool :=
  let counter := (counter + steps) % word
  if counter > step_event_count then (counter - step_event_count, true) else (counter, false)

/-- `step_count--`, which goes round in 16 bits: a segment of no step runs for 65536
interrupts. -/
def decremented (step_count : Nat) : Nat := if step_count = 0 then 0xffff else step_count - 1

/-- Execute one step of the segment and discard it when it is complete. -/
def execute (word : Nat) (st : Stepper axis) : Stepper axis :=
  let next axis := bresenham word st.exec_block.step_event_count (st.counter axis) (st.steps axis)
  let st := { st with
    counter := fun axis => (next axis).1
    step_outbits := fun axis => st.step_outbits axis || (next axis).2
    step_count := decremented st.step_count }
  if st.step_count = 0 then { st with exec_segment := none, segments := st.segments.tail } else st

def pulse_func (word : Nat) (st : Stepper axis) : Stepper axis × Pulse axis :=
  if ¬ st.awake then (st, { again := false })
  else
    let pulse : Pulse axis := { stepped := st.step_outbits, dir_outbits := st.dir_outbits, again := true }
    let st := { st with step_outbits := fun _ => false }
    match st.next_segment with
    | some st => (st.execute word, pulse)
    | none => ({ st with awake := false }, { pulse with cycleStop := true, again := false })

/-- The interrupt, and what the main task does in between: `prep_buffer` sets up the
data of a block and adds a segment. -/
inductive Move (axis : Type*) where
  | interrupt
  | wake_up
  | block (st_block_index : Nat) (pl_block : StBlock axis)
  | segment (segment : Segment)

def step (word : Nat) (st : Stepper axis) : Move axis → Stepper axis
  | .interrupt => (st.pulse_func word).1
  | .wake_up => { st with awake := true }
  | .block st_block_index pl_block =>
    { st with
      st_block_buffer := fun i => if i = st_block_index then pl_block.prepared word else st.st_block_buffer i }
  | .segment segment => { st with segments := st.segments ++ [segment] }

/-- The segments the main task adds. -/
def added (moves : List (Move axis)) : List Segment :=
  moves.filterMap fun
    | .segment segment => some segment
    | _ => none

section Segments

variable (st : Stepper axis)

@[simp] theorem begin_segment_exec_block_index (segment : Segment) :
    (st.begin_segment segment).exec_block_index = segment.st_block_index := by
  unfold begin_segment
  dsimp only
  split_ifs with hother
  · rfl
  · simpa using hother

@[simp] theorem begin_segment_exec_segment (segment : Segment) :
    (st.begin_segment segment).exec_segment = some segment := by
  unfold begin_segment
  dsimp only
  split_ifs <;> rfl

@[simp] theorem begin_segment_segments (segment : Segment) :
    (st.begin_segment segment).segments = st.segments := by
  unfold begin_segment
  dsimp only
  split_ifs <;> rfl

@[simp] theorem begin_segment_step_count (segment : Segment) :
    (st.begin_segment segment).step_count = segment.n_step := by
  unfold begin_segment
  dsimp only
  split_ifs <;> rfl

@[simp] theorem begin_segment_step_outbits (segment : Segment) :
    (st.begin_segment segment).step_outbits = st.step_outbits := by
  unfold begin_segment
  dsimp only
  split_ifs <;> rfl

@[simp] theorem begin_segment_st_block_buffer (segment : Segment) :
    (st.begin_segment segment).st_block_buffer = st.st_block_buffer := by
  unfold begin_segment
  dsimp only
  split_ifs <;> rfl

/-- The increments are those of the block the segment belongs to. -/
theorem begin_segment_steps (segment : Segment) (a : axis) :
    (st.begin_segment segment).steps a =
      (st.st_block_buffer segment.st_block_index).steps a >>> segment.amass_level := by
  unfold begin_segment exec_block
  dsimp only
  split_ifs with hother
  · rfl
  · rw [not_not.mp hother]

/-- The counters go on through the segments of one block. -/
theorem begin_segment_counter (segment : Segment) (a : axis) :
    (st.begin_segment segment).counter a =
      if st.exec_block_index = segment.st_block_index then st.counter a
      else (st.st_block_buffer segment.st_block_index).step_event_count >>> 1 := by
  unfold begin_segment
  dsimp only
  split_ifs with hother hsame <;> first | rfl | contradiction

@[simp] theorem execute_exec_block_index (word : Nat) :
    (st.execute word).exec_block_index = st.exec_block_index := by
  unfold execute
  dsimp only
  split_ifs <;> rfl

@[simp] theorem execute_st_block_buffer (word : Nat) :
    (st.execute word).st_block_buffer = st.st_block_buffer := by
  unfold execute
  dsimp only
  split_ifs <;> rfl

@[simp] theorem execute_steps (word : Nat) : (st.execute word).steps = st.steps := by
  unfold execute
  dsimp only
  split_ifs <;> rfl

theorem execute_counter (word : Nat) (a : axis) : (st.execute word).counter a =
    (bresenham word st.exec_block.step_event_count (st.counter a) (st.steps a)).1 := by
  unfold execute
  dsimp only
  split_ifs <;> rfl

theorem execute_step_outbits (word : Nat) (a : axis) : (st.execute word).step_outbits a =
    (st.step_outbits a || (bresenham word st.exec_block.step_event_count (st.counter a) (st.steps a)).2) := by
  unfold execute
  dsimp only
  split_ifs <;> rfl

/-- A segment with more than one step left goes on. -/
theorem execute_goes_on (word : Nat) (h : 1 < st.step_count) :
    (st.execute word).step_count = st.step_count - 1 ∧ (st.execute word).exec_segment = st.exec_segment ∧
      (st.execute word).segments = st.segments := by
  have hleft : decremented st.step_count = st.step_count - 1 := if_neg (by omega)
  unfold execute
  dsimp only
  rw [hleft, if_neg (by omega)]
  exact ⟨rfl, rfl, rfl⟩

/-- The last step of a segment discards it. -/
theorem execute_completes (word : Nat) (h : st.step_count = 1) :
    (st.execute word).exec_segment = none ∧ (st.execute word).segments = st.segments.tail := by
  have hleft : decremented st.step_count = 0 := by rw [h]; rfl
  unfold execute
  dsimp only
  rw [hleft, if_pos rfl]
  exact ⟨rfl, rfl⟩

/-- Whether a segment is complete or not, the rest of the buffer stays. -/
theorem execute_segments (word : Nat) :
    ((st.execute word).exec_segment = st.exec_segment ∧ (st.execute word).segments = st.segments) ∨
      ((st.execute word).exec_segment = none ∧ (st.execute word).segments = st.segments.tail) := by
  unfold execute
  dsimp only
  split_ifs
  · exact .inr ⟨rfl, rfl⟩
  · exact .inl ⟨rfl, rfl⟩

end Segments

end Stepper

end DuneWeaver
