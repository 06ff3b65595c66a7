import DuneWeaver.Protocol.Rest
import Mathlib.Data.Rat.Defs

open Transition

namespace DuneWeaver

/-- The steps of the motions: those of the planner blocks that are not prepared yet,
those in the segment buffer, those that the motors have made, and, since a jog was queued, those
that were thrown away. `queued` is how many will have been made when it is complete, and `reset_left`
tells that a reset has found steps left since. -/
structure Steps where
  unprepared : Nat := 0
  prepared : Nat := 0
  executed : Nat := 0
  dropped : Nat := 0
  queued : Nat := 0
  reset_left : Bool := false
  deriving DecidableEq

namespace Steps

/-- `Stepper::prep_buffer` prepares some of the steps. -/
def prep (n : Nat) (c : Steps) : Steps :=
  { c with unprepared := c.unprepared - min n c.unprepared, prepared := c.prepared + min n c.unprepared }

/-- The interrupt makes a step. -/
def pulse (c : Steps) : Steps := { c with prepared := c.prepared - 1, executed := c.executed + 1 }

/-- A jog is queued behind all other steps. -/
def queue (n : Nat) (c : Steps) : Steps :=
  { c with
    unprepared := c.unprepared + n
    dropped := 0
    queued := c.executed + c.prepared + (c.unprepared + n)
    reset_left := false }

/-- `Stepper::reset` empties the segment buffer. -/
def halt (c : Steps) : Steps :=
  { c with prepared := 0, dropped := c.dropped + c.prepared, reset_left := c.reset_left || 0 < c.prepared }

/-- `plan_reset` and `Stepper::reset`. -/
def flush (c : Steps) : Steps :=
  { c with
    unprepared := 0
    prepared := 0
    dropped := c.dropped + (c.unprepared + c.prepared)
    reset_left := c.reset_left || 0 < c.unprepared + c.prepared }

/-- No step is lost track of: only a reset throws any away. -/
structure Conserved (c : Steps) : Prop where
  total : c.executed + c.prepared + c.unprepared + c.dropped = c.queued
  dropped : c.reset_left = true ↔ 0 < c.dropped

variable {c : Steps}

theorem Conserved.prep (h : c.Conserved) (n : Nat) : (c.prep n).Conserved := by
  have htotal := h.total
  refine ⟨?_, h.dropped⟩
  unfold Steps.prep
  dsimp only
  omega

theorem Conserved.pulse (h : c.Conserved) (hprepared : c.prepared > 0) : c.pulse.Conserved := by
  have htotal := h.total
  refine ⟨?_, h.dropped⟩
  unfold Steps.pulse
  dsimp only
  omega

theorem conserved_queue (c : Steps) (n : Nat) : (c.queue n).Conserved := by
  refine ⟨?_, iff_of_false Bool.false_ne_true (Nat.lt_irrefl 0)⟩
  unfold queue
  dsimp only
  omega

theorem Conserved.halt (h : c.Conserved) : c.halt.Conserved := by
  have htotal := h.total
  unfold Steps.halt
  refine ⟨?_, ?_⟩
  · dsimp only
    omega
  · dsimp only
    rw [Bool.or_eq_true, h.dropped, decide_eq_true_eq]
    omega

theorem Conserved.flush (h : c.Conserved) : c.flush.Conserved := by
  have htotal := h.total
  unfold Steps.flush
  refine ⟨?_, ?_⟩
  · dsimp only
    omega
  · dsimp only
    rw [Bool.or_eq_true, h.dropped, decide_eq_true_eq]
    omega

end Steps

def X_AXIS : Nat := 0
def Y_AXIS : Nat := 1

/-- What homing leaves behind: the axes that are marked unhomed, whether the table
was homed since boot, and the theta and rho that the motor positions were last set to. -/
@[ext] structure Marks where
  unhomed_axes : List Nat := []
  homed_since_boot : Bool := false
  mpos : ℚ × ℚ := (0, 0)
  deriving DecidableEq

/-- What crash homing takes from the configuration and the settings. -/
structure CrashConfig where
  theta_offset_rad : ℚ := 0
  must_home : Bool := true
  homingMask : List Nat := [X_AXIS, Y_AXIS]

/-- Where the main task stands in `protocol_run_crash_home`: before `$X`, before the
jog line, in the loop of `mc_move_motors` with the steps of the jog and whether they are the full
distance, at its test or inside `protocol_execute_realtime`, in the loop of
`protocol_buffer_synchronize`, and back, with the position declared or not. -/
inductive CrashPc where
  | called
  | jog
  | moving (steps : Nat) (full : Bool)
  | movingRealtime (steps : Nat) (full : Bool)
  | cycle
  | realtime
  | test
  | declared
  | aborted
  deriving DecidableEq

/-- Crash homing as it waits. `whole` tells that the jog was queued with its full
distance and `unlocked` that `$X` has cleared marks; `untouched` are the marks as all but crash
homing leave them. -/
structure CrashHome extends Drive, Marks, Steps where
  pc : CrashPc := .called
  whole : Bool := false
  unlocked : Bool := false
  untouched : Marks := {}
  deriving DecidableEq

/-- One step of one party: another task, a pin, the interrupt, or the main task on
its way. `unlock` and `line` say what becomes of `$X` and of the jog line: whether it is done, with
how many steps and whether they are the full distance, if it is not rejected. -/
inductive CrashTurn where
  | drive (turn : Drive.Turn)
  | pulse
  | prep (n : Nat)
  | rt_reset
  | unlock (unlocks : Bool)
  | line (jog : Option (Nat × Bool))
  | next (full_buffer : Bool)

namespace CrashHome

/-- The call, in whatever state the machine is. -/
def call (m : Drive) (marks : Marks) (unprepared prepared : Nat) : CrashHome :=
  let unprepared := if m.plan = [] then 0 else unprepared
  { m, marks with unprepared, prepared, queued := unprepared + prepared, untouched := marks }

/-- The main task is inside `protocol_execute_realtime`. -/
def pumps (s : CrashHome) : Bool :=
  match s.pc with
  | .movingRealtime _ _ => true
  | .realtime => true
  | _ => false

/-- The main task cannot leave `protocol_execute_realtime` yet. -/
def busy (s : CrashHome) : Bool := s.handling ∨ s.parking ∨ s.suspend ≠ {} ∧ ¬ s.abort

/-- The event that a turn handles, if it handles one. -/
def handles (s : CrashHome) : Drive.Turn → Option Signal
  | .handle _ => if s.handling then s.event_queue.head? else none
  | _ => none

/-- The handler resets the planner and the stepper: a stop in `Hold`, or the end of a
motion that has been canceled. -/
def flushes (s : CrashHome) (turn : Drive.Turn) : Bool :=
  match s.handles turn with
  | some .stopJob => s.state = .Hold
  | some .cycleStop => s.resets
  | _ => false

/-- The handler marks the axes unhomed. -/
def unhomes (s : CrashHome) (turn : Drive.Turn) : Bool :=
  match s.handles turn with
  | some (.alarm alarm) => alarm = .HardLimit ∨ alarm = .HardStop
  | _ => false

/-- `Homing::set_all_axes_unhomed`. -/
def set_all_axes_unhomed (c : CrashConfig) (s : CrashHome) : CrashHome :=
  if c.must_home then
    { s with
      unhomed_axes := c.homingMask
      unlocked := false
      untouched := { s.untouched with unhomed_axes := c.homingMask } }
  else s

/-- A turn of `protocol_execute_realtime`. -/
def attend (c : CrashConfig) (turn : Drive.Turn) (s : CrashHome) : CrashHome :=
  let t := if s.unhomes turn then s.set_all_axes_unhomed c else s
  { t with
    toDrive := s.toDrive.step turn
    toSteps := if s.flushes turn then s.toSteps.flush else s.toSteps }

/-- The states in which `protocol_exec_rt_system` reloads the segment buffer. -/
def reloads (s : CrashHome) : Bool :=
  match s.state with
  | .Cycle => true
  | .Hold => true
  | .SafetyDoor => true
  | .Homing => true
  | .Jog => true
  | _ => false

/-- `protocol_do_rt_reset`. -/
def protocol_do_rt_reset (s : CrashHome) : CrashHome :=
  let s :=
    if s.state = .Cycle ∨ s.state = .Jog ∨ s.step_control.executeHold ∨ s.step_control.executeSysMotion then
      { s with toSteps := s.toSteps.halt, awake := false, state := .Alarm }
    else if s.state = .Critical then { s with state := if s.unhomed_axes ≠ [] then .Alarm else .Idle }
    else if s.state ≠ .Alarm then { s with state := .Idle }
    else s
  { s with abort := true, unwind_cause := some .Reset }

/-- `protocol_auto_cycle_start`. -/
def protocol_auto_cycle_start (s : CrashHome) : CrashHome :=
  if s.plan ≠ [] ∧ s.state ≠ .Cycle ∧ s.state ≠ .Hold then
    { s with toDrive := s.toDrive.protocol_send_event .cycleStart }
  else s

/-- `protocol_execute_realtime` begins. -/
def protocol_execute_realtime (s : CrashHome) : CrashHome := { s with toDrive := s.toDrive.protocol_exec_rt_system }

/-- `$X`, where the state is `Alarm`. -/
def unlock (unlocks : Bool) (s : CrashHome) : CrashHome :=
  if s.state = .Alarm ∧ unlocks then
    { s with unhomed_axes := [], unlocked := s.unlocked ∨ s.unhomed_axes ≠ [], state := .Idle, pc := .jog }
  else { s with pc := .jog }

/-- The jog line, up to `mc_move_motors`. -/
def line (jog : Option (Nat × Bool)) (s : CrashHome) : CrashHome :=
  match jog with
  | some (steps, full) =>
    if s.state = .Idle ∨ s.state = .Jog then { s with inflight := some true, pc := .moving steps full }
    else { s with pc := .cycle }
  | none => { s with pc := .cycle }

/-- `plan_buffer_line`, unless the jog has been canceled in flight. A jog without a
step queues no block. -/
def plan_buffer_line (steps : Nat) (full : Bool) (s : CrashHome) : CrashHome :=
  if s.inflight = some true then
    { s with
      inflight := none
      plan := if steps = 0 then s.plan else s.plan ++ [{ is_jog := true }]
      toSteps := s.toSteps.queue steps
      whole := full
      pc := .cycle }
  else { s with pc := .cycle }

/-- The position is declared. -/
def declare (c : CrashConfig) (s : CrashHome) : CrashHome :=
  { s with
    unhomed_axes := s.unhomed_axes.filter fun axis => axis ≠ X_AXIS ∧ axis ≠ Y_AXIS
    homed_since_boot := true
    mpos := (c.theta_offset_rad, 0)
    state := .Idle
    pc := .declared }

/-- The main task goes on from where it stands. -/
def next (c : CrashConfig) (full_buffer : Bool) (s : CrashHome) : CrashHome :=
  match s.pc with
  | .moving steps full =>
    if full_buffer then
      { s.protocol_auto_cycle_start.protocol_execute_realtime with pc := .movingRealtime steps full }
    else s.plan_buffer_line steps full
  | .movingRealtime steps full =>
    if s.busy then s
    else if s.abort then { s with inflight := none, pc := .cycle }
    else { s with pc := .moving steps full }
  | .cycle => { s.protocol_auto_cycle_start.protocol_execute_realtime with pc := .realtime }
  | .realtime => if s.busy then s else { s with pc := .test }
  | .test =>
    if s.abort then { s with pc := .aborted }
    else if s.plan ≠ [] ∨ s.state = .Cycle then { s with pc := .cycle }
    else s.declare c
  | _ => s

/-- One step while crash homing has not come back. A party that cannot go on just now
stays where it is. -/
def move (c : CrashConfig) (s : CrashHome) : CrashTurn → CrashHome
  | .drive (.post signal) => { s with toDrive := s.toDrive.step (.post signal) }
  | .drive .drain => if s.prepared = 0 then { s with toDrive := s.toDrive.step .drain } else s
  | .drive (.plan _) => s
  | .drive .discard =>
    -- the last block is discarded when all of its steps are prepared
    if s.pumps ∧ (s.plan.length > 1 ∨ s.unprepared = 0) then { s with toDrive := s.toDrive.step .discard } else s
  | .drive turn => if s.pumps then s.attend c turn else s
  | .pulse => if s.awake ∧ s.prepared > 0 then { s with toSteps := s.toSteps.pulse } else s
  | .prep n =>
    if s.pumps ∧ s.reloads ∧ ¬ s.step_control.endMotion then { s with toSteps := s.toSteps.prep n } else s
  | .rt_reset => if s.pumps ∧ s.handling then s.protocol_do_rt_reset else s
  | .unlock unlocks => if s.pc = .called then s.unlock unlocks else s
  | .line jog => if s.pc = .jog then s.line jog else s
  | .next full_buffer => s.next c full_buffer

def finished (s : CrashHome) : Bool := s.pc = .declared ∨ s.pc = .aborted

def step (c : CrashConfig) (s : CrashHome) (turn : CrashTurn) : CrashHome :=
  if s.finished then s else s.move c turn

/-- Crash homing declares only what it did. -/
structure Honest (s : CrashHome) : Prop where
  declared : s.pc = .declared → s.whole = true ∧ s.executed = s.queued
  aborted : s.pc = .aborted → s.toMarks = s.untouched

/-- The step deceives: it declares the position of a jog that was rejected or
shortened, that a reset has cut off with steps left, or of which some are still in the segment
buffer, as nothing waits for the end of a jog; or it comes back on an abort with marks that `$X`
has cleared. -/
def Deceives (s : CrashHome) (turn : CrashTurn) : Prop :=
  (∃ full_buffer, turn = .next full_buffer) ∧ s.pc = .test ∧
    if s.abort then s.unlocked = true
    else (s.plan = [] ∧ s.state ≠ .Cycle) ∧ (s.whole = false ∨ s.reset_left = true ∨ 0 < s.prepared)

end CrashHome

namespace Drive

variable (m : Drive)

theorem plan_sent (signal : Signal) : (m.protocol_send_event signal).plan = m.plan := by
  unfold protocol_send_event
  split_ifs <;> rfl

theorem plan_door_opens : m.door_opens.plan = m.plan := by
  unfold door_opens
  cases m.state with
  | Homing => exact plan_sent m.reset _
  | SafetyDoor =>
    dsimp only
    split_ifs <;> rfl
  | Cycle => exact Realtime.start_holding_plan_eq m.toRealtime
  | Jog => exact Realtime.cancel_jogging_plan_eq m.toRealtime
  | _ => rfl

theorem plan_enter : m.protocol_exec_rt_system.plan = m.plan := by
  unfold protocol_exec_rt_system
  split
  · unfold protocol_do_safety_door
    cases m.state with
    | ConfigAlarm => rfl
    | Alarm => rfl
    | CheckMode => rfl
    | Sleep => rfl
    | _ =>
      dsimp only
      split_ifs <;> exact plan_door_opens m
  · rfl

theorem plan_sleep : m.protocol_do_sleep.plan = m.plan := by
  unfold protocol_do_sleep
  cases m.state with
  | Cycle => exact Realtime.start_holding_plan_eq m.toRealtime
  | Jog => exact Realtime.start_holding_plan_eq m.toRealtime
  | _ => rfl

theorem plan_suspended (env : Surroundings) : (m.protocol_exec_rt_suspend env).plan = m.plan := by
  have hcancel : (if m.suspend.jogCancel = true then { m with toRealtime := m.mc_cancel_jog } else m).plan =
      m.plan := by
    split_ifs
    · exact Realtime.mc_cancel_jog_plan m.toRealtime
    · rfl
  have hmoveto (u : Drive) : u.moveto.plan = u.plan := rfl
  have hidle (u : Drive) : u.go_idle.plan = u.plan := rfl
  unfold protocol_exec_rt_suspend
  generalize (if m.suspend.jogCancel = true then { m with toRealtime := m.mc_cancel_jog } else m) = u at hcancel ⊢
  simp only [apply_ite (fun u : Drive => u.plan), plan_sent, hmoveto, hidle, ite_self, hcancel]

/-- Only a stop in `Hold` and the end of a canceled motion empty the planner queue. -/
theorem plan_handler (job_active : Bool) (signal : Signal) (hstop : signal = .stopJob → m.state ≠ .Hold)
    (hcycle : signal = .cycleStop → m.resets = false) : (m.handler job_active signal).plan = m.plan := by
  cases signal with
  | feedHold => exact Realtime.protocol_do_feedhold_plan m.toRealtime
  | cycleStart =>
    unfold handler
    rw [protocol_do_cycle_start_eq]
    exact Realtime.protocol_do_cycle_start_plan m.toRealtime
  | stopJob =>
    unfold handler
    rw [protocol_do_stop_job_eq]
    change (m.toRealtime.protocol_do_stop_job job_active none).plan = m.plan
    have hstate := hstop rfl
    unfold Realtime.protocol_do_stop_job
    cases hcase : m.state with
    | Hold => exact absurd hcase hstate
    | Cycle => exact Realtime.cancel_jogging_plan_eq m.toRealtime
    | Jog => exact Realtime.cancel_jogging_plan_eq m.toRealtime
    | _ => rfl
  | motionCancel => exact Realtime.protocol_do_motion_cancel_plan m.toRealtime
  | safetyDoor => rfl
  | sleep => exact plan_sleep m
  | alarm alarm =>
    change (m.protocol_do_alarm alarm).plan = m.plan
    unfold protocol_do_alarm
    split_ifs <;> rfl
  | cycleStop =>
    unfold handler
    rw [protocol_do_cycle_stop_eq]
    change m.toRealtime.protocol_do_cycle_stop.plan = m.plan
    have hkept := hcycle rfl
    unfold Realtime.resets at hkept
    unfold Realtime.protocol_do_cycle_stop
    cases hcase : m.state <;> rw [hcase] at hkept <;> dsimp only at hkept ⊢
    case CheckMode | Idle | Cycle | Jog =>
      rw [hkept, if_neg Bool.false_ne_true]
      split_ifs <;> rfl
    case Hold | SafetyDoor | Sleep => split_ifs <;> rfl

end Drive

namespace CrashHome

variable {c : CrashConfig} {s : CrashHome} {turn : Drive.Turn}

/-- A turn that does not flush the planner leaves its queue as it is. -/
theorem plan_attended (hkept : s.flushes turn = false) (hplan : ∀ block, turn ≠ .plan block)
    (hdiscard : turn ≠ .discard) : (s.toDrive.step turn).plan = s.plan := by
  cases turn with
  | post signal =>
    unfold Drive.step
    dsimp only
    split_ifs
    · rfl
    · exact Drive.plan_sent s.toDrive signal
  | drain =>
    unfold Drive.step
    dsimp only
    split_ifs
    · exact Drive.plan_sent { s.toDrive with awake := false } .cycleStop
    · rfl
  | plan block => exact absurd rfl (hplan block)
  | discard => exact absurd rfl hdiscard
  | enter =>
    unfold Drive.step
    dsimp only
    split_ifs
    · rfl
    · exact Drive.plan_enter s.toDrive
  | handle job_active =>
    unfold Drive.step Drive.protocol_handle_events
    dsimp only
    split_ifs with hhandling
    · cases hqueue : s.event_queue with
      | nil => rfl
      | cons signal rest =>
        have hsignal : s.handles (.handle job_active) = some signal := by simp [handles, hhandling, hqueue]
        unfold flushes at hkept
        rw [hsignal] at hkept
        refine Drive.plan_handler _ job_active signal (fun hstop => ?_) (fun hcycle => ?_)
        · subst hstop
          exact of_decide_eq_false hkept
        · subst hcycle
          exact hkept
    · rfl
  | suspended env =>
    unfold Drive.step
    dsimp only
    split_ifs
    · rfl
    · exact Drive.plan_suspended s.toDrive env
  | parked =>
    unfold Drive.step
    dsimp only
    split_ifs <;> rfl

/-- What holds until the position is declared: the steps add up, an empty queue has
nothing left to prepare, and the marks are untouched unless `$X` has cleared some. -/
structure Inv (s : CrashHome) : Prop where
  conserved : s.toSteps.Conserved
  empty : s.plan = [] → s.unprepared = 0
  mpos : s.mpos = s.untouched.mpos
  homed_since_boot : s.homed_since_boot = s.untouched.homed_since_boot
  locked : s.unlocked = false → s.unhomed_axes = s.untouched.unhomed_axes
  cleared : s.unlocked = true → s.unhomed_axes = [] ∧ s.untouched.unhomed_axes ≠ []

/-- The marks are untouched precisely when `$X` has cleared none. -/
theorem Inv.untouched_iff (h : s.Inv) : s.toMarks = s.untouched ↔ s.unlocked = false := by
  constructor
  · intro hsame
    by_contra hset
    obtain ⟨hnone, hsome⟩ := h.cleared (eq_true_of_ne_false hset)
    rw [← hsame] at hsome
    exact hsome hnone
  · intro hset
    exact Marks.ext (h.locked hset) h.homed_since_boot h.mpos

theorem Inv.toDrive (h : s.Inv) {m : Drive} (hplan : m.plan = s.plan) : Inv { s with toDrive := m } :=
  ⟨h.conserved, fun hnone => h.empty (hplan ▸ hnone), h.mpos, h.homed_since_boot, h.locked, h.cleared⟩

theorem Inv.goes (h : s.Inv) (pc : CrashPc) : Inv { s with pc } :=
  ⟨h.conserved, h.empty, h.mpos, h.homed_since_boot, h.locked, h.cleared⟩

theorem Inv.set_all_axes_unhomed (h : s.Inv) : Inv (s.set_all_axes_unhomed c) := by
  unfold CrashHome.set_all_axes_unhomed
  split_ifs
  · refine ⟨h.conserved, h.empty, h.mpos, h.homed_since_boot, fun _ => rfl, fun hset => ?_⟩
    cases hset
  · exact h

/-- Steps that are thrown away are counted. -/
theorem Inv.flush (h : s.Inv) {m : Drive} : Inv { s with toDrive := m, toSteps := s.toSteps.flush } :=
  ⟨h.conserved.flush, fun _ => rfl, h.mpos, h.homed_since_boot, h.locked, h.cleared⟩

theorem Inv.attend (h : s.Inv) (hplan : ∀ block, turn ≠ .plan block) (hdiscard : turn ≠ .discard) :
    Inv (s.attend c turn) := by
  have hmarks : Inv (if s.unhomes turn then s.set_all_axes_unhomed c else s) := by
    split_ifs
    · exact h.set_all_axes_unhomed
    · exact h
  have hkept : (if s.unhomes turn then s.set_all_axes_unhomed c else s).toSteps = s.toSteps ∧
      (if s.unhomes turn then s.set_all_axes_unhomed c else s).plan = s.plan := by
    unfold CrashHome.set_all_axes_unhomed
    split_ifs <;> exact ⟨rfl, rfl⟩
  unfold CrashHome.attend
  dsimp only
  generalize (if s.unhomes turn then s.set_all_axes_unhomed c else s) = t at hmarks hkept ⊢
  obtain ⟨hsteps, hqueue⟩ := hkept
  cases hflush : s.flushes turn with
  | true =>
    rw [if_pos rfl, ← hsteps]
    exact hmarks.flush
  | false =>
    rw [if_neg Bool.false_ne_true, ← hsteps]
    exact hmarks.toDrive ((plan_attended hflush hplan hdiscard).trans hqueue.symm)

theorem Inv.protocol_do_rt_reset (h : s.Inv) : Inv s.protocol_do_rt_reset := by
  unfold CrashHome.protocol_do_rt_reset
  dsimp only
  split_ifs
  · exact ⟨h.conserved.halt, h.empty, h.mpos, h.homed_since_boot, h.locked, h.cleared⟩
  all_goals exact h.toDrive rfl

theorem plan_auto_cycle_start (s : CrashHome) : s.protocol_auto_cycle_start.plan = s.plan := by
  unfold CrashHome.protocol_auto_cycle_start
  split_ifs
  · exact Drive.plan_sent s.toDrive _
  · rfl

/-- The main task enters `protocol_execute_realtime` from a loop. -/
theorem Inv.execute_realtime (h : s.Inv) (pc : CrashPc) :
    Inv { s.protocol_auto_cycle_start.protocol_execute_realtime with pc } := by
  have hstart : ∃ m : Drive, s.protocol_auto_cycle_start = { s with toDrive := m } := by
    unfold CrashHome.protocol_auto_cycle_start
    split_ifs
    · exact ⟨_, rfl⟩
    · exact ⟨s.toDrive, rfl⟩
  have hplan := plan_auto_cycle_start s
  obtain ⟨m, hm⟩ := hstart
  rw [hm] at hplan ⊢
  exact (h.goes pc).toDrive ((Drive.plan_enter m).trans hplan)

theorem Inv.plan_buffer_line (h : s.Inv) (steps : Nat) (full : Bool) : Inv (s.plan_buffer_line steps full) := by
  unfold CrashHome.plan_buffer_line
  split_ifs with hflight hnone
  · subst hnone
    refine ⟨Steps.conserved_queue _ 0, h.empty, h.mpos, h.homed_since_boot, h.locked, h.cleared⟩
  · refine ⟨Steps.conserved_queue _ steps, fun hempty => ?_, h.mpos, h.homed_since_boot, h.locked, h.cleared⟩
    simp at hempty
  · exact h.goes .cycle

/-- The main task goes on, or comes back. -/
theorem Inv.next (h : s.Inv) (full_buffer : Bool) : Inv (s.next c full_buffer) ∨
    s.pc = .test ∧ s.abort = false ∧ s.plan = [] ∧ s.state ≠ .Cycle ∧ s.next c full_buffer = s.declare c := by
  unfold CrashHome.next
  split
  next steps full _ =>
    split_ifs
    · exact .inl (h.execute_realtime _)
    · exact .inl (h.plan_buffer_line steps full)
  next steps full _ =>
    split_ifs
    · exact .inl h
    · exact .inl ((h.goes .cycle).toDrive rfl)
    · exact .inl (h.goes _)
  next => exact .inl (h.execute_realtime _)
  next =>
    split_ifs
    · exact .inl h
    · exact .inl (h.goes _)
  next htest =>
    split_ifs with habort hwaits
    · exact .inl (h.goes _)
    · exact .inl (h.goes _)
    · obtain ⟨hplan, hstate⟩ := not_or.mp hwaits
      exact .inr ⟨htest, eq_false_of_ne_true habort, not_not.mp hplan, hstate, rfl⟩
  next => exact .inl h

theorem Inv.unlock (h : s.Inv) (unlocks : Bool) : Inv (s.unlock unlocks) := by
  unfold CrashHome.unlock
  split_ifs
  · refine ⟨h.conserved, h.empty, h.mpos, h.homed_since_boot, fun hnone => ?_, fun hsome => ⟨rfl, ?_⟩⟩
    · obtain ⟨hlocked, haxes⟩ := not_or.mp (of_decide_eq_false hnone)
      rw [← h.locked (eq_false_of_ne_true hlocked)]
      exact (not_not.mp haxes).symm
    · cases hset : s.unlocked with
      | true => exact (h.cleared hset).2
      | false =>
        rw [← h.locked hset]
        exact (of_decide_eq_true hsome).resolve_left (by simp [hset])
  · exact h.goes .jog

theorem Inv.line (h : s.Inv) (jog : Option (Nat × Bool)) : Inv (s.line jog) := by
  unfold CrashHome.line
  split
  next steps full =>
    split_ifs
    · exact (h.goes (.moving steps full)).toDrive rfl
    · exact h.goes _
  next => exact h.goes _

/-- A step of another party, or of the main task on its way. -/
theorem Inv.move (h : s.Inv) {turn : CrashTurn} (hgoes : ∀ full, turn ≠ .next full) : Inv (s.move c turn) := by
  unfold CrashHome.move
  split
  next signal => exact h.toDrive (plan_attended rfl (by simp) (by simp))
  next =>
    split_ifs
    · exact h.toDrive (plan_attended rfl (by simp) (by simp))
    · exact h
  next => exact h
  next =>
    split_ifs with hdiscards
    · refine ⟨h.conserved, fun hempty => ?_, h.mpos, h.homed_since_boot, h.locked, h.cleared⟩
      obtain hmore | hnone := hdiscards.2
      · have hlen := congrArg List.length hempty
        change s.plan.tail.length = 0 at hlen
        rw [List.length_tail] at hlen
        omega
      · exact hnone
    · exact h
  next turn hpost hdrain hplan hdiscard =>
    split_ifs
    · exact h.attend hplan hdiscard
    · exact h
  next =>
    split_ifs with hsteps
    · exact ⟨h.conserved.pulse hsteps.2, h.empty, h.mpos, h.homed_since_boot, h.locked, h.cleared⟩
    · exact h
  next n =>
    split_ifs
    · refine ⟨h.conserved.prep n, fun hempty => ?_, h.mpos, h.homed_since_boot, h.locked, h.cleared⟩
      have hnone := h.empty hempty
      change s.unprepared - min n s.unprepared = 0
      omega
    · exact h
  next =>
    split_ifs
    · exact h.protocol_do_rt_reset
    · exact h
  next unlocks =>
    split_ifs
    · exact h.unlock unlocks
    · exact h
  next jog =>
    split_ifs
    · exact h.line jog
    · exact h
  next full => exact absurd rfl (hgoes full)

theorem honest_of_unfinished (h : s.finished = false) : s.Honest := by
  obtain ⟨hdeclared, haborted⟩ := not_or.mp (of_decide_eq_false h)
  exact ⟨fun hpc => absurd hpc hdeclared, fun hpc => absurd hpc haborted⟩

theorem finished_of_pc {t : CrashHome} (hnot : s.finished = false) (hpc : t.pc = s.pc) : t.finished = false := by
  unfold finished at hnot ⊢
  rw [hpc]
  exact hnot

/-- Only the main task comes back. -/
theorem unfinished_move {turn : CrashTurn} (hnot : s.finished = false) (hgoes : ∀ full, turn ≠ .next full) :
    (s.move c turn).finished = false := by
  unfold move
  split
  next => exact finished_of_pc hnot rfl
  next => split_ifs <;> exact finished_of_pc hnot rfl
  next => exact hnot
  next => split_ifs <;> exact finished_of_pc hnot rfl
  next =>
    split_ifs
    · refine finished_of_pc hnot ?_
      unfold attend set_all_axes_unhomed
      dsimp only
      split_ifs <;> rfl
    · exact hnot
  next => split_ifs <;> exact finished_of_pc hnot rfl
  next => split_ifs <;> exact finished_of_pc hnot rfl
  next =>
    split_ifs
    · refine finished_of_pc hnot ?_
      unfold protocol_do_rt_reset
      dsimp only
      split_ifs <;> rfl
    · exact hnot
  next unlocks =>
    split_ifs
    · unfold unlock
      split_ifs <;> rfl
    · exact hnot
  next jog =>
    split_ifs
    · unfold line
      split
      · split_ifs <;> rfl
      · rfl
    · exact hnot
  next full => exact absurd rfl (hgoes full)

/-- It comes back from the test of the loop only. -/
theorem unfinished_next (hnot : s.finished = false) (htest : s.pc ≠ .test) (full_buffer : Bool) :
    (s.next c full_buffer).finished = false := by
  unfold next
  split
  next steps full _ =>
    split_ifs
    · rfl
    · unfold plan_buffer_line
      split_ifs <;> rfl
  next =>
    split_ifs
    · exact hnot
    · rfl
    · rfl
  next => rfl
  next =>
    split_ifs
    · exact hnot
    · rfl
  next hpc => exact absurd hpc htest
  next => exact hnot

/-- What the main task makes of the test of the loop. -/
theorem honest_test_iff (h : s.Inv) (htest : s.pc = .test) (full_buffer : Bool) :
    (s.next c full_buffer).Honest ↔ ¬ s.Deceives (.next full_buffer) := by
  unfold next Deceives
  rw [htest]
  dsimp only
  cases habort : s.abort with
  | true =>
    rw [if_pos rfl, if_pos rfl]
    constructor
    · rintro ⟨-, haborted⟩ ⟨-, -, hset⟩
      have hsame : s.unlocked = false := h.untouched_iff.mp (haborted rfl)
      simp [hset] at hsame
    · intro hhonest
      refine ⟨fun hpc => ?_, fun _ => h.untouched_iff.mpr ?_⟩
      · cases hpc
      · exact eq_false_of_ne_true fun hset => hhonest ⟨⟨_, rfl⟩, rfl, hset⟩
  | false =>
    rw [if_neg Bool.false_ne_true, if_neg Bool.false_ne_true]
    by_cases hwaits : s.plan ≠ [] ∨ s.state = .Cycle
    · rw [if_pos hwaits]
      refine iff_of_true (honest_of_unfinished rfl) ?_
      rintro ⟨-, -, ⟨hplan, hstate⟩, -⟩
      exact hwaits.elim (fun hne => hne hplan) hstate
    · rw [if_neg hwaits]
      obtain ⟨hplan, hstate⟩ := not_or.mp hwaits
      have hempty := h.empty (not_not.mp hplan)
      have hsum : s.executed + s.prepared + s.unprepared + s.dropped = s.queued := h.conserved.total
      have hcut : s.reset_left = true ↔ 0 < s.dropped := h.conserved.dropped
      constructor
      · rintro ⟨hdeclared, -⟩ ⟨-, -, -, hlies⟩
        obtain ⟨hwhole, hexecuted⟩ := hdeclared rfl
        change s.whole = true at hwhole
        change s.executed = s.queued at hexecuted
        obtain hpart | hreset | hprepared := hlies
        · simp [hwhole] at hpart
        · have hdropped := hcut.mp hreset
          omega
        · omega
      · intro hhonest
        have htrue : ¬ (s.whole = false ∨ s.reset_left = true ∨ 0 < s.prepared) := fun hlies =>
          hhonest ⟨⟨_, rfl⟩, rfl, ⟨not_not.mp hplan, hstate⟩, hlies⟩
        rw [hcut] at htrue
        obtain ⟨hwhole, hsteps⟩ := not_or.mp htrue
        refine ⟨fun _ => ⟨eq_true_of_ne_false hwhole, ?_⟩, fun hpc => ?_⟩
        · change s.executed = s.queued
          omega
        · cases hpc

/-- A step is honest precisely when it does not deceive. -/
theorem honest_step_iff {turn : CrashTurn} (h : s.finished = false → s.Inv) (hhonest : s.Honest) :
    (s.step c turn).Honest ↔ ¬ s.Deceives turn := by
  unfold step
  cases hfinished : s.finished with
  | true =>
    rw [if_pos rfl]
    refine iff_of_true hhonest ?_
    rintro ⟨-, htest, -⟩
    unfold finished at hfinished
    rw [htest] at hfinished
    cases hfinished
  | false =>
    rw [if_neg Bool.false_ne_true]
    by_cases hgoes : ∃ full, turn = .next full
    · obtain ⟨full, rfl⟩ := hgoes
      by_cases htest : s.pc = .test
      · exact honest_test_iff (h hfinished) htest full
      · exact iff_of_true (honest_of_unfinished (unfinished_next hfinished htest full)) fun hlies => htest hlies.2.1
    · exact iff_of_true (honest_of_unfinished (unfinished_move hfinished fun full hnext => hgoes ⟨full, hnext⟩))
        fun hlies => hgoes hlies.1

/-- The invariant holds until crash homing comes back. -/
theorem inv_step {turn : CrashTurn} (h : s.finished = false → s.Inv) (hafter : (s.step c turn).finished = false) :
    (s.step c turn).Inv := by
  unfold step at hafter ⊢
  cases hfinished : s.finished with
  | true =>
    rw [hfinished, if_pos rfl] at hafter
    rw [hfinished] at hafter
    cases hafter
  | false =>
    rw [hfinished, if_neg Bool.false_ne_true] at hafter
    rw [if_neg Bool.false_ne_true]
    by_cases hgoes : ∃ full, turn = .next full
    · obtain ⟨full, rfl⟩ := hgoes
      obtain hinv | ⟨-, -, -, -, hdeclare⟩ := (h hfinished).next (c := c) full
      · exact hinv
      · change (s.next c full).finished = false at hafter
        rw [hdeclare] at hafter
        cases hafter
    · exact (h hfinished).move fun full hnext => hgoes ⟨full, hnext⟩

theorem inv_call (m : Drive) (marks : Marks) (unprepared prepared : Nat) : (call m marks unprepared prepared).Inv := by
  refine ⟨⟨?_, iff_of_false Bool.false_ne_true (Nat.lt_irrefl 0)⟩, fun hnone => if_pos hnone, rfl, rfl, fun _ => rfl,
    fun hset => ?_⟩
  · unfold call
    dsimp only
    omega
  · cases hset

/-- From every state of the machine and in every order of steps, crash homing
declares only what it did, precisely when no step deceives. -/
theorem declares_only_what_it_did (c : CrashConfig) (m : Drive) (marks : Marks) (unprepared prepared : Nat)
    (turns : List CrashTurn) :
    Always (step c) Honest (call m marks unprepared prepared) turns ↔
      Throughout (step c) (fun s turn => ¬ s.Deceives turn) (call m marks unprepared prepared) turns := by
  apply always_iff_throughout_not (I := fun s => s.finished = false → s.Inv) (Q := fun _ _ => True)
  · exact fun s turn h _ _ hafter => inv_step h hafter
  · exact fun s turn h _ hhonest => honest_step_iff h hhonest
  · exact fun _ => inv_call m marks unprepared prepared
  · exact honest_of_unfinished rfl
  · exact throughout_of_forall (fun _ _ => trivial) _ _

/-- A jog of two steps is stopped after the first. -/
def stopped : List CrashTurn :=
  [.unlock true, .line (some (2, true)), .next false, .next false, .drive (.handle false), .prep 1, .pulse,
    .drive (.handle false), .next false, .next false, .drive (.post .stopJob), .next false, .drive (.handle false),
    .drive .drain, .drive (.handle false), .drive (.handle false), .drive (.handle false), .next false, .next false]

/-- The stop ends the jog, and the position is declared all the same. -/
theorem stopped_jog_is_declared :
    ¬ Always (step {}) Honest (call { state := .Alarm } { unhomed_axes := [X_AXIS, Y_AXIS] } 0 0) stopped := by
  intro h
  have hlast := h.last.declared (by decide)
  exact absurd hlast (by decide)

end CrashHome

end DuneWeaver
