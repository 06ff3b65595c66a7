import DuneWeaver.Protocol.DeadHold
import DuneWeaver.Protocol.System
import DuneWeaver.Transition.Run

namespace DuneWeaver

inductive ExecAlarm where
  | None
  | HardLimit
  | SoftLimit
  | AbortCycle
  | ProbeFailInitial
  | ProbeFailContact
  | HomingFailReset
  | HomingFailDoor
  | HomingFailPulloff
  | HomingFailApproach
  | SpindleControl
  | ControlPin
  | HomingAmbiguousSwitch
  | HardStop
  | Unhomed
  | Init
  deriving DecidableEq

/-- The events of the event queue that have to do with motion. -/
inductive Signal where
  | feedHold
  | cycleStart
  | stopJob
  | motionCancel
  | safetyDoor
  | sleep
  | alarm (alarm : ExecAlarm)
  | cycleStop
  deriving DecidableEq

/-- The handlers together with the step generator. `handling` is set while the main
task is inside `protocol_handle_events`, `parking` while it waits in
`Parking::moveto`, and `cut_short` once `Stepper::reset` has found the step
generator running. -/
structure Drive extends Realtime where
  awake : Bool := false
  rtSafetyDoor : Bool := false
  event_queue : List Signal := []
  handling : Bool := false
  parking : Bool := false
  cut_short : Bool := false
  deriving DecidableEq

namespace Drive

/-- `Stepper::wake_up`. -/
def wake_up (m : Drive) : Drive := { m with awake := true }

/-- `Stepper::go_idle`. -/
def go_idle (m : Drive) : Drive := { m with awake := false }

/-- `Stepper::reset`: the steps that are prepared are dropped. -/
def reset (m : Drive) : Drive := { m.go_idle with cut_short := m.cut_short || m.awake }

/-- `protocol_send_event`, and its twin for interrupts. -/
def protocol_send_event (signal : Signal) (m : Drive) : Drive :=
  if m.event_queue.length < EVENT_QUEUE_LENGTH then { m with event_queue := m.event_queue ++ [signal] } else m

def protocol_do_feedhold (m : Drive) : Drive := { m with toRealtime := m.toRealtime.protocol_do_feedhold }

def protocol_do_motion_cancel (m : Drive) : Drive :=
  { m with toRealtime := m.toRealtime.protocol_do_motion_cancel }

/-- In `Hold` the planner and the stepper are reset. -/
def protocol_do_stop_job (job_active : Bool) (m : Drive) : Drive :=
  let stopped := m.toRealtime.protocol_do_stop_job job_active none
  match m.state with
  | .Hold => { m.reset with toRealtime := stopped }
  | _ => { m with toRealtime := stopped }

def protocol_do_initiate_cycle (m : Drive) : Drive :=
  let initiated := { m with toRealtime := m.toRealtime.protocol_do_initiate_cycle }
  if m.plan ≠ [] ∧ ¬ m.suspend.motionCancel then initiated.wake_up else initiated

def protocol_do_cycle_start (m : Drive) : Drive :=
  match m.state with
  | .SafetyDoor =>
    if m.suspend.safetyDoorAjar then m
    else if m.suspend.restoreComplete then { m with state := .Idle }.protocol_do_initiate_cycle
    else if m.suspend.retractComplete then { m with suspend := { m.suspend with initiateRestore := true } }
    else m
  | .Idle => m.protocol_do_initiate_cycle
  | .Homing => { m with step_control := { executeSysMotion := true }, suspend := {} }.wake_up
  | .Hold => if m.suspend.holdComplete ∧ ¬ m.spindle_stop_ovr then m.protocol_do_initiate_cycle else m
  | _ => m

/-- A jog cancel resets the planner and the stepper. -/
def protocol_do_cycle_stop (m : Drive) : Drive :=
  let stopped := m.toRealtime.protocol_do_cycle_stop
  match m.state with
  | .CheckMode | .Idle | .Cycle | .Jog =>
    if m.suspend.jogCancel then { m.reset with toRealtime := stopped } else { m with toRealtime := stopped }
  | _ => { m with toRealtime := stopped }

/-- The step control and the suspend bits of a safety door, by the state it finds. -/
def door_opens (m : Drive) : Drive :=
  match m.state with
  | .Homing => m.reset.protocol_send_event (.alarm .HomingFailDoor)
  | .SafetyDoor =>
    if ¬ m.suspend.jogCancel ∧ m.suspend.initiateRestore then
      let m :=
        if m.step_control.executeSysMotion then
          { m with
            step_control := { executeHold := true, executeSysMotion := true }
            suspend := { m.suspend with holdComplete := false } }
        else m
      { m with
        suspend := { m.suspend with
          retractComplete := false, initiateRestore := false, restoreComplete := false, restartRetract := true } }
    else m
  | .Idle => { m with toRealtime := m.protocol_hold_complete }
  | .Cycle => { m with toRealtime := m.protocol_start_holding }
  | .Jog => { m with toRealtime := m.protocol_cancel_jogging }
  | _ => m

/-- While a jog is being canceled the door event stays pending. -/
def protocol_do_safety_door (m : Drive) : Drive :=
  match m.state with
  | .ConfigAlarm => m
  | .Alarm | .CheckMode | .Sleep => { m with rtSafetyDoor := false }
  | _ =>
    let m := m.door_opens
    let m := if ¬ m.suspend.jogCancel then { m with rtSafetyDoor := false, state := .SafetyDoor } else m
    { m with suspend := { m.suspend with safetyDoorAjar := true } }

def protocol_do_sleep (m : Drive) : Drive :=
  let m :=
    match m.state with
    | .ConfigAlarm | .Alarm => { m with suspend := { m.suspend with retractComplete := true, holdComplete := true } }
    | .Idle => { m with toRealtime := m.protocol_hold_complete }
    | .Cycle | .Jog => { m with toRealtime := m.protocol_start_holding }
    | _ => m
  { m with state := .Sleep }

def protocol_do_alarm (alarm : ExecAlarm) (m : Drive) : Drive :=
  if alarm = .HardLimit ∨ alarm = .HardStop then { m with state := .Critical }
  else if alarm = .SoftLimit then { m with state := .Critical }
  else { m with state := .Alarm }

/-- Run the handler of an event. -/
def handler (job_active : Bool) (m : Drive) : Signal → Drive
  | .feedHold => m.protocol_do_feedhold
  | .cycleStart => m.protocol_do_cycle_start
  | .stopJob => m.protocol_do_stop_job job_active
  | .motionCancel => m.protocol_do_motion_cancel
  | .safetyDoor => { m with rtSafetyDoor := true }
  | .sleep => m.protocol_do_sleep
  | .alarm alarm => m.protocol_do_alarm alarm
  | .cycleStop => m.protocol_do_cycle_stop

/-- The start of `protocol_exec_rt_system`. -/
def protocol_exec_rt_system (m : Drive) : Drive :=
  let m := if m.rtSafetyDoor then m.protocol_do_safety_door else m
  { m with handling := true }

/-- One turn of `protocol_handle_events`. -/
def protocol_handle_events (job_active : Bool) (m : Drive) : Drive :=
  match m.event_queue with
  | [] => { m with handling := false }
  | signal :: rest => { m with event_queue := rest }.handler job_active signal

/-- `Parking::moveto`, up to its wait. -/
def moveto (m : Drive) : Drive :=
  { m with
    parking := true
    step_control := { m.step_control with executeSysMotion := true, endMotion := false } }.wake_up

/-- What one turn of the suspend loop finds: whether the parking axis has to move
next, whether the door is open, and whether a spindle stop is over and resumes. -/
structure Surroundings where
  parks : Bool := false
  safety_door_ajar : Bool := true
  restoreCycle : Bool := false

/-- One turn of the loop of `protocol_exec_rt_suspend`, up to `protocol_exec_rt_system`. Parking
is looked at again after each of its motions. -/
def protocol_exec_rt_suspend (env : Surroundings) (m : Drive) : Drive :=
  let m := if m.suspend.jogCancel then { m with toRealtime := m.mc_cancel_jog } else m
  if m.suspend.holdComplete then
    if m.state = .SafetyDoor ∨ m.state = .Sleep then
      if ¬ m.suspend.retractComplete then
        if env.parks then { m with spindle_stop_ovr := false }.moveto
        else { m with
          spindle_stop_ovr := false
          suspend := { m.suspend with retractComplete := true, restartRetract := false } }
      else if m.state = .Sleep then m.go_idle
      else
        let m :=
          if ¬ env.safety_door_ajar then { m with suspend := { m.suspend with safetyDoorAjar := false } } else m
        if m.suspend.initiateRestore then
          if env.parks then m.moveto
          else if ¬ m.suspend.restartRetract ∧ ¬ m.suspend.safetyDoorAjar then
            { m with state := .Idle }.protocol_send_event .cycleStart
          else m
        else m
    -- `protocol_manage_spindle`
    else if m.spindle_stop_ovr ∧ env.restoreCycle then
      { m.protocol_send_event .cycleStart with spindle_stop_ovr := false }
    else m
  else m

/-- One step of one party. Another task or a pin posts an event; the interrupt finds
the segment buffer empty; the main task plans a block or finishes one, enters
`protocol_exec_rt_system`, takes an event from the queue, goes round the suspend
loop, or comes back from a parking motion. -/
inductive Turn where
  | post (signal : Signal)
  | drain
  | plan (block : Block)
  | discard
  | enter
  | handle (job_active : Bool)
  | suspended (env : Surroundings)
  | parked

/-- One step of the machine. A party that cannot go on just now stays where it is;
only the interrupt posts `cycleStop`. -/
def step (m : Drive) : Turn → Drive
  | .post signal => if signal = .cycleStop then m else m.protocol_send_event signal
  | .drain => if m.awake then { m with awake := false }.protocol_send_event .cycleStop else m
  | .plan block => if m.handling ∨ m.parking then m else { m with plan := m.plan ++ [block] }
  | .discard => { m with plan := m.plan.tail }
  | .enter => if m.handling then m else m.protocol_exec_rt_system
  | .handle job_active => if m.handling then m.protocol_handle_events job_active else m
  | .suspended env =>
    if m.handling ∨ m.parking ∨ m.suspend = {} then m else m.protocol_exec_rt_suspend env
  | .parked => if m.parking ∧ ¬ m.handling ∧ ¬ m.step_control.executeSysMotion then { m with parking := false } else m

theorem protocol_do_initiate_cycle_eq (m : Drive) :
    m.protocol_do_initiate_cycle =
      { m with
        toRealtime := m.toRealtime.protocol_do_initiate_cycle
        awake := m.awake || (!m.plan.isEmpty && !m.suspend.motionCancel) } := by
  rw [protocol_do_initiate_cycle]
  by_cases hstart : m.plan ≠ [] ∧ ¬ m.suspend.motionCancel
  · simp [hstart, wake_up]
  · have hidle : (!m.plan.isEmpty && !m.suspend.motionCancel) = false := by
      rw [Bool.eq_false_iff]
      simpa using hstart
    rw [if_neg hstart, hidle]
    simp

/-- What a cycle start makes of the machine. -/
theorem protocol_do_cycle_start_eq (m : Drive) :
    m.protocol_do_cycle_start =
      { m with toRealtime := m.toRealtime.protocol_do_cycle_start, awake := m.awake || m.wakes } := by
  unfold protocol_do_cycle_start Realtime.protocol_do_cycle_start Realtime.wakes
  cases m.state with
  | SafetyDoor =>
    rcases hajar : m.suspend.safetyDoorAjar with _ | _
    · rcases hrestored : m.suspend.restoreComplete with _ | _
      · rcases m.suspend.retractComplete with _ | _ <;> simp
      · simp [protocol_do_initiate_cycle_eq]
    · simp
  | Idle => simp [protocol_do_initiate_cycle_eq]
  | Homing => simp [wake_up]
  | Hold =>
    by_cases hready : m.suspend.holdComplete ∧ ¬ m.spindle_stop_ovr
    · simp [protocol_do_initiate_cycle_eq, hready]
    · have hwait : (m.suspend.holdComplete && !m.spindle_stop_ovr) = false := by
        rw [Bool.eq_false_iff]
        simpa using hready
      simp only [hready, if_false, hwait, Bool.false_and, Bool.or_false]
  | _ => simp

/-- What a stop makes of the machine. -/
theorem protocol_do_stop_job_eq (job_active : Bool) (m : Drive) :
    m.protocol_do_stop_job job_active =
      { m with
        toRealtime := m.toRealtime.protocol_do_stop_job job_active none
        awake := m.awake && m.state != .Hold
        cut_short := m.cut_short || (m.awake && m.state = .Hold) } := by
  rw [protocol_do_stop_job]
  split
  · rename_i hstate
    simp [hstate, reset, go_idle]
  · rename_i hstate
    have hne : m.state ≠ .Hold := hstate
    simp [hne]

/-- What a cycle stop makes of the machine. -/
theorem protocol_do_cycle_stop_eq (m : Drive) :
    m.protocol_do_cycle_stop =
      { m with
        toRealtime := m.toRealtime.protocol_do_cycle_stop
        awake := m.awake && !m.resets
        cut_short := m.cut_short || (m.awake && m.resets) } := by
  unfold protocol_do_cycle_stop Realtime.resets
  cases hstate : m.state <;> simp only
  case CheckMode | Idle | Cycle | Jog =>
    rcases m.suspend.jogCancel with _ | _ <;> simp [reset, go_idle]
  all_goals simp

end Drive

end DuneWeaver
