import DuneWeaver.Types

namespace DuneWeaver

/-- `sys.suspend.bit`. -/
structure SuspendBits where
  holdComplete : Bool := false
  restartRetract : Bool := false
  retractComplete : Bool := false
  initiateRestore : Bool := false
  restoreComplete : Bool := false
  safetyDoorAjar : Bool := false
  motionCancel : Bool := false
  jogCancel : Bool := false
  deriving DecidableEq

/-- `sys.step_control`. -/
structure StepControl where
  endMotion : Bool := false
  executeHold : Bool := false
  executeSysMotion : Bool := false
  updateSpindleSpeed : Bool := false
  deriving DecidableEq

/-- A block of the planner queue, with the job whose line it came from, if it
came from one. -/
structure Block where
  is_jog : Bool
  job : Option Nat := none
  deriving DecidableEq

/-- `unwind_cause`. A stop remembers after how many lines of the playlist it was
posted, if the playlist posted it. -/
inductive Cause where
  | Stop (posted : Option Nat)
  | Reset
  deriving DecidableEq

/-- What the realtime handlers of the main task work on. `plan` is the planner
queue, oldest block first, and `inflight` is `mc_pl_data_inflight`, by the
`is_jog` of what it points to. -/
structure Realtime where
  state : State := .Idle
  suspend : SuspendBits := {}
  step_control : StepControl := {}
  abort : Bool := false
  soft_limit : Bool := false
  spindle_stop_ovr : Bool := false
  unwind_cause : Option Cause := none
  rtStopJob : Bool := false
  rtStartHome : Bool := false
  plan : List Block := []
  inflight : Option Bool := none
  deriving DecidableEq

/-- The states in which `protocol_do_stop_job` stops. -/
def State.stoppable : State → Bool
  | .Cycle => true
  | .Jog => true
  | .Hold => true
  | .Idle => true
  | _ => false

namespace Realtime

def protocol_start_holding (m : Realtime) : Realtime :=
  if m.suspend.motionCancel ∨ m.suspend.jogCancel then m
  else { m with step_control := { executeHold := true } }

def protocol_cancel_jogging (m : Realtime) : Realtime :=
  if m.suspend.motionCancel ∨ m.suspend.jogCancel then m
  else { m with
    step_control := { executeHold := true }
    suspend := { m.suspend with jogCancel := true } }

def protocol_hold_complete (m : Realtime) : Realtime := { m with suspend := { holdComplete := true } }

/-- `plan_reset` and what goes with it: the planner queue is thrown away. -/
def flush (m : Realtime) : Realtime := { m with step_control := {}, plan := [] }

/-- Stop a running pattern without a reset. `posted` is told on to the abort. -/
def protocol_do_stop_job (job_active : Bool) (posted : Option Nat) (m : Realtime) : Realtime :=
  let unwind (m : Realtime) : Realtime :=
    { m with
      unwind_cause := if job_active then some (.Stop posted) else m.unwind_cause
      rtStopJob := true }
  match m.state with
  | .Cycle => unwind m.protocol_cancel_jogging
  | .Jog => unwind m.protocol_cancel_jogging
  | .Hold => unwind { m.flush with suspend := {}, state := .Idle }
  | .Idle => unwind m
  | _ => m

/-- Execute a feed hold. `Critical` is missing among the states that ignore it. -/
def protocol_do_feedhold (m : Realtime) : Realtime :=
  match m.state with
  | .ConfigAlarm => m
  | .Alarm => m
  | .CheckMode => m
  | .SafetyDoor => m
  | .Sleep => m
  | .Homing => m
  | .Jog => m.protocol_cancel_jogging
  | .Idle => { m.protocol_hold_complete with state := .Hold }
  | .Cycle => { m.protocol_start_holding with state := .Hold }
  | .Hold => m
  | .Critical => { m with state := .Hold }

def protocol_do_motion_cancel (m : Realtime) : Realtime :=
  let cancel (m : Realtime) : Realtime := { m with suspend := { m.suspend with motionCancel := true } }
  match m.state with
  | .Alarm => m
  | .ConfigAlarm => m
  | .CheckMode => m
  | .Jog => m.protocol_cancel_jogging
  | .Idle => cancel m.protocol_hold_complete
  | .Cycle => cancel m.protocol_start_holding
  | _ => cancel m

/-- Start a cycle if there are queued motions that are not canceled. -/
def protocol_do_initiate_cycle (m : Realtime) : Realtime :=
  match m.plan with
  | block :: _ =>
    { m with
      step_control := {}, suspend := {}
      state := if m.suspend.motionCancel then .Idle else if block.is_jog then .Jog else .Cycle }
  | [] => { m with step_control := {}, suspend := {}, state := .Idle }

def protocol_do_cycle_start (m : Realtime) : Realtime :=
  match m.state with
  | .SafetyDoor =>
    if m.suspend.safetyDoorAjar then m
    else if m.suspend.restoreComplete then { m with state := .Idle }.protocol_do_initiate_cycle
    else if m.suspend.retractComplete then { m with suspend := { m.suspend with initiateRestore := true } }
    else m
  | .Idle => m.protocol_do_initiate_cycle
  | .Homing => { m with step_control := { executeSysMotion := true }, suspend := {} }
  | .Hold =>
    if m.suspend.holdComplete ∧ ¬ m.spindle_stop_ovr then m.protocol_do_initiate_cycle else m
  | _ => m

/-- The stepper has come to a stop. A canceled motion leaves the planner queue
empty. -/
def protocol_do_cycle_stop (m : Realtime) : Realtime :=
  let stopped (m : Realtime) : Realtime :=
    let m := if m.suspend.jogCancel then m.flush else m
    if m.suspend.safetyDoorAjar then
      { m with suspend := { m.suspend with jogCancel := false, holdComplete := true }, state := .SafetyDoor }
    else { m with suspend := {}, state := .Idle }
  let held (m : Realtime) : Realtime :=
    if ¬ m.soft_limit ∧ ¬ m.suspend.jogCancel then
      { m with
        suspend := { m.suspend with holdComplete := m.suspend.holdComplete || m.step_control.executeHold }
        step_control := { m.step_control with executeHold := false, executeSysMotion := false } }
    else m
  match m.state with
  | .Hold => held m
  | .SafetyDoor => held m
  | .Sleep => held m
  | .CheckMode => stopped m
  | .Idle => stopped m
  | .Cycle => stopped m
  | .Jog => stopped m
  | _ => m

/-- Drop a jog that waits in `mc_move_motors`. -/
def mc_cancel_jog (m : Realtime) : Realtime :=
  if m.inflight = some true then { m with inflight := none } else m

section Unwinding

variable (m : Realtime)

/-- Only a stop unwinds the jobs, if there are any and the state lets it. -/
theorem protocol_do_stop_job_unwind_cause (job_active : Bool) (posted : Option Nat) :
    (m.protocol_do_stop_job job_active posted).unwind_cause =
      if m.state.stoppable ∧ job_active then some (.Stop posted) else m.unwind_cause := by
  have hcancel : m.protocol_cancel_jogging.unwind_cause = m.unwind_cause := by
    unfold protocol_cancel_jogging
    split_ifs <;> rfl
  unfold protocol_do_stop_job
  cases m.state <;> simp [State.stoppable, hcancel, flush]

/-- In the other states a stop is ignored. -/
theorem protocol_do_stop_job_ignored (job_active : Bool) (posted : Option Nat)
    (hstate : m.state.stoppable = false) : m.protocol_do_stop_job job_active posted = m := by
  unfold protocol_do_stop_job
  cases h : m.state <;> simp_all [State.stoppable]

@[simp] theorem protocol_do_feedhold_unwind_cause : m.protocol_do_feedhold.unwind_cause = m.unwind_cause := by
  unfold protocol_do_feedhold protocol_cancel_jogging protocol_start_holding
  split <;> first | rfl | (split_ifs <;> rfl)

@[simp] theorem protocol_do_motion_cancel_unwind_cause :
    m.protocol_do_motion_cancel.unwind_cause = m.unwind_cause := by
  unfold protocol_do_motion_cancel protocol_cancel_jogging protocol_start_holding
  dsimp only
  split <;> first | rfl | (split_ifs <;> rfl)

@[simp] theorem protocol_do_initiate_cycle_unwind_cause :
    m.protocol_do_initiate_cycle.unwind_cause = m.unwind_cause := by
  unfold protocol_do_initiate_cycle
  split <;> rfl

@[simp] theorem protocol_do_cycle_start_unwind_cause :
    m.protocol_do_cycle_start.unwind_cause = m.unwind_cause := by
  unfold protocol_do_cycle_start
  split
  · split_ifs <;> simp
  all_goals first | rfl | simp
  split_ifs <;> simp

@[simp] theorem protocol_do_cycle_stop_unwind_cause :
    m.protocol_do_cycle_stop.unwind_cause = m.unwind_cause := by
  unfold protocol_do_cycle_stop flush
  dsimp only
  split <;> first | rfl | (split_ifs <;> rfl)

@[simp] theorem mc_cancel_jog_unwind_cause : m.mc_cancel_jog.unwind_cause = m.unwind_cause := by
  unfold mc_cancel_jog
  split_ifs <;> rfl

@[simp] theorem mc_cancel_jog_state : m.mc_cancel_jog.state = m.state := by
  unfold mc_cancel_jog
  split_ifs <;> rfl

end Unwinding

section Plan

variable (m : Realtime)

/-- The blocks of the planner queue that came from a line of the job. -/
def planned (id : Nat) : Nat := m.plan.countP fun block => block.job = some id

private theorem cancel_jogging_plan : m.protocol_cancel_jogging.plan = m.plan := by
  unfold protocol_cancel_jogging
  split_ifs <;> rfl

private theorem start_holding_plan : m.protocol_start_holding.plan = m.plan := by
  unfold protocol_start_holding
  split_ifs <;> rfl

theorem protocol_do_stop_job_plan (job_active : Bool) (posted : Option Nat) :
    (m.protocol_do_stop_job job_active posted).plan = m.plan ∨
      (m.protocol_do_stop_job job_active posted).plan = [] := by
  unfold protocol_do_stop_job
  cases m.state with
  | Cycle => exact .inl (cancel_jogging_plan m)
  | Jog => exact .inl (cancel_jogging_plan m)
  | Hold => exact .inr rfl
  | _ => exact .inl rfl

theorem protocol_do_feedhold_plan : m.protocol_do_feedhold.plan = m.plan := by
  unfold protocol_do_feedhold
  cases m.state with
  | Jog => exact cancel_jogging_plan m
  | Cycle => exact start_holding_plan m
  | _ => rfl

theorem protocol_do_motion_cancel_plan : m.protocol_do_motion_cancel.plan = m.plan := by
  unfold protocol_do_motion_cancel
  cases m.state with
  | Jog => exact cancel_jogging_plan m
  | Cycle => exact start_holding_plan m
  | _ => rfl

private theorem initiate_cycle_plan : m.protocol_do_initiate_cycle.plan = m.plan := by
  unfold protocol_do_initiate_cycle
  split <;> rfl

theorem protocol_do_cycle_start_plan : m.protocol_do_cycle_start.plan = m.plan := by
  unfold protocol_do_cycle_start
  cases m.state with
  | SafetyDoor =>
    dsimp only
    split_ifs
    · rfl
    · exact initiate_cycle_plan _
    · rfl
    · rfl
  | Idle => exact initiate_cycle_plan m
  | Hold =>
    dsimp only
    split_ifs
    · exact initiate_cycle_plan m
    · rfl
  | _ => rfl

theorem protocol_do_cycle_stop_plan :
    m.protocol_do_cycle_stop.plan = m.plan ∨ m.protocol_do_cycle_stop.plan = [] := by
  unfold protocol_do_cycle_stop flush
  cases m.state <;> dsimp only
  all_goals first
    | exact .inl rfl
    | (split_ifs <;> first | exact .inl rfl | exact .inr rfl)

theorem mc_cancel_jog_plan : m.mc_cancel_jog.plan = m.plan := by
  unfold mc_cancel_jog
  split_ifs <;> rfl

end Plan

end Realtime

end DuneWeaver
