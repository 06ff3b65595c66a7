import DuneWeaver.Protocol.Rest
import DuneWeaver.Settings.Setting

open Transition

namespace DuneWeaver.Drive

/-- What a setting sees of the machine. -/
def writeEnv (m : Drive) : WriteEnv := { state := m.state, isStepping := m.awake }

/-- A setting that may be written finds the step generator at rest. -/
def WritesAtRest (m : Drive) : Prop := ∀ allow_hold, check_state m.writeEnv allow_hold = .Ok → m.awake = false

/-- The machine as it starts, idle and at rest. -/
theorem sound_boot : Sound {} := by
  constructor <;> simp

/-- The states that let a setting through are those in which the step generator does
not run, but for a hold, of which the step generator itself is asked. -/
theorem Sound.writes_at_rest {m : Drive} (h : Sound m) : m.WritesAtRest := by
  intro allow_hold hok
  by_contra hawake
  rw [Bool.not_eq_false] at hawake
  have hruns := (h.running hawake).1
  simp only [check_state, writeEnv, hawake] at hok
  cases hstate : m.state <;> simp_all [State.runs, notIdleOrAlarm]

/-- No setting is written under a running step generator, in every state of every run
in which a door, an alarm and a complete hold find it at rest, and nothing parks. -/
theorem no_write_while_stepping (turns : List Turn) (horderly : Throughout step Orderly {} turns) :
    Always step WritesAtRest {} turns := by
  have hsound : Always step Sound {} turns := always_of_invariant (fun _ _ h ho => h.step ho) sound_boot horderly
  exact hsound.mono fun _ h => h.writes_at_rest

/-- A cycle that runs, slows down for a feed hold, comes to rest and is resumed. -/
theorem no_write_while_stepping_hold :
    Always step WritesAtRest {}
      [.plan { is_jog := false }, .post .cycleStart, .enter, .handle true, .handle true, .post .feedHold, .enter,
        .handle true, .drain, .handle true, .handle true, .post .cycleStart, .enter, .handle true] := by
  exact no_write_while_stepping _ (by decide)

/-- The safety door opens during a cycle: the state is `SafetyDoor` from then on, and
the motion still slows down. -/
theorem write_under_open_door :
    ¬ Always step WritesAtRest {}
      [.plan { is_jog := false }, .post .cycleStart, .enter, .handle true, .handle true, .post .safetyDoor, .enter,
        .handle true, .handle true, .enter] := by
  intro h
  exact absurd (h.last false (by decide)) (by decide)

end DuneWeaver.Drive

namespace DuneWeaver

/-- The events of holding, starting, stopping and canceling. -/
def Signal.stops : Signal → Bool
  | .feedHold | .cycleStart | .stopJob | .motionCancel | .cycleStop => true
  | _ => false

/-- Neither an alarm, nor a door, nor homing has had a say. -/
structure Realtime.Plain (m : Realtime) : Prop where
  state : m.state = .Idle ∨ m.state = .Cycle ∨ m.state = .Jog ∨ m.state = .Hold
  ajar : m.suspend.safetyDoorAjar = false

namespace Realtime.Plain

variable {m : Realtime}

theorem feedhold (h : Plain m) : Plain m.protocol_do_feedhold := by
  obtain ⟨hstate, hajar⟩ := h
  unfold protocol_do_feedhold
  rcases hstate with hstate | hstate | hstate | hstate <;> constructor <;>
    simp [hstate, hajar, protocol_hold_complete]

theorem motion_cancel (h : Plain m) : Plain m.protocol_do_motion_cancel := by
  obtain ⟨hstate, hajar⟩ := h
  unfold protocol_do_motion_cancel
  rcases hstate with hstate | hstate | hstate | hstate <;> constructor <;>
    simp [hstate, hajar, protocol_hold_complete]

theorem stop_job (h : Plain m) (job_active : Bool) : Plain (m.protocol_do_stop_job job_active none) := by
  obtain ⟨hstate, hajar⟩ := h
  unfold protocol_do_stop_job
  rcases hstate with hstate | hstate | hstate | hstate <;> constructor <;> simp [hstate, hajar, flush]

theorem initiate_cycle (m : Realtime) : Plain m.protocol_do_initiate_cycle := by
  obtain ⟨hsuspend, -, hstate⟩ := m.initiate_cycle_spec
  refine ⟨?_, by rw [hsuspend]⟩
  split at hstate
  · rcases hstate with hstate | hstate <;> simp [hstate]
  · exact Or.inl hstate

theorem cycle_start (h : Plain m) : Plain m.protocol_do_cycle_start := by
  unfold protocol_do_cycle_start
  rcases h.state with hstate | hstate | hstate | hstate
  · rw [hstate]
    exact initiate_cycle m
  · rw [hstate]
    exact h
  · rw [hstate]
    exact h
  · simp only [hstate]
    split
    · exact initiate_cycle m
    · exact h

theorem cycle_stop (h : Plain m) : Plain m.protocol_do_cycle_stop := by
  obtain ⟨hstate, hajar⟩ := h
  unfold protocol_do_cycle_stop flush
  rcases hstate with hstate | hstate | hstate | hstate <;> simp only [hstate] <;> split_ifs <;> constructor <;>
    simp_all

end Realtime.Plain

namespace Drive

/-- The turn posts no other event than these. -/
def PostsStops : Turn → Prop
  | .post signal => signal.stops
  | _ => True

/-- A stop is handled in `Hold` while the step generator is still slowing down. -/
def StopsInMotion (m : Drive) (turn : Turn) : Prop :=
  (∃ job_active, turn = .handle job_active) ∧ m.handling ∧ m.event_queue.head? = some .stopJob ∧
    m.state = .Hold ∧ m.awake

/-- What the machine is while nothing but these events is posted. -/
structure Plain (m : Drive) : Prop where
  plain : m.toRealtime.Plain
  rtSafetyDoor : m.rtSafetyDoor = false
  queue : ∀ signal ∈ m.event_queue, signal.stops

namespace Plain

variable {m : Drive}

/-- These events do not have to come in any order to keep the machine sound. -/
theorem orderly (h : Plain m) (turn : Turn) : m.Orderly turn := by
  cases turn with
  | enter =>
    intro _ hdoor
    rw [h.rtSafetyDoor] at hdoor
    cases hdoor
  | handle job_active =>
    intro _
    cases hqueue : m.event_queue with
    | nil => trivial
    | cons signal rest =>
      cases signal with
      | alarm alarm =>
        have hstops := h.queue (.alarm alarm) (by rw [hqueue]; exact List.mem_cons_self)
        cases hstops
      | feedHold =>
        intro hcritical
        have hstate := h.plain.state
        simp [hcritical] at hstate
      | _ => trivial
  | suspended env =>
    intro hdoor
    have hstate := h.plain.state
    rcases hdoor with hdoor | hdoor <;> simp [hdoor] at hstate
  | _ => trivial

private theorem send {signal : Signal} (h : Plain m) (hstops : signal.stops) :
    Plain (m.protocol_send_event signal) := by
  rw [protocol_send_event]
  split
  · refine ⟨h.plain, h.rtSafetyDoor, ?_⟩
    intro other hother
    rcases List.mem_append.mp hother with hother | hother
    · exact h.queue other hother
    · rw [List.mem_singleton.mp hother]
      exact hstops
  · exact h

/-- The handler of one of these events. -/
private theorem handler {signal : Signal} {job_active : Bool} (h : Plain m) (hstops : signal.stops) :
    Plain (m.handler job_active signal) := by
  cases signal with
  | feedHold => exact ⟨h.plain.feedhold, h.rtSafetyDoor, h.queue⟩
  | cycleStart =>
    simp only [Drive.handler, protocol_do_cycle_start_eq]
    exact ⟨h.plain.cycle_start, h.rtSafetyDoor, h.queue⟩
  | stopJob =>
    simp only [Drive.handler, protocol_do_stop_job_eq]
    exact ⟨h.plain.stop_job job_active, h.rtSafetyDoor, h.queue⟩
  | motionCancel => exact ⟨h.plain.motion_cancel, h.rtSafetyDoor, h.queue⟩
  | cycleStop =>
    simp only [Drive.handler, protocol_do_cycle_stop_eq]
    exact ⟨h.plain.cycle_stop, h.rtSafetyDoor, h.queue⟩
  | safetyDoor => cases hstops
  | sleep => cases hstops
  | alarm alarm => cases hstops

private theorem handle {job_active : Bool} (h : Plain m) : Plain (m.protocol_handle_events job_active) := by
  rw [protocol_handle_events]
  split
  · exact { h with }
  · rename_i signal rest hqueue
    have hpopped : Plain { m with event_queue := rest } := by
      refine ⟨h.plain, h.rtSafetyDoor, ?_⟩
      intro other hother
      exact h.queue other (by rw [hqueue]; exact List.mem_cons_of_mem _ hother)
    exact hpopped.handler (h.queue signal (by rw [hqueue]; exact List.mem_cons_self))

/-- The suspend loop has nothing to do with a door or with sleep here: it drops a jog and
resumes after a spindle stop. -/
theorem suspended_cases (h : Plain m) (env : Surroundings) :
    ∃ canceled : Drive, canceled.Plain ∧ canceled.cut_short = m.cut_short ∧
      (m.protocol_exec_rt_suspend env = canceled ∨
        m.protocol_exec_rt_suspend env =
          { canceled.protocol_send_event .cycleStart with spindle_stop_ovr := false }) := by
  obtain ⟨canceled, hcanceled, hcut, heq⟩ : ∃ canceled : Drive, canceled.Plain ∧ canceled.cut_short = m.cut_short ∧
      canceled = if m.suspend.jogCancel then { m with toRealtime := m.mc_cancel_jog } else m := by
    refine ⟨_, ?_, ?_, rfl⟩ <;> split
    · unfold Realtime.mc_cancel_jog
      split
      · exact { h with plain := { h.plain with } }
      · exact h
    · exact h
    · rfl
    · rfl
  have hstate : ¬ (canceled.state = .SafetyDoor ∨ canceled.state = .Sleep) := by
    rcases hcanceled.plain.state with hstate | hstate | hstate | hstate <;> simp [hstate]
  refine ⟨canceled, hcanceled, hcut, ?_⟩
  rw [protocol_exec_rt_suspend, ← heq, if_neg hstate]
  split
  · split
    · exact Or.inr rfl
    · exact Or.inl rfl
  · exact Or.inl rfl

private theorem suspended {env : Surroundings} (h : Plain m) : Plain (m.protocol_exec_rt_suspend env) := by
  obtain ⟨canceled, hcanceled, -, heq | heq⟩ := h.suspended_cases env
  · rw [heq]
    exact hcanceled
  · rw [heq]
    have hsent : Plain (canceled.protocol_send_event .cycleStart) := hcanceled.send rfl
    exact { hsent with plain := { hsent.plain with } }

theorem step {turn : Turn} (h : Plain m) (hposts : PostsStops turn) : Plain (m.step turn) := by
  cases turn <;> simp only [Drive.step]
  case post signal =>
    split
    · exact h
    · exact h.send hposts
  case drain =>
    split
    · have hrest : Plain { m with awake := false } := { h with }
      exact hrest.send rfl
    · exact h
  case plan block =>
    split
    · exact h
    · exact { h with plain := { h.plain with } }
  case discard => exact { h with plain := { h.plain with } }
  case enter =>
    split
    · exact h
    · rw [protocol_exec_rt_system, h.rtSafetyDoor]
      exact { h with }
  case handle job_active =>
    split
    · exact h.handle
    · exact h
  case suspended env =>
    split
    · exact h
    · exact h.suspended
  case parked =>
    split
    · exact { h with }
    · exact h

end Plain

section CutShort

variable {m : Drive}

@[simp] theorem send_cut_short (signal : Signal) : (m.protocol_send_event signal).cut_short = m.cut_short := by
  rw [protocol_send_event]
  split <;> rfl

/-- Of the events, a stop cuts the step generator short when it finds it running. -/
theorem handler_cut_short {signal : Signal} (hstops : signal.stops) (job_active : Bool)
    (hlast : signal = .cycleStop → m.awake = false) :
    (m.handler job_active signal).cut_short =
      (m.cut_short || (signal = .stopJob && m.awake && m.state = .Hold)) := by
  cases signal with
  | feedHold => simp [handler, protocol_do_feedhold]
  | cycleStart => simp [handler, protocol_do_cycle_start_eq]
  | stopJob => simp [handler, protocol_do_stop_job_eq]
  | motionCancel => simp [handler, protocol_do_motion_cancel]
  | cycleStop => simp [handler, protocol_do_cycle_stop_eq, hlast rfl]
  | safetyDoor => cases hstops
  | sleep => cases hstops
  | alarm alarm => cases hstops

theorem plain_boot : Plain {} := by
  refine ⟨⟨Or.inl rfl, rfl⟩, rfl, ?_⟩
  simp

/-- The step generator is cut short by a stop that finds it running, and by nothing else. -/
theorem step_cut_short {turn : Turn} (hsound : Sound m) (hplain : Plain m) (hwhole : m.cut_short = false) :
    (m.step turn).cut_short = false ↔ ¬ m.StopsInMotion turn := by
  cases turn with
  | handle job_active =>
    simp only [step]
    split
    · rename_i hin
      rw [protocol_handle_events]
      split
      · rename_i hqueue
        simp [StopsInMotion, hqueue, hwhole]
      · rename_i signal rest hqueue
        have hstops := hplain.queue signal (by rw [hqueue]; exact List.mem_cons_self)
        have hlast : signal = .cycleStop → m.awake = false := by
          intro hsignal
          exact hsound.posted (by rw [hqueue, hsignal]; exact List.mem_cons_self)
        rw [handler_cut_short (m := { m with event_queue := rest }) hstops job_active hlast]
        have hbad : m.StopsInMotion (.handle job_active) ↔ signal = .stopJob ∧ m.state = .Hold ∧ m.awake := by
          simp [StopsInMotion, hqueue, hin]
        rw [hbad, hwhole, Bool.false_or, ← Bool.not_eq_true]
        apply not_congr
        simp only [Bool.and_eq_true, decide_eq_true_eq, and_assoc]
        exact and_congr_right' and_comm
    · rename_i hout
      simp [StopsInMotion, hout, hwhole]
  | suspended env =>
    simp only [step]
    split
    · simp [StopsInMotion, hwhole]
    · obtain ⟨canceled, -, hcut, heq | heq⟩ := hplain.suspended_cases env <;>
        simp [heq, hcut, StopsInMotion, hwhole]
  | enter =>
    simp only [step, protocol_exec_rt_system, hplain.rtSafetyDoor]
    split <;> simp [StopsInMotion, hwhole]
  | post signal | drain | plan block | parked =>
    simp only [step]
    split <;> simp [StopsInMotion, hwhole]
  | discard => simp [step, StopsInMotion, hwhole]

/-- The planner and the stepper are only flushed at rest, in every state of a run, precisely
when no stop is handled in `Hold` while the step generator is still slowing down. -/
theorem flushed_at_rest (turns : List Turn) (hposts : ∀ turn ∈ turns, PostsStops turn) :
    Always step (fun m => m.cut_short = false) {} turns ↔
      Throughout step (fun m turn => ¬ m.StopsInMotion turn) {} turns := by
  have hall : Throughout step (fun _ turn => PostsStops turn) {} turns := throughout_of_mem hposts _
  exact always_iff_throughout_not (I := fun m => Sound m ∧ Plain m)
    (fun _ _ h hpost _ => ⟨h.1.step (h.2.orderly _), h.2.step hpost⟩)
    (fun _ _ h _ hwhole => step_cut_short h.1 h.2 hwhole) ⟨sound_boot, plain_boot⟩ rfl hall

/-- A cycle is held, comes to rest, and is stopped then. -/
theorem flushed_at_rest_hold :
    let turns : List Turn := [.plan { is_jog := false }, .post .cycleStart, .enter, .handle true, .handle true,
      .post .feedHold, .enter, .handle true, .handle true, .drain, .post .stopJob, .enter, .handle true, .handle true]
    Always step (fun m => m.cut_short = false) {} turns ↔
      Throughout step (fun m turn => ¬ m.StopsInMotion turn) {} turns := by
  intro turns
  exact flushed_at_rest turns (by simp [turns, PostsStops, Signal.stops])

/-- The stop of a playlist comes right after the pause: the hold has been asked for, and
the motion still slows down. -/
theorem stop_cuts_hold_short :
    ¬ Always step (fun m => m.cut_short = false) {}
      [.plan { is_jog := false }, .post .cycleStart, .enter, .handle true, .handle true, .post .feedHold,
        .post .stopJob, .enter, .handle true, .handle true] := by
  intro h
  exact absurd h.last (by decide)

end CutShort

end Drive

end DuneWeaver
