import DuneWeaver.Protocol.Realtime
import DuneWeaver.Transition.Run

namespace DuneWeaver

namespace Realtime

/-- The branches of `protocol_do_cycle_start` that wake the stepper, provided that
a cycle finds a motion to start. -/
def wakes (m : Realtime) : Bool :=
  let starts := !m.plan.isEmpty && !m.suspend.motionCancel
  match m.state with
  | .SafetyDoor => !m.suspend.safetyDoorAjar && m.suspend.restoreComplete && starts
  | .Idle => starts
  | .Homing => true
  | .Hold => m.suspend.holdComplete && !m.spindle_stop_ovr && starts
  | _ => false

/-- `protocol_do_cycle_stop` takes the branch with `Stepper::reset`. -/
def resets (m : Realtime) : Bool :=
  match m.state with
  | .CheckMode => m.suspend.jogCancel
  | .Idle => m.suspend.jogCancel
  | .Cycle => m.suspend.jogCancel
  | .Jog => m.suspend.jogCancel
  | _ => false

/-- No cycle start leads out of the state, whatever the spindle stop override
says. -/
def IgnoresStart (m : Realtime) : Prop :=
  ∀ ovr, ({ m with spindle_stop_ovr := ovr }).protocol_do_cycle_start.state = m.state

/-- What a handled cycle stop is to leave behind: an idle machine, or a hold that a
later cycle start ends. -/
def Settled (m : Realtime) : Prop :=
  (m.state = .Idle ∧ m.suspend = {}) ∨
    (m.state = .Hold ∧ m.suspend.holdComplete ∧
      (m.spindle_stop_ovr = false → m.protocol_do_cycle_start.state ≠ .Hold))

instance (m : Realtime) : Decidable m.Settled := inferInstanceAs (Decidable (_ ∨ _))

instance (m : Realtime) : Decidable m.IgnoresStart :=
  inferInstanceAs (Decidable (∀ ovr, ({ m with spindle_stop_ovr := ovr }).protocol_do_cycle_start.state = m.state))

end Realtime

/-- The main task and the step interrupt. `cycleStops` counts the posts of
`cycleStopEvent` that have not been handled. -/
structure Stepping extends Realtime where
  awake : Bool := false
  cycleStops : Nat := 0
  deriving DecidableEq

/-- What the main task handles, and what happens in between. `motionCancel` is also
what a jog cancel posts; `ended` is the interrupt that finds no segment left. -/
inductive StepEvent where
  | feedHold
  | cycleStart
  | stopJob (job_active : Bool) (posted : Option Nat)
  | motionCancel
  | cycleStop
  | ended
  | prepared (endMotion updateSpindleSpeed : Bool)
  | planned (plan : List Block)
  | spindleStop (ovr : Bool)
  deriving DecidableEq

namespace Stepping

def step (m : Stepping) : StepEvent → Stepping
  | .feedHold => { m with toRealtime := m.toRealtime.protocol_do_feedhold }
  | .cycleStart =>
    { m with toRealtime := m.toRealtime.protocol_do_cycle_start, awake := m.awake || m.wakes }
  | .stopJob job_active posted =>
    { m with
      toRealtime := m.toRealtime.protocol_do_stop_job job_active posted
      awake := m.awake && m.state != .Hold }
  | .motionCancel => { m with toRealtime := m.toRealtime.protocol_do_motion_cancel }
  | .cycleStop =>
    if 0 < m.cycleStops then
      { toRealtime := m.toRealtime.protocol_do_cycle_stop
        awake := m.awake && !m.resets
        cycleStops := m.cycleStops - 1 }
    else m
  | .ended => if m.awake then { m with awake := false, cycleStops := m.cycleStops + 1 } else m
  | .prepared endMotion updateSpindleSpeed =>
    { m with step_control := { m.step_control with endMotion, updateSpindleSpeed } }
  | .planned plan => { m with plan }
  | .spindleStop ovr => { m with spindle_stop_ovr := ovr }

/-- A cycle stop is still to come: posted, or to be posted when the motion ends. -/
def Outstanding (m : Stepping) : Prop := m.awake ∨ 0 < m.cycleStops

instance (m : Stepping) : Decidable m.Outstanding := inferInstanceAs (Decidable (_ ∨ _))

/-- A hold that nothing in the machine's own hands will end. -/
def DeadHold (m : Stepping) : Prop := m.state = .Hold ∧ m.IgnoresStart ∧ ¬ m.Outstanding

instance (m : Stepping) : Decidable m.DeadHold := inferInstanceAs (Decidable (_ ∧ _ ∧ _))

/-- Idle, or in a motion that has just been started. -/
structure Starts (m : Stepping) : Prop where
  state : m.state = .Idle ∨ m.state = .Cycle ∨ m.state = .Jog
  suspend : m.suspend = {}
  soft_limit : m.soft_limit = false
  awake : m.awake = (m.state != .Idle)

/-- The event takes a cycle stop from the queue. -/
def HandlesStop (m : Stepping) (e : StepEvent) : Prop := e = .cycleStop ∧ 0 < m.cycleStops

instance (m : Stepping) (e : StepEvent) : Decidable (m.HandlesStop e) := inferInstanceAs (Decidable (_ ∧ _))

/-- A feed hold is not handled while a stop decelerates the cycle. -/
def HoldsInOrder (m : Stepping) (e : StepEvent) : Prop :=
  e = .feedHold → m.state = .Cycle → m.suspend.jogCancel = false

instance (m : Stepping) (e : StepEvent) : Decidable (m.HoldsInOrder e) :=
  inferInstanceAs (Decidable (_ → _ → _))

/-- What keeps every hold alive. A motion that is being canceled decelerates, a
cycle has its stop to come, and a hold is complete or decelerates for a stop
that will complete it. -/
structure Inv (m : Stepping) : Prop where
  state : m.state = .Idle ∨ m.state = .Cycle ∨ m.state = .Jog ∨ m.state = .Hold
  door : m.suspend.safetyDoorAjar = false
  soft_limit : m.soft_limit = false
  canceled : m.state = .Cycle → m.suspend.motionCancel ∨ m.suspend.jogCancel → m.step_control.executeHold
  moving : m.state = .Cycle → m.Outstanding
  held : m.state = .Hold → m.suspend.holdComplete ∨
    (m.suspend.jogCancel = false ∧ m.step_control.executeHold ∧ m.Outstanding)

theorem Starts.inv {m : Stepping} (h : m.Starts) : m.Inv where
  state := by
    obtain hstate | hstate | hstate := h.state <;> simp [hstate]
  door := by simp [h.suspend]
  soft_limit := h.soft_limit
  canceled := by simp [h.suspend]
  moving := by
    intro hstate
    exact .inl (by simp [h.awake, hstate])
  held := by
    intro hstate
    obtain hother | hother | hother := h.state <;> simp [hother] at hstate

/-- A complete hold ends at a cycle start. -/
private theorem cycle_start_leaves (m : Realtime) (hstate : m.state = .Hold) (hcomplete : m.suspend.holdComplete)
    (hovr : m.spindle_stop_ovr = false) : m.protocol_do_cycle_start.state ≠ .Hold := by
  unfold Realtime.protocol_do_cycle_start Realtime.protocol_do_initiate_cycle
  simp only [hstate, hcomplete, hovr, true_and, Bool.false_eq_true, not_false_eq_true, if_true]
  split
  · dsimp only
    split_ifs <;> simp
  · simp

/-- A hold that is complete is not dead, nor is one whose stop is still to come. -/
theorem Inv.alive {m : Stepping} (h : m.Inv) : ¬ m.DeadHold := by
  rintro ⟨hstate, hignores, hnone⟩
  obtain hcomplete | ⟨_, _, hcoming⟩ := h.held hstate
  · exact cycle_start_leaves { m.toRealtime with spindle_stop_ovr := false } hstate hcomplete rfl
      ((hignores false).trans hstate)
  · exact hnone hcoming

section Handlers

variable {m : Stepping}

/-- What the interrupts and the rest of the main task do between the events keeps a
stop to come. -/
theorem Inv.of_same {n : Stepping} (h : m.Inv) (hstate : n.state = m.state) (hsuspend : n.suspend = m.suspend)
    (hhold : n.step_control.executeHold = m.step_control.executeHold) (hsoft : n.soft_limit = m.soft_limit)
    (hcoming : m.Outstanding → n.Outstanding) : n.Inv where
  state := hstate ▸ h.state
  door := hsuspend ▸ h.door
  soft_limit := hsoft.trans h.soft_limit
  canceled := by
    rw [hstate, hsuspend, hhold]
    exact h.canceled
  moving := by
    rw [hstate]
    exact fun hcycle => hcoming (h.moving hcycle)
  held := by
    rw [hstate, hsuspend, hhold]
    exact fun hheld => (h.held hheld).imp_right fun ⟨hjog, hholds, hstop⟩ => ⟨hjog, hholds, hcoming hstop⟩

/-- A jog cancel decelerates the motion, unless something else cancels it already. -/
theorem Inv.cancel_jogging (h : m.Inv) (hstate : m.state = .Cycle ∨ m.state = .Jog) :
    Inv { m with toRealtime := m.protocol_cancel_jogging } := by
  unfold Realtime.protocol_cancel_jogging
  split_ifs
  · exact h
  · exact { state := h.state, door := h.door, soft_limit := h.soft_limit, canceled := fun _ _ => rfl
            moving := h.moving
            held := fun hhold => by
              obtain hother | hother := hstate <;> simp [hother] at hhold }

theorem Inv.feedHold (h : m.Inv) (horder : m.HoldsInOrder .feedHold) : (m.step .feedHold).Inv := by
  have hdoor := h.door
  have hsoft := h.soft_limit
  obtain hstate | hstate | hstate | hstate := h.state
  · constructor <;> simp [step, Realtime.protocol_do_feedhold, Realtime.protocol_hold_complete, hstate, hsoft]
  · have hjog := horder rfl hstate
    have hcoming := h.moving hstate
    have hcanceled := h.canceled hstate
    unfold step Realtime.protocol_do_feedhold Realtime.protocol_start_holding
    rw [hstate]
    dsimp only
    split_ifs with hblocked
    · exact { state := by simp, door := hdoor, soft_limit := hsoft, canceled := by simp, moving := by simp
              held := fun _ => .inr ⟨hjog, hcanceled hblocked, hcoming⟩ }
    · exact { state := by simp, door := hdoor, soft_limit := hsoft, canceled := by simp, moving := by simp
              held := fun _ => .inr ⟨hjog, rfl, hcoming⟩ }
  · unfold step Realtime.protocol_do_feedhold
    rw [hstate]
    exact h.cancel_jogging (.inr hstate)
  · unfold step Realtime.protocol_do_feedhold
    rw [hstate]
    exact h

/-- A cycle start either begins a motion, with the stepper awake, or leaves the
machine idle. -/
private theorem initiate_cycle_inv (start : Realtime) (hsoft : start.soft_limit = false) (awake : Bool)
    (cycleStops : Nat) (hwakes : start.plan ≠ [] → start.suspend.motionCancel = false → awake = true) :
    Inv { toRealtime := start.protocol_do_initiate_cycle, awake, cycleStops } := by
  unfold Realtime.protocol_do_initiate_cycle
  split
  · rename_i block rest hplan
    constructor
    · dsimp only
      split_ifs <;> simp
    · rfl
    · exact hsoft
    · intro _ hcanceled
      simp at hcanceled
    · dsimp only
      intro hcycle
      cases hmotion : start.suspend.motionCancel with
      | true => simp [hmotion] at hcycle
      | false => exact .inl (hwakes (by simp [hplan]) hmotion)
    · dsimp only
      intro hhold
      split_ifs at hhold
  · constructor <;> simp [hsoft]

theorem Inv.cycleStart (h : m.Inv) : (m.step .cycleStart).Inv := by
  unfold step
  dsimp only
  have hsame (hstart : m.protocol_do_cycle_start = m.toRealtime) :
      Inv { m with toRealtime := m.protocol_do_cycle_start, awake := m.awake || m.wakes } := by
    rw [hstart]
    have hawake (hcoming : m.Outstanding) :
        Outstanding { m with toRealtime := m.toRealtime, awake := m.awake || m.wakes } := by
      obtain hawake | hposted := hcoming
      · exact .inl (by simp [hawake])
      · exact .inr hposted
    exact { h with
      moving := fun hstate => hawake (h.moving hstate)
      held := fun hstate => (h.held hstate).imp_right fun ⟨hjog, hholds, hcoming⟩ => ⟨hjog, hholds, hawake hcoming⟩ }
  obtain hstate | hstate | hstate | hstate := h.state
  · have hstart : m.protocol_do_cycle_start = m.protocol_do_initiate_cycle := by
      simp [Realtime.protocol_do_cycle_start, hstate]
    rw [hstart]
    apply initiate_cycle_inv _ h.soft_limit
    intro hplan hmotion
    simp [Realtime.wakes, hstate, hplan, hmotion]
  · exact hsame (by simp [Realtime.protocol_do_cycle_start, hstate])
  · exact hsame (by simp [Realtime.protocol_do_cycle_start, hstate])
  · by_cases hready : m.suspend.holdComplete ∧ ¬ m.spindle_stop_ovr
    · have hstart : m.protocol_do_cycle_start = m.protocol_do_initiate_cycle := by
        simp [Realtime.protocol_do_cycle_start, hstate, hready]
      rw [hstart]
      apply initiate_cycle_inv _ h.soft_limit
      intro hplan hmotion
      simp [Realtime.wakes, hstate, hplan, hmotion, hready]
    · apply hsame
      unfold Realtime.protocol_do_cycle_start
      rw [hstate]
      exact if_neg hready

theorem Inv.stopJob (h : m.Inv) (job_active : Bool) (posted : Option Nat) :
    (m.step (.stopJob job_active posted)).Inv := by
  have hslow (hstate : m.state = .Cycle ∨ m.state = .Jog) : (m.step (.stopJob job_active posted)).Inv := by
    have hslowed := h.cancel_jogging hstate
    unfold step Realtime.protocol_do_stop_job
    obtain hstate | hstate := hstate
    · rw [hstate]
      exact hslowed.of_same rfl rfl rfl rfl (by simp [Outstanding])
    · rw [hstate]
      exact hslowed.of_same rfl rfl rfl rfl (by simp [Outstanding])
  obtain hstate | hstate | hstate | hstate := h.state
  · constructor <;> simp [step, Realtime.protocol_do_stop_job, hstate, h.door, h.soft_limit]
  · exact hslow (.inl hstate)
  · exact hslow (.inr hstate)
  · constructor <;> simp [step, Realtime.protocol_do_stop_job, Realtime.flush, hstate, h.soft_limit]

theorem Inv.motionCancel (h : m.Inv) : (m.step .motionCancel).Inv := by
  have hdoor := h.door
  have hsoft := h.soft_limit
  obtain hstate | hstate | hstate | hstate := h.state
  · constructor <;>
      simp [step, Realtime.protocol_do_motion_cancel, Realtime.protocol_hold_complete, hstate, hsoft]
  · have hcoming := h.moving hstate
    have hcanceled := h.canceled hstate
    unfold step Realtime.protocol_do_motion_cancel Realtime.protocol_start_holding
    rw [hstate]
    dsimp only
    split_ifs with hblocked
    · constructor <;> simp_all [Outstanding]
    · constructor <;> simp_all [Outstanding]
  · unfold step Realtime.protocol_do_motion_cancel
    rw [hstate]
    exact h.cancel_jogging (.inr hstate)
  · have hheld := h.held hstate
    constructor <;> simp_all [step, Realtime.protocol_do_motion_cancel, Outstanding]

/-- Where no hold waits for it, a cycle stop leaves the machine idle. -/
private theorem cycle_stop_idles (m : Realtime) (hdoor : m.suspend.safetyDoorAjar = false)
    (hstate : m.state = .Idle ∨ m.state = .Cycle ∨ m.state = .Jog) :
    ∃ n : Realtime, m.protocol_do_cycle_stop = { n with suspend := {}, state := .Idle } ∧
      n.soft_limit = m.soft_limit := by
  refine ⟨if m.suspend.jogCancel then m.flush else m, ?_, by split_ifs <;> rfl⟩
  have hclosed : ¬ (if m.suspend.jogCancel then m.flush else m).suspend.safetyDoorAjar := by
    split_ifs <;> simp [Realtime.flush, hdoor]
  unfold Realtime.protocol_do_cycle_stop
  obtain hstate | hstate | hstate := hstate <;> rw [hstate] <;> exact if_neg hclosed

/-- A cycle stop completes the hold it is handled in. -/
private theorem cycle_stop_holds (h : m.Inv) (hstate : m.state = .Hold) :
    m.protocol_do_cycle_stop.state = .Hold ∧ m.protocol_do_cycle_stop.suspend.holdComplete ∧
      m.protocol_do_cycle_stop.suspend.safetyDoorAjar = false ∧
      m.protocol_do_cycle_stop.soft_limit = false := by
  have hdoor := h.door
  have hsoft := h.soft_limit
  unfold Realtime.protocol_do_cycle_stop
  rw [hstate]
  dsimp only
  obtain hcomplete | ⟨hjog, hholds, _⟩ := h.held hstate
  · split_ifs
    · simp [hstate, hcomplete, hdoor, hsoft]
    · exact ⟨hstate, hcomplete, hdoor, hsoft⟩
  · rw [if_pos (by simp [hsoft, hjog])]
    simp [hstate, hholds, hdoor, hsoft]

theorem Inv.cycleStop (h : m.Inv) : (m.step .cycleStop).Inv := by
  have hidles (hstate : m.state = .Idle ∨ m.state = .Cycle ∨ m.state = .Jog) (awake : Bool) (cycleStops : Nat) :
      Inv { toRealtime := m.protocol_do_cycle_stop, awake, cycleStops } := by
    obtain ⟨n, hidle, hsoft⟩ := cycle_stop_idles m.toRealtime h.door hstate
    rw [hidle]
    constructor <;> simp [hsoft, h.soft_limit]
  unfold step
  dsimp only
  split_ifs
  · obtain hstate | hstate | hstate | hstate := h.state
    · exact hidles (.inl hstate) _ _
    · exact hidles (.inr (.inl hstate)) _ _
    · exact hidles (.inr (.inr hstate)) _ _
    · obtain ⟨hhold, hcomplete, hdoor, hsoft⟩ := cycle_stop_holds h hstate
      constructor <;> simp [hhold, hcomplete, hdoor, hsoft]
  · exact h

theorem Inv.ended (h : m.Inv) : (m.step .ended).Inv := by
  unfold step
  dsimp only
  split_ifs
  · exact h.of_same rfl rfl rfl rfl fun _ => .inr (by simp)
  · exact h

/-- Every event keeps the invariant, but for a feed hold that comes into a stop. -/
theorem Inv.step (h : m.Inv) (e : StepEvent) (horder : m.HoldsInOrder e) : (m.step e).Inv := by
  cases e with
  | feedHold => exact h.feedHold horder
  | cycleStart => exact h.cycleStart
  | stopJob job_active posted => exact h.stopJob job_active posted
  | motionCancel => exact h.motionCancel
  | cycleStop => exact h.cycleStop
  | ended => exact h.ended
  | prepared => exact h.of_same rfl rfl rfl rfl id
  | planned => exact h.of_same rfl rfl rfl rfl id
  | spindleStop => exact h.of_same rfl rfl rfl rfl id

/-- A handled cycle stop ends the motion, or completes the hold. -/
theorem Inv.settles (h : m.Inv) (e : StepEvent) (hstop : m.HandlesStop e) : (m.step e).Settled := by
  obtain ⟨rfl, hposted⟩ := hstop
  have hidles (hstate : m.state = .Idle ∨ m.state = .Cycle ∨ m.state = .Jog) : m.protocol_do_cycle_stop.Settled := by
    obtain ⟨n, hidle, _⟩ := cycle_stop_idles m.toRealtime h.door hstate
    rw [hidle]
    exact .inl ⟨rfl, rfl⟩
  unfold Stepping.step
  dsimp only
  rw [if_pos hposted]
  obtain hstate | hstate | hstate | hstate := h.state
  · exact hidles (.inl hstate)
  · exact hidles (.inr (.inl hstate))
  · exact hidles (.inr (.inr hstate))
  · obtain ⟨hhold, hcomplete, _⟩ := cycle_stop_holds h hstate
    exact .inr ⟨hhold, hcomplete, cycle_start_leaves _ hhold hcomplete⟩

end Handlers

/-- A handled cycle stop leaves the machine idle or in a hold that can be ended, and
no hold is dead, in every run in which no feed hold is handled while a stop
decelerates the cycle. -/
theorem cycle_stop_settles (m : Stepping) (events : List StepEvent) (hstart : m.Starts)
    (horder : Transition.Throughout step HoldsInOrder m events) :
    Transition.Throughout step (fun m e => m.HandlesStop e → (m.step e).Settled) m events ∧
      Transition.Always step (fun m => ¬ m.DeadHold) m events := by
  have hstep (m : Stepping) (e : StepEvent) (h : m.Inv) (horder : m.HoldsInOrder e) : (m.step e).Inv :=
    h.step e horder
  constructor
  · exact Transition.throughout_of_invariant hstep (fun _ e h _ => h.settles e) hstart.inv horder
  · exact (Transition.always_of_invariant hstep hstart.inv horder).mono fun _ h => h.alive

/-- A cycle of one motion, in full swing. -/
private def moving : Stepping where
  toRealtime := { state := .Cycle, plan := [{ is_jog := false }] }
  awake := true

/-- The hold that comes before the stop, and the cycle stop that completes it. -/
theorem hold_settles :
    Transition.Throughout step (fun m e => m.HandlesStop e → (m.step e).Settled) moving
        [.feedHold, .ended, .cycleStop, .stopJob true none] ∧
      Transition.Always step (fun m => ¬ m.DeadHold) moving
        [.feedHold, .ended, .cycleStop, .stopJob true none] :=
  cycle_stop_settles moving _ ⟨by decide, rfl, rfl, rfl⟩ (by decide)

/-- A feed hold that comes while a stop decelerates the cycle is a dead hold once the
cycle stop is handled. -/
theorem hold_after_stop_is_dead :
    ¬ ∀ (m : Stepping) (events : List StepEvent), m.Starts →
      Transition.Throughout step (fun m e => m.HandlesStop e → (m.step e).Settled) m events ∧
        Transition.Always step (fun m => ¬ m.DeadHold) m events := by
  intro h
  have halive := (h moving [.stopJob true none, .feedHold, .ended, .cycleStop] ⟨by decide, rfl, rfl, rfl⟩).2.last
  exact halive (by decide)

end Stepping

end DuneWeaver
