import DuneWeaver.Protocol.Drive

namespace DuneWeaver

/-- The states in which the step generator may run. -/
def State.runs : State → Bool
  | .Cycle | .Jog | .Hold | .Sleep | .Critical => true
  | _ => false

namespace Realtime

section Slowing

variable (m : Realtime)

@[simp] theorem start_holding_state : m.protocol_start_holding.state = m.state := by
  rw [protocol_start_holding]
  split_ifs <;> rfl

@[simp] theorem start_holding_suspend : m.protocol_start_holding.suspend = m.suspend := by
  rw [protocol_start_holding]
  split_ifs <;> rfl

@[simp] theorem start_holding_plan_eq : m.protocol_start_holding.plan = m.plan := by
  rw [protocol_start_holding]
  split_ifs <;> rfl

@[simp] theorem cancel_jogging_state : m.protocol_cancel_jogging.state = m.state := by
  rw [protocol_cancel_jogging]
  split_ifs <;> rfl

@[simp] theorem cancel_jogging_plan_eq : m.protocol_cancel_jogging.plan = m.plan := by
  rw [protocol_cancel_jogging]
  split_ifs <;> rfl

/-- A cancel that is not blocked is noted. -/
@[simp] theorem cancel_jogging_suspend :
    m.protocol_cancel_jogging.suspend = { m.suspend with jogCancel := m.suspend.jogCancel ||
      !m.suspend.motionCancel } := by
  rw [protocol_cancel_jogging]
  split_ifs with hblocked
  · have hnoted : (m.suspend.jogCancel || !m.suspend.motionCancel) = m.suspend.jogCancel := by
      rcases hblocked with hblocked | hblocked <;> simp [hblocked]
    rw [hnoted]
  · push Not at hblocked
    simp [hblocked]

/-- A cycle starts where there is something to move that is not canceled. -/
theorem initiate_cycle_spec :
    m.protocol_do_initiate_cycle.suspend = {} ∧ m.protocol_do_initiate_cycle.plan = m.plan ∧
      if !m.plan.isEmpty && !m.suspend.motionCancel then
        m.protocol_do_initiate_cycle.state = .Cycle ∨ m.protocol_do_initiate_cycle.state = .Jog
      else m.protocol_do_initiate_cycle.state = .Idle := by
  rw [protocol_do_initiate_cycle]
  cases hplan : m.plan with
  | nil => simp
  | cons block plan =>
    cases hcancel : m.suspend.motionCancel with
    | true => simp
    | false => cases hjog : block.is_jog <;> simp [hjog]

/-- A cycle stop leaves a hold and an alarm as they are, and ends a motion. -/
theorem cycle_stop_spec :
    (m.protocol_do_cycle_stop.state = m.state ∧ m.state ≠ .Cycle ∧ m.state ≠ .Jog ∨
      m.protocol_do_cycle_stop.state = .Idle ∨ m.protocol_do_cycle_stop.state = .SafetyDoor) ∧
    (m.suspend.restoreComplete = false → m.protocol_do_cycle_stop.suspend.restoreComplete = false) := by
  unfold protocol_do_cycle_stop flush
  cases hstate : m.state with
  | CheckMode | Idle | Cycle | Jog =>
    dsimp only
    rcases m.suspend.jogCancel with _ | _ <;> rcases hajar : m.suspend.safetyDoorAjar with _ | _ <;> simp [hajar]
  | Hold | SafetyDoor | Sleep =>
    dsimp only
    split_ifs <;> simp [hstate]
  | _ => simp [hstate]

end Slowing

end Realtime

namespace Drive

variable {m : Drive}

/-- What keeps the step generator and its `cycleStop` in step. At most one is in the
queue, and then the generator is at rest, and no handler will wake it before it
is handled: there is nothing to move, or the state does not start a cycle. -/
structure Sound (m : Drive) : Prop where
  running : m.awake → m.state.runs ∧ m.suspend.holdComplete = false
  posted : .cycleStop ∈ m.event_queue → m.awake = false
  once : m.event_queue.count .cycleStop ≤ 1
  moving : m.state = .Cycle ∨ m.state = .Jog → m.suspend.holdComplete = false
  jogging : m.state = .Jog → m.suspend.motionCancel = false
  restoring : m.suspend.restoreComplete = false
  parking : m.parking = false
  known : m.state ≠ .Homing ∧ m.state ≠ .CheckMode ∧ m.state ≠ .ConfigAlarm
  between : m.handling = false → .cycleStop ∈ m.event_queue → m.state ≠ .Idle ∧ m.suspend.holdComplete = false
  within : m.handling → .cycleStop ∈ m.event_queue →
    m.plan = [] ∨ m.state ≠ .Idle ∧ (m.state = .Hold → m.suspend.holdComplete = false)

theorem Sound.pop {signal : Signal} {rest : List Signal} (h : Sound m) (hqueue : m.event_queue = signal :: rest) :
    Sound { m with event_queue := rest } := by
  have hmem : Signal.cycleStop ∈ rest → .cycleStop ∈ m.event_queue := by
    intro hrest
    rw [hqueue]
    exact List.mem_cons_of_mem _ hrest
  have hcount : rest.count .cycleStop ≤ m.event_queue.count .cycleStop := by
    rw [hqueue]
    exact List.count_le_count_cons
  exact {
    h with
    posted := fun hrest => h.posted (hmem hrest)
    once := hcount.trans h.once
    between := fun hout hrest => h.between hout (hmem hrest)
    within := fun hin hrest => h.within hin (hmem hrest) }

/-- A handler that leaves the state. A hold changes in `Idle` alone, where the generator rests. -/
theorem Sound.stays {r : Realtime} (h : Sound m) (hin : m.handling) (hstate : r.state = m.state)
    (hplan : r.plan = m.plan) (hrestoring : r.suspend.restoreComplete = m.suspend.restoreComplete)
    (hhold : m.state ≠ .Idle → r.suspend.holdComplete = m.suspend.holdComplete)
    (hjog : m.state = .Jog → r.suspend.motionCancel = m.suspend.motionCancel) :
    Sound { m with toRealtime := r } where
  running hawake := by
    obtain ⟨hruns, hholding⟩ := h.running hawake
    have hidle : m.state ≠ .Idle := by
      intro hidle
      simp [hidle, State.runs] at hruns
    exact ⟨hstate.symm ▸ hruns, (hhold hidle).trans hholding⟩
  posted := h.posted
  once := h.once
  moving hmoves := by
    rw [hstate] at hmoves
    have hidle : m.state ≠ .Idle := by rcases hmoves with hmoves | hmoves <;> simp [hmoves]
    exact (hhold hidle).trans (h.moving hmoves)
  jogging hjogs := by
    rw [hstate] at hjogs
    exact (hjog hjogs).trans (h.jogging hjogs)
  restoring := hrestoring.trans h.restoring
  parking := h.parking
  known := hstate.symm ▸ h.known
  between hout := absurd (hin.symm.trans hout) (by decide)
  within _ hpending := by
    rw [hstate, hplan]
    refine (h.within hin hpending).imp id fun hbusy => ⟨hbusy.1, fun hholds => ?_⟩
    exact (hhold hbusy.1).trans (hbusy.2 hholds)

/-- A handler that goes to a state in which no motion is started. -/
theorem Sound.leaves {r : Realtime} (h : Sound m) (hin : m.handling)
    (hmoves : r.state ≠ .Cycle ∧ r.state ≠ .Jog ∧ r.state ≠ .Idle)
    (hknown : r.state ≠ .Homing ∧ r.state ≠ .CheckMode ∧ r.state ≠ .ConfigAlarm) (hplan : r.plan = m.plan)
    (hrestoring : r.suspend.restoreComplete = false)
    (hawake : m.awake → r.state.runs ∧ r.suspend.holdComplete = false)
    (hpending : .cycleStop ∈ m.event_queue → m.plan = [] ∨ (r.state = .Hold → r.suspend.holdComplete = false)) :
    Sound { m with toRealtime := r } where
  running := hawake
  posted := h.posted
  once := h.once
  moving hmoving := absurd hmoving (not_or.mpr ⟨hmoves.1, hmoves.2.1⟩)
  jogging hjogs := absurd hjogs hmoves.2.1
  restoring := hrestoring
  parking := h.parking
  known := hknown
  between hout := absurd (hin.symm.trans hout) (by decide)
  within _ hposted := by
    rw [hplan]
    exact (hpending hposted).imp id fun hholding => ⟨hmoves.2.2, hholding⟩

/-- A handler that goes to `Hold`. A hold that is complete finds the generator at rest and nothing to move. -/
theorem Sound.holds {r : Realtime} (h : Sound m) (hin : m.handling) (hstate : r.state = .Hold) (hplan : r.plan = m.plan)
    (hrestoring : r.suspend.restoreComplete = false) (hawake : m.awake → r.suspend.holdComplete = false)
    (hpending : .cycleStop ∈ m.event_queue → m.plan = [] ∨ r.suspend.holdComplete = false) :
    Sound { m with toRealtime := r } :=
  h.leaves hin (by simp [hstate]) (by simp [hstate]) hplan hrestoring (fun hmoves => ⟨hstate.symm ▸ rfl, hawake hmoves⟩)
    fun hposted => (hpending hposted).imp id fun hholding _ => hholding

/-- Where the generator does not run it rests. -/
theorem Sound.at_rest_of_idle (h : Sound m) (hidle : m.state = .Idle) : ¬ m.awake := by
  intro hawake
  have hruns := (h.running hawake).1
  simp [hidle, State.runs] at hruns

/-- The handlers, one after the other, while the main task is in `protocol_handle_events`. -/
theorem Sound.feedhold (h : Sound m) (hin : m.handling)
    (hcritical : m.state = .Critical → m.suspend.holdComplete → .cycleStop ∉ m.event_queue) :
    Sound m.protocol_do_feedhold := by
  unfold protocol_do_feedhold Realtime.protocol_do_feedhold
  cases hstate : m.state with
  | Jog =>
    exact h.stays hin (by simp) (by simp) (by simp) (fun _ => by simp) (fun _ => by simp)
  | Idle =>
    refine h.holds hin rfl rfl rfl (fun hawake => absurd hawake (h.at_rest_of_idle hstate)) fun hposted => .inl ?_
    exact (h.within hin hposted).resolve_right fun hbusy => hbusy.1 hstate
  | Cycle =>
    have hholding := h.moving (.inl hstate)
    exact h.holds hin rfl (by simp) (by simpa using h.restoring) (fun _ => by simpa using hholding)
      fun _ => .inr (by simpa using hholding)
  | Critical =>
    -- a hold that is complete would start a cycle
    refine h.holds hin rfl rfl h.restoring (fun hawake => (h.running hawake).2) fun hposted => .inr ?_
    rw [← Bool.not_eq_true]
    exact fun hcomplete => hcritical hstate hcomplete hposted
  | _ => exact h

theorem Sound.motion_cancel (h : Sound m) (hin : m.handling) : Sound m.protocol_do_motion_cancel := by
  unfold protocol_do_motion_cancel Realtime.protocol_do_motion_cancel
  cases hstate : m.state with
  | Alarm | ConfigAlarm | CheckMode => exact h
  | Idle =>
    exact h.stays hin rfl rfl h.restoring.symm (absurd hstate) fun hjogs => absurd (hstate.symm.trans hjogs) (by decide)
  | Jog => exact h.stays hin (by simp) (by simp) (by simp) (fun _ => by simp) (fun _ => by simp)
  | Cycle =>
    exact h.stays hin (by simp) (by simp) (by simp) (fun _ => by simp)
      fun hjogs => absurd (hstate.symm.trans hjogs) (by decide)
  | _ => exact h.stays hin rfl rfl rfl (fun _ => rfl) fun hjogs => absurd (hstate.symm.trans hjogs) (by decide)

/-- A stop in `Hold` drops what was planned and prepared. -/
theorem Sound.stop_job (h : Sound m) (hin : m.handling) (job_active : Bool) :
    Sound (m.protocol_do_stop_job job_active) := by
  unfold protocol_do_stop_job Realtime.protocol_do_stop_job
  cases hstate : m.state with
  | Cycle | Jog => exact h.stays hin (by simp) (by simp) (by simp) (fun _ => by simp) (fun _ => by simp)
  | Idle => exact h.stays hin rfl rfl rfl (fun _ => rfl) (fun _ => rfl)
  | Hold =>
    exact {
      running := fun hawake => Bool.noConfusion hawake
      posted := fun _ => rfl
      once := h.once
      moving := by simp
      jogging := by simp
      restoring := rfl
      parking := h.parking
      known := by simp
      between := fun hout => absurd (hin.symm.trans hout) (by decide)
      within := fun _ _ => .inl rfl }
  | _ => exact h

theorem Sound.sleep (h : Sound m) (hin : m.handling) : Sound m.protocol_do_sleep := by
  have hasleep {r : Realtime} (hplan : r.plan = m.plan)
      (hrestoring : r.suspend.restoreComplete = m.suspend.restoreComplete)
      (hawake : m.awake → r.suspend.holdComplete = m.suspend.holdComplete) :
      Sound { m with toRealtime := { r with state := .Sleep } } :=
    h.leaves hin ⟨nofun, nofun, nofun⟩ ⟨nofun, nofun, nofun⟩ hplan (hrestoring.trans h.restoring)
      (fun hmoves => ⟨rfl, (hawake hmoves).trans (h.running hmoves).2⟩) fun _ => .inr nofun
  unfold protocol_do_sleep
  cases hstate : m.state with
  | ConfigAlarm => exact absurd hstate h.known.2.2
  | Alarm =>
    refine hasleep rfl rfl fun hawake => ?_
    have hruns := (h.running hawake).1
    simp [hstate, State.runs] at hruns
  | Idle => exact hasleep rfl h.restoring.symm fun hawake => absurd hawake (h.at_rest_of_idle hstate)
  | Cycle | Jog => exact hasleep (by simp) (by simp) fun _ => by simp
  | _ => exact hasleep rfl rfl fun _ => rfl

theorem Sound.alarm {alarm : ExecAlarm} (h : Sound m) (hin : m.handling)
    (hcritical : m.awake → alarm = .HardLimit ∨ alarm = .HardStop ∨ alarm = .SoftLimit) :
    Sound (m.protocol_do_alarm alarm) := by
  have hcrash : Sound { m with state := .Critical } :=
    h.leaves hin ⟨nofun, nofun, nofun⟩ ⟨nofun, nofun, nofun⟩ rfl h.restoring
      (fun hmoves => ⟨rfl, (h.running hmoves).2⟩) fun _ => .inr nofun
  unfold protocol_do_alarm
  split_ifs with hhard hsoft
  · exact hcrash
  · exact hcrash
  · refine h.leaves hin ⟨nofun, nofun, nofun⟩ ⟨nofun, nofun, nofun⟩ rfl h.restoring (fun hmoves => ?_)
      fun _ => .inr nofun
    rcases hcritical hmoves with halarm | halarm | halarm
    · exact absurd (.inl halarm) hhard
    · exact absurd (.inr halarm) hhard
    · exact absurd halarm hsoft

/-- A cycle that starts finds the generator at rest, and no stop of an earlier motion in the queue. -/
theorem Sound.initiate_cycle (h : Sound m) (hin : m.handling) (hrest : m.awake = false)
    (hempty : .cycleStop ∈ m.event_queue → m.plan = []) : Sound m.protocol_do_initiate_cycle := by
  obtain ⟨hsuspend, hplan, hstate⟩ := m.toRealtime.initiate_cycle_spec
  rw [protocol_do_initiate_cycle_eq]
  split at hstate
  · rename_i hstarts
    have hnone : .cycleStop ∉ m.event_queue := by
      intro hpending
      simp [hempty hpending] at hstarts
    exact {
      running := fun _ => ⟨by rcases hstate with hstate | hstate <;> simp [hstate, State.runs], by simp [hsuspend]⟩
      posted := fun hpending => absurd hpending hnone
      once := h.once
      moving := fun _ => by simp [hsuspend]
      jogging := fun _ => by simp [hsuspend]
      restoring := by simp [hsuspend]
      parking := h.parking
      known := by rcases hstate with hstate | hstate <;> simp [hstate]
      between := fun _ hpending => absurd hpending hnone
      within := fun _ hpending => absurd hpending hnone }
  · rename_i hidle
    rw [Bool.not_eq_true] at hidle
    exact {
      running := fun hawake => by simp [hrest, hidle] at hawake
      posted := fun _ => by simp [hrest, hidle]
      once := h.once
      moving := by simp [hstate]
      jogging := by simp [hstate]
      restoring := by simp [hsuspend]
      parking := h.parking
      known := by simp [hstate]
      between := fun hout => absurd (hin.symm.trans hout) (by decide)
      within := fun _ hpending => .inl (hplan.trans (hempty hpending)) }

theorem Sound.cycle_start (h : Sound m) (hin : m.handling) : Sound m.protocol_do_cycle_start := by
  rw [protocol_do_cycle_start]
  split
  · rename_i hstate
    simp only [h.restoring, Bool.false_eq_true, if_false]
    split_ifs
    · exact h
    · exact { h with restoring := rfl }
    · exact h
  · rename_i hstate
    have hrest : m.awake = false := by
      by_contra hawake
      have hruns := (h.running (by simpa using hawake)).1
      simp [hstate, State.runs] at hruns
    apply h.initiate_cycle hin hrest
    intro hpending
    exact (h.within hin hpending).resolve_right fun hbusy => hbusy.1 hstate
  · rename_i hstate
    exact absurd hstate h.known.1
  · rename_i hstate
    split_ifs with hready
    · have hrest : m.awake = false := by
        by_contra hawake
        have hholding := (h.running (by simpa using hawake)).2
        simp [hready.1] at hholding
      apply h.initiate_cycle hin hrest
      intro hpending
      refine (h.within hin hpending).resolve_right fun hbusy => ?_
      have hholding := hbusy.2 hstate
      simp [hready.1] at hholding
    · exact h
  · exact h

/-- A machine that is at rest, with nothing in the queue that says so. -/
private theorem Sound.at_rest (hrest : m.awake = false) (hnone : .cycleStop ∉ m.event_queue)
    (hstate : m.state ≠ .Cycle ∧ m.state ≠ .Jog) (hrestoring : m.suspend.restoreComplete = false)
    (hparking : m.parking = false)
    (hknown : m.state ≠ .Homing ∧ m.state ≠ .CheckMode ∧ m.state ≠ .ConfigAlarm) : Sound m := by
  have honce : m.event_queue.count .cycleStop ≤ 1 := by
    rw [List.count_eq_zero_of_not_mem hnone]
    exact Nat.zero_le 1
  constructor <;> simp_all

theorem Sound.cycle_stop (h : Sound m) (hrest : m.awake = false) (hlast : .cycleStop ∉ m.event_queue) :
    Sound m.protocol_do_cycle_stop := by
  obtain ⟨hstate, hrestoring⟩ := m.toRealtime.cycle_stop_spec
  rw [protocol_do_cycle_stop_eq]
  apply Sound.at_rest
  · simp [hrest]
  · exact hlast
  · rcases hstate with ⟨heq, hne⟩ | heq | heq <;> simp [heq]
    exact hne
  · exact hrestoring h.restoring
  · exact h.parking
  · have hknown := h.known
    rcases hstate with ⟨heq, -⟩ | heq | heq <;> simp [heq]
    exact hknown

/-- The main task begins to handle events, and comes back. -/
theorem Sound.entered (h : Sound m) (hout : m.handling = false) : Sound { m with handling := true } :=
  { h with
    between := fun hin => Bool.noConfusion hin
    within := fun _ hpending => .inr ⟨(h.between hout hpending).1, fun _ => (h.between hout hpending).2⟩ }

/-- A door that is taken into account finds the generator at rest, unless it stays pending. -/
theorem Sound.safety_door (h : Sound m) (hout : m.handling = false)
    (hdoor : m.awake → m.suspend.jogCancel ∨ m.state = .Jog ∨ m.state = .Sleep) :
    Sound { m.protocol_do_safety_door with handling := true } := by
  have hin := h.entered hout
  have hopens {r : Realtime} {pending : Bool} (hrest : ¬ m.awake) (hstate : r.state = .SafetyDoor)
      (hplan : r.plan = m.plan) (hrestoring : r.suspend.restoreComplete = false) :
      Sound { m with toRealtime := r, rtSafetyDoor := pending, handling := true } :=
    { hin.leaves rfl (by simp [hstate]) (by simp [hstate]) hplan hrestoring (fun hawake => absurd hawake hrest)
        fun _ => .inr (by simp [hstate]) with }
  have hstill {r : Realtime} {pending : Bool} (hstate : r.state = m.state) (hplan : r.plan = m.plan)
      (hrestoring : r.suspend.restoreComplete = m.suspend.restoreComplete)
      (hhold : r.suspend.holdComplete = m.suspend.holdComplete)
      (hmotion : r.suspend.motionCancel = m.suspend.motionCancel) :
      Sound { m with toRealtime := r, rtSafetyDoor := pending, handling := true } :=
    { hin.stays rfl hstate hplan hrestoring (fun _ => hhold) (fun _ => hmotion) with }
  -- a generator that runs is stopped by a jog that is being canceled
  have hrests (hcancel : ¬ m.suspend.jogCancel) (hjog : m.state ≠ .Jog) (hsleep : m.state ≠ .Sleep) : ¬ m.awake :=
    fun hawake => (hdoor hawake).elim hcancel fun hmoves => hmoves.elim hjog hsleep
  unfold protocol_do_safety_door door_opens
  cases hstate : m.state with
  | ConfigAlarm => exact absurd hstate h.known.2.2
  | CheckMode => exact absurd hstate h.known.2.1
  | Homing => exact absurd hstate h.known.1
  | Alarm | Sleep => exact { hin with }
  | Idle => exact hopens (h.at_rest_of_idle hstate) rfl rfl rfl
  | Jog =>
    have hcancels : m.protocol_cancel_jogging.suspend.jogCancel = true := by simp [h.jogging hstate]
    simp only [hcancels, not_true_eq_false, if_false]
    exact hstill (by simp) (by simp) (by simp) (by simp) (by simp)
  | Cycle =>
    simp only [Realtime.start_holding_suspend]
    split_ifs with hcancel
    · exact hstill (by simp) (by simp) (by simp) (by simp) (by simp)
    · exact hopens (hrests hcancel (by simp [hstate]) (by simp [hstate])) rfl (by simp) (by simpa using h.restoring)
  | Hold | Critical =>
    dsimp only
    split_ifs with hcancel
    · exact hstill rfl rfl rfl rfl rfl
    · exact hopens (hrests hcancel (by simp [hstate]) (by simp [hstate])) rfl rfl h.restoring
  | SafetyDoor =>
    have hrest : ¬ m.awake := by
      intro hawake
      have hruns := (h.running hawake).1
      simp [hstate, State.runs] at hruns
    dsimp only
    split_ifs
    all_goals first
      | exact hopens hrest hstate rfl rfl
      | exact hopens hrest rfl rfl rfl
      | exact hopens hrest hstate rfl h.restoring
      | exact hopens hrest rfl rfl h.restoring

/-- `protocol_exec_rt_system` is entered. -/
theorem Sound.enter (h : Sound m) (hout : m.handling = false)
    (hdoor : m.rtSafetyDoor → m.awake → m.suspend.jogCancel ∨ m.state = .Jog ∨ m.state = .Sleep) :
    Sound m.protocol_exec_rt_system := by
  rw [protocol_exec_rt_system]
  split
  · rename_i hpending
    exact h.safety_door hout (hdoor hpending)
  · exact h.entered hout

theorem Sound.send (h : Sound m) {signal : Signal} (hsignal : signal ≠ .cycleStop) :
    Sound (m.protocol_send_event signal) := by
  have hmem : Signal.cycleStop ∈ m.event_queue ++ [signal] → .cycleStop ∈ m.event_queue := by
    intro hin
    rcases List.mem_append.mp hin with hin | hin
    · exact hin
    · exact absurd (List.mem_singleton.mp hin).symm hsignal
  have hcount : (m.event_queue ++ [signal]).count .cycleStop = m.event_queue.count .cycleStop := by
    rw [List.count_append, List.count_singleton, beq_eq_false_iff_ne.mpr hsignal]
    rfl
  rw [protocol_send_event]
  split
  · exact {
      h with
      posted := fun hpending => h.posted (hmem hpending)
      once := hcount.trans_le h.once
      between := fun hout hpending => h.between hout (hmem hpending)
      within := fun hin hpending => h.within hin (hmem hpending) }
  · exact h

/-- The interrupt finds the segment buffer empty. -/
theorem Sound.drain (h : Sound m) : Sound (m.step .drain) := by
  simp only [step]
  split
  · rename_i hawake
    obtain ⟨hruns, hholding⟩ := h.running hawake
    have hnone : .cycleStop ∉ m.event_queue := by
      intro hpending
      simp [h.posted hpending] at hawake
    have hidle : m.state ≠ .Idle := by
      intro hstate
      simp [hstate, State.runs] at hruns
    have hrests (queue : List Signal) (hcount : queue.count .cycleStop ≤ 1) :
        Sound { m.go_idle with event_queue := queue } :=
      { h with
        running := fun hawake => Bool.noConfusion hawake
        posted := fun _ => rfl
        once := hcount
        between := fun _ _ => ⟨hidle, hholding⟩
        within := fun _ _ => .inr ⟨hidle, fun _ => hholding⟩ }
    have hzero := List.count_eq_zero_of_not_mem hnone
    rw [protocol_send_event]
    split
    · exact hrests _ (by simp [hzero])
    · exact hrests _ (by simp [hzero])
  · exact h

/-- One turn of the suspend loop, without a parking motion. -/
theorem Sound.suspended {env : Surroundings} (h : Sound m) (hout : m.handling = false)
    (hstays : m.state = .SafetyDoor ∨ m.state = .Sleep → env.parks = false) :
    Sound (m.protocol_exec_rt_suspend env) := by
  obtain ⟨canceled, hcanceled, heq⟩ : ∃ canceled : Drive, Sound canceled ∧
      canceled = if m.suspend.jogCancel then { m with toRealtime := m.mc_cancel_jog } else m := by
    refine ⟨_, ?_, rfl⟩
    split
    · unfold Realtime.mc_cancel_jog
      split
      · exact { h with }
      · exact h
    · exact h
  have hcout : canceled.handling = false := by
    rw [heq]
    split <;> exact hout
  have hcstate : canceled.state = m.state := by
    rw [heq]
    split
    · exact m.toRealtime.mc_cancel_jog_state
    · rfl
  rw [protocol_exec_rt_suspend, ← heq]
  split
  · rename_i hcomplete
    -- the hold is complete, so its stop has been handled
    have hnone : .cycleStop ∉ canceled.event_queue := by
      intro hpending
      simp [(hcanceled.between hcout hpending).2] at hcomplete
    have hrest : canceled.awake = false := by
      by_contra hawake
      simp [(hcanceled.running (by simpa using hawake)).2] at hcomplete
    split
    · rename_i hdoor
      have hstate : canceled.state ≠ .Cycle ∧ canceled.state ≠ .Jog := by
        rcases hdoor with hdoor | hdoor <;> simp [hdoor]
      rw [hcstate] at hdoor
      simp only [hstays hdoor, Bool.false_eq_true, if_false]
      split
      · exact Sound.at_rest hrest hnone hstate hcanceled.restoring hcanceled.parking hcanceled.known
      split
      · exact Sound.at_rest rfl hnone hstate hcanceled.restoring hcanceled.parking hcanceled.known
      obtain ⟨closed, hclosed, hceq⟩ : ∃ closed : Drive, Sound closed ∧
          closed = if ¬ env.safety_door_ajar then
            { canceled with suspend := { canceled.suspend with safetyDoorAjar := false } } else canceled := by
        refine ⟨_, ?_, rfl⟩
        split
        · exact { hcanceled with }
        · exact hcanceled
      have hclosedRest : closed.awake = false ∧ closed.event_queue = canceled.event_queue := by
        rw [hceq]
        split <;> exact ⟨hrest, rfl⟩
      rw [← hceq]
      split
      · split
        · apply Sound.send _ (by simp)
          have hclosedNone : .cycleStop ∉ closed.event_queue := by
            rw [hclosedRest.2]
            exact hnone
          apply Sound.at_rest
          · exact hclosedRest.1
          · exact hclosedNone
          · simp
          · exact hclosed.restoring
          · exact hclosed.parking
          · simp
        · exact hclosed
      · exact hclosed
    · split
      · have hsent : Sound (canceled.protocol_send_event .cycleStart) := hcanceled.send (by simp)
        exact { hsent with }
      · exact hcanceled
  · exact hcanceled

/-- The event taken next keeps the machine sound: an alarm that is not critical finds the
step generator at rest, and a hold that is complete is not entered once more from
`Critical` with a `cycleStop` in the queue. -/
def TakesOrderly (m : Drive) : List Signal → Prop
  | .alarm alarm :: _ => m.awake → alarm = .HardLimit ∨ alarm = .HardStop ∨ alarm = .SoftLimit
  | .feedHold :: rest => m.state = .Critical → m.suspend.holdComplete → .cycleStop ∉ rest
  | _ => True

/-- The turn keeps the machine sound: besides, a door that is taken into account finds the step
generator at rest, and there is no parking motion. -/
def Orderly (m : Drive) : Turn → Prop
  | .enter => m.handling = false → m.rtSafetyDoor → m.awake →
      m.suspend.jogCancel ∨ m.state = .Jog ∨ m.state = .Sleep
  | .handle _ => m.handling → m.TakesOrderly m.event_queue
  | .suspended env => m.state = .SafetyDoor ∨ m.state = .Sleep → env.parks = false
  | _ => True

instance decidableTakesOrderly (m : Drive) : (queue : List Signal) → Decidable (m.TakesOrderly queue)
  | .alarm alarm :: _ =>
    inferInstanceAs (Decidable (m.awake → alarm = .HardLimit ∨ alarm = .HardStop ∨ alarm = .SoftLimit))
  | .feedHold :: rest =>
    inferInstanceAs (Decidable (m.state = .Critical → m.suspend.holdComplete → .cycleStop ∉ rest))
  | [] | .cycleStart :: _ | .stopJob :: _ | .motionCancel :: _ | .safetyDoor :: _ | .sleep :: _
  | .cycleStop :: _ => .isTrue trivial

instance decidableOrderly (m : Drive) : (turn : Turn) → Decidable (m.Orderly turn)
  | .enter => inferInstanceAs (Decidable (m.handling = false → m.rtSafetyDoor → m.awake →
      m.suspend.jogCancel ∨ m.state = .Jog ∨ m.state = .Sleep))
  | .handle _ => inferInstanceAs (Decidable (m.handling → m.TakesOrderly m.event_queue))
  | .suspended env => inferInstanceAs (Decidable (m.state = .SafetyDoor ∨ m.state = .Sleep → env.parks = false))
  | .post _ | .drain | .plan _ | .discard | .parked => .isTrue trivial

/-- An event is handled. -/
theorem Sound.handle {job_active : Bool} (h : Sound m) (hin : m.handling) (horderly : m.Orderly (.handle job_active)) :
    Sound (m.protocol_handle_events job_active) := by
  have horderly := horderly hin
  rw [protocol_handle_events]
  cases hqueue : m.event_queue with
  | nil =>
    obtain ⟨hrunning, hposted, honce, hmoving, hjogging, hrestoring, hparking, hknown, hbetween, hwithin⟩ := h
    constructor <;> simp_all
  | cons signal rest =>
    have hpopped := h.pop hqueue
    rw [hqueue] at horderly
    cases signal with
    | feedHold => exact hpopped.feedhold hin horderly
    | cycleStart => exact hpopped.cycle_start hin
    | stopJob => exact hpopped.stop_job hin job_active
    | motionCancel => exact hpopped.motion_cancel hin
    | safetyDoor => exact { hpopped with }
    | sleep => exact hpopped.sleep hin
    | alarm alarm => exact hpopped.alarm hin horderly
    | cycleStop =>
      have honce := h.once
      rw [hqueue, List.count_cons_self] at honce
      apply hpopped.cycle_stop
      · exact h.posted (by rw [hqueue]; exact List.mem_cons_self)
      · change .cycleStop ∉ rest
        rw [← List.count_eq_zero]
        omega

/-- The machine stays sound, step by step. -/
theorem Sound.step {turn : Turn} (h : Sound m) (horderly : m.Orderly turn) : Sound (m.step turn) := by
  cases turn with
  | drain => exact h.drain
  | post signal =>
    simp only [Drive.step]
    split
    · exact h
    · rename_i hsignal
      exact h.send hsignal
  | plan block =>
    simp only [Drive.step]
    split
    · exact h
    · rename_i hbusy
      exact {
        h with
        within := fun hin => absurd (Or.inl hin) hbusy }
  | discard =>
    have hwithin : m.handling → .cycleStop ∈ m.event_queue →
        m.plan.tail = [] ∨ m.state ≠ .Idle ∧ (m.state = .Hold → m.suspend.holdComplete = false) := by
      intro hin hpending
      rcases h.within hin hpending with hplan | hbusy
      · exact Or.inl (by rw [hplan]; rfl)
      · exact Or.inr hbusy
    exact { h with within := hwithin }
  | enter =>
    simp only [Drive.step]
    split
    · exact h
    · rename_i hout
      rw [Bool.not_eq_true] at hout
      exact h.enter hout (horderly hout)
  | handle job_active =>
    simp only [Drive.step]
    split
    · rename_i hin
      exact h.handle hin horderly
    · exact h
  | suspended env =>
    simp only [Drive.step]
    split
    · exact h
    · rename_i hbusy
      push Not at hbusy
      exact h.suspended (by simpa using hbusy.1) horderly
  | parked =>
    simp only [Drive.step]
    split
    · exact { h with parking := rfl }
    · exact h

end Drive

end DuneWeaver
