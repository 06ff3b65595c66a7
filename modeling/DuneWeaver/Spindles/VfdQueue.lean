import DuneWeaver.Transition.Run

namespace DuneWeaver.Spindles.VfdQueue

inductive SpindleState where
  | Disable
  | Cw
  | Ccw
  | Unknown
  deriving DecidableEq

/-- What a command of the queue sets. -/
inductive ActionType where
  | setSpeed (speed : UInt32)
  | setMode (mode : SpindleState)
  deriving DecidableEq

structure VFDaction where
  action : ActionType
  critical : Bool
  deriving DecidableEq

def VFDaction.mode (a : VFDaction) : Option SpindleState :=
  match a.action with
  | .setMode mode => some mode
  | .setSpeed _ => none

def VFDaction.speed (a : VFDaction) : Option UInt32 :=
  match a.action with
  | .setMode _ => none
  | .setSpeed speed => some speed

theorem VFDaction.speed_eq_none {a : VFDaction} {mode : SpindleState} (h : a.mode = some mode) : a.speed = none := by
  unfold VFDaction.mode at h
  unfold VFDaction.speed
  cases haction : a.action with
  | setMode _ => rfl
  | setSpeed _ =>
    rw [haction] at h
    cases h

/-- Where `setState` or `init` is: in front of `set_mode`, of the comparison of the speeds or of `setSpeed`, or waiting
for the spindle before it sets the state. -/
inductive Caller where
  | idle
  | set_mode (mode : SpindleState) (critical : Bool) (next : Option UInt32)
  | compare (state : SpindleState) (dev_speed : UInt32)
  | setSpeed (state : SpindleState) (dev_speed : UInt32)
  | waiting (state : SpindleState)
  deriving DecidableEq

/-- The state that `setState` sets at its end, once it has sent what it takes. -/
def Caller.target : Caller → Option SpindleState
  | idle | set_mode _ _ _ => none
  | compare state _ | setSpeed state _ | waiting state => some state

/-- `init` has set the state and has yet to send its mode. -/
def Caller.initializing : Caller → Bool
  | set_mode _ _ none => true
  | _ => false

/-- Where `setSpeedfromISR` is. -/
inductive Interrupt where
  | idle
  | send (dev_speed : UInt32)
  deriving DecidableEq

/-- Where `vfd_cmd_task` is with a command, and how often it will still try to exchange it with the device. -/
inductive Task where
  | waiting
  | taken (a : VFDaction)
  | prepared (a : VFDaction)
  | exchange (a : VFDaction) (left : Nat)
  deriving DecidableEq

def Task.flight : Task → List VFDaction
  | waiting => []
  | taken a | prepared a | exchange a _ => [a]

/-- What was requested last and what the device has acknowledged last, and whether a message was issued for the command
that would have brought about the request. -/
structure Track (α : Type) where
  requested : Option α := none
  acknowledged : Option α := none
  reported : Bool := false

def Track.request {α : Type} (value : α) (reported : Bool) (t : Track α) : Track α :=
  { t with requested := some value, reported }

/-- The spindle, its callers, the task and the queue between them. What follows the callers is history that none of them
reads. -/
structure System where
  _current_state : SpindleState := .Unknown
  _current_dev_speed : UInt32 := 0xffffffff
  _last_speed : UInt32 := 0
  vfd_cmd_queue : List VFDaction := []
  unresponsive : Bool := false
  task : Task := .waiting
  caller : Caller := .idle
  interrupt : Interrupt := .idle
  mode : Track SpindleState := {}
  speed : Track UInt32 := {}
  /-- A request for a speed was left out that the device had not acknowledged, or that another one was ahead of. -/
  slighted : Bool := false
  /-- The exchange of the last speed that the task set about is over, and was answered. -/
  speed_answered : Bool := false
  /-- The last speed that was sent is the one of the interrupt, and its exchange has not failed. -/
  isr_last : Bool := false
  /-- The queue did not take the last mode, or its exchange failed. -/
  mode_missed : Bool := false
  /-- The task has set `_current_state` when another mode was on its way already. -/
  overtaken : Bool := false

/-- `VFD_RS485_QUEUE_SIZE` -/
def queueSize : Nat := 10

namespace System

/-- The commands that the device has not had yet. -/
def ahead (s : System) : List VFDaction := s.task.flight ++ s.vfd_cmd_queue

/-- There is no speed among these commands. -/
def NoSpeed (queue : List VFDaction) : Prop := ∀ a ∈ queue, a.speed = none

instance (queue : List VFDaction) : Decidable (NoSpeed queue) := inferInstanceAs (Decidable (∀ _ ∈ _, _))

/-- The device has acknowledged this speed, and there is no other among these commands. -/
def Acknowledged (dev_speed : UInt32) (queue : List VFDaction) (s : System) : Prop :=
  s.speed.acknowledged = some dev_speed ∧ NoSpeed queue

instance (dev_speed : UInt32) (queue : List VFDaction) (s : System) : Decidable (s.Acknowledged dev_speed queue) :=
  inferInstanceAs (Decidable (_ ∧ _))

/-- `xQueueSend` without waiting. -/
def xQueueSend (a : VFDaction) (s : System) : Bool × System :=
  if s.vfd_cmd_queue.length < queueSize then (true, { s with vfd_cmd_queue := s.vfd_cmd_queue ++ [a] }) else (false, s)

/-- `set_mode`. A full queue is reported. -/
def set_mode (mode : SpindleState) (critical : Bool) (s : System) : System :=
  let (sent, s) := s.xQueueSend ⟨.setMode mode, critical⟩
  { s with mode := s.mode.request mode (!sent), mode_missed := !sent }

/-- `setSpeed`. A full queue is reported. -/
def setSpeed (dev_speed : UInt32) (s : System) : System :=
  let (sent, s) := s.xQueueSend ⟨.setSpeed dev_speed, dev_speed = 0⟩
  { s with speed := s.speed.request dev_speed (!sent), isr_last := false }

/-- A speed that is requested, but not sent. -/
def leaveOut (dev_speed : UInt32) (s : System) : System :=
  { s with
    speed := s.speed.request dev_speed false
    slighted := s.slighted || !decide (s.Acknowledged dev_speed s.ahead) }

/-- The caller goes on. -/
def call (s : System) : System :=
  match s.caller with
  | .idle => s
  | .set_mode mode critical next =>
    { s.set_mode mode critical with
      caller := match next with | none => .idle | some dev_speed => .setSpeed mode dev_speed }
  | .compare state dev_speed =>
    if s._current_dev_speed ≠ dev_speed then { s with caller := .setSpeed state dev_speed }
    else { s.leaveOut dev_speed with caller := .waiting state }
  | .setSpeed state dev_speed => { s.setSpeed dev_speed with caller := .waiting state }
  | .waiting state => { s with _current_state := state, overtaken := false, caller := .idle }

/-- The interrupt goes on. It does not look whether the queue takes its command. -/
def send (s : System) : System :=
  match s.interrupt with
  | .idle => s
  | .send dev_speed =>
    let (sent, s) := s.xQueueSend ⟨.setSpeed dev_speed, dev_speed = 0⟩
    { s with speed := s.speed.request dev_speed false, isr_last := sent, interrupt := .idle }

/-- `prepareSetSpeedCommand` and `prepareSetModeCommand` up to what they set. -/
def prepare (s : System) : System :=
  match s.task with
  | .taken a =>
    match a.action with
    | .setSpeed speed =>
      if speed = s._current_dev_speed then
        { s with task := .waiting, slighted := s.slighted || !decide (s.Acknowledged speed s.vfd_cmd_queue) }
      else { s with task := .prepared a }
    | .setMode mode =>
      { s with task := .prepared a, vfd_cmd_queue := if mode = .Disable then [] else s.vfd_cmd_queue }
  | _ => s

/-- What they set. -/
def believe (_retries : Nat) (s : System) : System :=
  match s.task with
  | .prepared a =>
    match a.action with
    | .setSpeed speed => { s with _current_dev_speed := speed, speed_answered := false, task := .exchange a _retries }
    | .setMode mode =>
      { s with
        _current_state := mode
        overtaken := !(s.vfd_cmd_queue.filterMap VFDaction.mode).isEmpty || s.caller.initializing
        task := .exchange a _retries }
  | _ => s

/-- The device acknowledges a command. -/
def acknowledge (a : VFDaction) (s : System) : System :=
  match a.action with
  | .setSpeed speed => { s with speed := { s.speed with acknowledged := some speed }, speed_answered := true }
  | .setMode mode => { s with mode := { s.mode with acknowledged := some mode } }

/-- The command is of this kind, and no other one of it is queued. -/
def isLast {α : Type} (value : VFDaction → Option α) (a : VFDaction) (s : System) : Bool :=
  (value a).isSome && (s.vfd_cmd_queue.filterMap value).isEmpty

/-- A message is issued for a command. It is for the last request when no other command of its kind is queued. -/
def report (a : VFDaction) (s : System) : System :=
  { s with
    mode := { s.mode with reported := s.mode.reported || s.isLast VFDaction.mode a }
    speed := { s.speed with reported := s.speed.reported || s.isLast VFDaction.speed a } }

/-- The exchange of a command has failed. -/
def fail (a : VFDaction) (s : System) : System :=
  { s with
    mode_missed := s.mode_missed || s.isLast VFDaction.mode a
    isr_last := s.isr_last && !s.isLast VFDaction.speed a }

/-- One try to exchange a command, or the end of them. -/
def exchange (answered : Bool) (s : System) : System :=
  match s.task with
  | .exchange a 0 =>
    let s := if ¬s.unresponsive ∨ a.critical then s.report a else s
    { s.fail a with unresponsive := true, task := .waiting }
  | .exchange a (left + 1) =>
    if answered then { s.acknowledge a with unresponsive := false, task := .waiting }
    else { s with task := .exchange a left }
  | _ => s

end System

inductive Action where
  | init
  | setState (state : SpindleState) (dev_speed : UInt32) (cycle abort : Bool)
  | call
  | setSpeedfromISR (dev_speed : UInt32)
  | send
  | poll (satisfying : Bool)
  | take
  | prepare
  | believe
  | exchange (answered : Bool)

/-- The spindle when `init` has created the queue and the task. -/
def System.boot : System := { _current_state := .Disable, caller := .set_mode .Disable true none }

/-- What one of the processes does next, where it can. -/
def step (_retries : Nat) (s : System) : Action → System
  | .init =>
    if s.caller = .idle then
      { s with _current_state := .Disable, overtaken := false, caller := .set_mode .Disable true none }
    else s
  | .setState state dev_speed cycle abort =>
    if s.caller ≠ .idle then s
    else if abort then
      { s with mode := s.mode.request state false, speed := s.speed.request dev_speed false }
    else if s._current_state ≠ state then
      { s with caller := .set_mode state (cycle || state ≠ .Disable) (some dev_speed) }
    else { s with mode := s.mode.request state false, caller := .compare state dev_speed }
  | .call => s.call
  | .setSpeedfromISR dev_speed =>
    if s.interrupt ≠ .idle then s
    else if s._current_dev_speed = dev_speed ∨ s._last_speed = dev_speed then s.leaveOut dev_speed
    else { s with _last_speed := dev_speed, isr_last := false, interrupt := .send dev_speed }
  | .send => s.send
  | .poll satisfying => if s.task = .waiting then { s with unresponsive := !satisfying } else s
  | .take =>
    match s.task, s.vfd_cmd_queue with
    | .waiting, a :: rest => { s with task := .taken a, vfd_cmd_queue := rest }
    | _, _ => s
  | .prepare => s.prepare
  | .believe => s.believe _retries
  | .exchange answered => s.exchange answered

section Due

variable {α : Type} {value : VFDaction → Option α} {t : Track α} {a : VFDaction} {queue : List VFDaction} {v : α}

/-- What the device will have acknowledged last when it acknowledges all that is ahead. -/
def due (value : VFDaction → Option α) (t : Track α) (queue : List VFDaction) : Option α :=
  (queue.filterMap value).getLast?.or t.acknowledged

/-- The last request is going to be acknowledged, unless a message was issued for its command. -/
def Kept (value : VFDaction → Option α) (t : Track α) (queue : List VFDaction) : Prop :=
  t.reported = true ∨ due value t queue = t.requested

theorem due_append (ha : value a = some v) : due value t (queue ++ [a]) = some v := by
  rw [due, List.filterMap_append, List.filterMap_cons_some ha, List.filterMap_nil, List.getLast?_concat, Option.some_or]

theorem due_append_other (ha : value a = none) : due value t (queue ++ [a]) = due value t queue := by
  rw [due, due, List.filterMap_append, List.filterMap_cons_none ha, List.filterMap_nil, List.append_nil]

theorem due_cons_other (ha : value a = none) : due value t (a :: queue) = due value t queue := by
  rw [due, due, List.filterMap_cons_none ha]

/-- What is in front does not count where something of its kind is behind it. -/
theorem due_cons_behind (hne : queue.filterMap value ≠ []) : due value t (a :: queue) = due value t queue := by
  cases ha : value a with
  | none => exact due_cons_other ha
  | some v =>
    rw [due, due, List.filterMap_cons_some ha, List.getLast?_cons_of_ne_nil hne]

theorem due_cons_last (ha : value a = some v) (hnil : queue.filterMap value = []) :
    due value t (a :: queue) = some v := by
  rw [due, List.filterMap_cons_some ha, hnil]
  rfl

theorem due_nothing (hnil : queue.filterMap value = []) : due value t queue = t.acknowledged := by
  rw [due, hnil]
  rfl

/-- What is acknowledged was due. -/
theorem due_acknowledged (ha : value a = some v) :
    due value { t with acknowledged := some v } queue = due value t (a :: queue) := by
  by_cases hnil : queue.filterMap value = []
  · rw [due_cons_last ha hnil, due_nothing hnil]
  · rw [due_cons_behind hnil, due, due]
    obtain ⟨last, hlast⟩ := Option.ne_none_iff_exists'.mp (mt List.getLast?_eq_none_iff.mp hnil)
    rw [hlast, Option.some_or, Option.some_or]

theorem Kept.append_other (h : Kept value t queue) (ha : value a = none) : Kept value t (queue ++ [a]) := by
  rw [Kept, due_append_other ha]
  exact h

theorem Kept.cons_other (h : Kept value t (a :: queue)) (ha : value a = none) : Kept value t queue := by
  rw [Kept, due_cons_other ha] at h
  exact h

/-- A command that is dropped does not count when the device is at what it sets and nothing of its kind is queued. -/
theorem Kept.drop (h : Kept value t (a :: queue)) (ha : value a = some v) (hdone : t.acknowledged = some v)
    (hnil : queue.filterMap value = []) : Kept value t queue := by
  rw [Kept, due_cons_last ha hnil] at h
  rw [Kept, due_nothing hnil, hdone]
  exact h

theorem Kept.report (h : Kept value t (a :: queue)) :
    Kept value { t with reported := t.reported || ((value a).isSome && (queue.filterMap value).isEmpty) } queue := by
  cases ha : value a with
  | none =>
    rw [Option.isSome_none, Bool.false_and, Bool.or_false]
    exact h.cons_other ha
  | some v =>
    by_cases hnil : queue.filterMap value = []
    · refine .inl ?_
      rw [hnil]
      exact Bool.or_true _
    · rw [Kept, due_cons_behind hnil] at h
      exact h.imp_left fun hreported => by rw [hreported, Bool.true_or]

/-- What a queue that is emptied sets was not needed when the command in front sets the same. -/
theorem due_cons_reset (ha : value a = some v) (hsame : ∀ w ∈ queue.filterMap value, w = v) :
    due value t (a :: queue) = due value t [a] := by
  rw [due_cons_last ha (List.filterMap_nil)]
  by_cases hnil : queue.filterMap value = []
  · exact due_cons_last ha hnil
  · obtain ⟨last, hend⟩ := Option.ne_none_iff_exists'.mp (mt List.getLast?_eq_none_iff.mp hnil)
    rw [due_cons_behind hnil, due, hend, Option.some_or, hsame last (List.mem_of_mem_getLast? hend)]

end Due

/-- Nothing is queued and nobody has anything left to send. -/
structure Settled (s : System) : Prop where
  queue : s.vfd_cmd_queue = []
  task : s.task = .waiting
  caller : s.caller = .idle
  interrupt : s.interrupt = .idle

/-- What is acknowledged is what was requested, unless a message was issued for the command that it takes. No speed was
left out that was not acknowledged. -/
def Delivers (s : System) : Prop :=
  (Settled s → (s.mode.reported = true ∨ s.mode.acknowledged = s.mode.requested) ∧
    (s.speed.reported = true ∨ s.speed.acknowledged = s.speed.requested)) ∧ s.slighted = false

/-- What has to be true when something is left out or lost in silence, for it to do no harm. -/
def Harmless (s : System) : Action → Prop
  | .setState state _ _ abort => s.caller = .idle →
      abort = false ∧ (s._current_state = state → due VFDaction.mode s.mode s.ahead = some state)
  | .call => ∀ state dev_speed, s.caller = .compare state dev_speed → s._current_dev_speed = dev_speed →
      s.Acknowledged dev_speed s.ahead
  | .setSpeedfromISR dev_speed => s.interrupt = .idle → s._current_dev_speed = dev_speed ∨ s._last_speed = dev_speed →
      s.Acknowledged dev_speed s.ahead
  | .send => s.interrupt ≠ .idle → s.vfd_cmd_queue.length < queueSize
  | .prepare => ∀ a, s.task = .taken a →
      (a.speed = some s._current_dev_speed → s.Acknowledged s._current_dev_speed s.vfd_cmd_queue) ∧
      (a.mode = some .Disable → ∀ b ∈ s.vfd_cmd_queue, b.mode = some .Disable)
  | .exchange _ => ∀ a, s.task = .exchange a 0 → s.unresponsive = true → a.critical = true
  | _ => True

structure Sound (s : System) : Prop where
  mode : Kept VFDaction.mode s.mode s.ahead
  speed : Kept VFDaction.speed s.speed s.ahead
  slighted : s.slighted = false

theorem Sound.delivers {s : System} (h : Sound s) : Delivers s := by
  refine ⟨fun hsettled => ?_, h.slighted⟩
  have hahead : s.ahead = [] := by
    rw [System.ahead, hsettled.task, hsettled.queue]
    rfl
  have hmode := h.mode
  have hspeed := h.speed
  rw [hahead] at hmode hspeed
  exact ⟨hmode, hspeed⟩

section Steps

variable {s : System} {a : VFDaction} {dev_speed : UInt32}

theorem set_mode_room (hroom : s.vfd_cmd_queue.length < queueSize) (mode : SpindleState) (critical : Bool) :
    s.set_mode mode critical =
      { s with
        vfd_cmd_queue := s.vfd_cmd_queue ++ [⟨.setMode mode, critical⟩]
        mode := s.mode.request mode false
        mode_missed := false } := by
  rw [System.set_mode, System.xQueueSend, if_pos hroom]
  rfl

theorem set_mode_full (hfull : ¬s.vfd_cmd_queue.length < queueSize) (mode : SpindleState) (critical : Bool) :
    s.set_mode mode critical = { s with mode := s.mode.request mode true, mode_missed := true } := by
  rw [System.set_mode, System.xQueueSend, if_neg hfull]
  rfl

theorem setSpeed_room (hroom : s.vfd_cmd_queue.length < queueSize) (dev_speed : UInt32) :
    s.setSpeed dev_speed =
      { s with
        vfd_cmd_queue := s.vfd_cmd_queue ++ [⟨.setSpeed dev_speed, dev_speed = 0⟩]
        speed := s.speed.request dev_speed false
        isr_last := false } := by
  rw [System.setSpeed, System.xQueueSend, if_pos hroom]
  rfl

theorem setSpeed_full (hfull : ¬s.vfd_cmd_queue.length < queueSize) (dev_speed : UInt32) :
    s.setSpeed dev_speed = { s with speed := s.speed.request dev_speed true, isr_last := false } := by
  rw [System.setSpeed, System.xQueueSend, if_neg hfull]
  rfl

/-- A command of the other kind changes nothing that is due. -/
theorem due_ahead_append_other {α : Type} {value : VFDaction → Option α} {t : Track α} (ha : value a = none) :
    due value t (s.task.flight ++ (s.vfd_cmd_queue ++ [a])) = due value t s.ahead := by
  rw [← List.append_assoc]
  exact due_append_other ha

theorem due_ahead_append {α : Type} {value : VFDaction → Option α} {t : Track α} {v : α} (ha : value a = some v) :
    due value t (s.task.flight ++ (s.vfd_cmd_queue ++ [a])) = some v := by
  rw [← List.append_assoc]
  exact due_append ha

theorem kept_ahead_append {α : Type} {value : VFDaction → Option α} {t : Track α} (h : Kept value t s.ahead)
    (ha : value a = none) : Kept value t (s.task.flight ++ (s.vfd_cmd_queue ++ [a])) := by
  rw [Kept, due_ahead_append_other ha]
  exact h

theorem ahead_of_flight (h : s.task.flight = [a]) : s.ahead = a :: s.vfd_cmd_queue := by
  rw [System.ahead, h]
  rfl

/-- A mode is sent, or it is reported that it is not. -/
theorem Sound.set_mode (h : Sound s) (mode : SpindleState) (critical : Bool) : Sound (s.set_mode mode critical) := by
  by_cases hroom : s.vfd_cmd_queue.length < queueSize
  · rw [set_mode_room hroom]
    refine ⟨.inr ?_, kept_ahead_append h.speed rfl, h.slighted⟩
    show due VFDaction.mode _ (s.task.flight ++ (s.vfd_cmd_queue ++ [_])) = some mode
    exact due_ahead_append rfl
  · rw [set_mode_full hroom]
    exact ⟨.inl rfl, h.speed, h.slighted⟩

theorem Sound.setSpeed (h : Sound s) (dev_speed : UInt32) : Sound (s.setSpeed dev_speed) := by
  by_cases hroom : s.vfd_cmd_queue.length < queueSize
  · rw [setSpeed_room hroom]
    refine ⟨kept_ahead_append h.mode rfl, .inr ?_, h.slighted⟩
    show due VFDaction.speed _ (s.task.flight ++ (s.vfd_cmd_queue ++ [_])) = some dev_speed
    exact due_ahead_append rfl
  · rw [setSpeed_full hroom]
    exact ⟨h.mode, .inl rfl, h.slighted⟩

theorem due_of_noSpeed {queue : List VFDaction} (h : System.NoSpeed queue) :
    due VFDaction.speed s.speed queue = s.speed.acknowledged :=
  due_nothing (List.filterMap_eq_nil_iff.mpr h)

/-- A speed that is acknowledged with no other one ahead is due. -/
theorem due_of_acknowledged {queue : List VFDaction} (h : s.Acknowledged dev_speed queue) :
    due VFDaction.speed s.speed queue = some dev_speed :=
  (due_of_noSpeed h.2).trans h.1

/-- Behind a `Disable` that empties the queue there are only others like it. -/
theorem noSpeed_of_disables {queue : List VFDaction} (h : ∀ b ∈ queue, b.mode = some .Disable) :
    System.NoSpeed queue :=
  fun b hb => VFDaction.speed_eq_none (h b hb)

theorem due_mode_disables {mode : SpindleState} {critical : Bool} (hdisable : mode = .Disable)
    (h : ∀ b ∈ s.vfd_cmd_queue, b.mode = some .Disable) :
    due VFDaction.mode s.mode (⟨.setMode mode, critical⟩ :: s.vfd_cmd_queue) =
      due VFDaction.mode s.mode [⟨.setMode mode, critical⟩] := by
  refine due_cons_reset rfl fun w hw => ?_
  obtain ⟨b, hb, hvalue⟩ := List.mem_filterMap.mp hw
  rw [hdisable, Option.some.inj (hvalue.symm.trans (h b hb))]

theorem Sound.leaveOut (h : Sound s) (hacknowledged : s.Acknowledged dev_speed s.ahead) :
    Sound (s.leaveOut dev_speed) := by
  refine ⟨h.mode, .inr (due_of_acknowledged hacknowledged), ?_⟩
  show (s.slighted || !decide (s.Acknowledged dev_speed s.ahead)) = false
  rw [h.slighted, decide_eq_true hacknowledged]
  rfl

/-- What is in flight and queued may change hands, and so may everything that the invariant does not look at. -/
theorem Sound.congr {s' : System} (h : Sound s) (hmode : s'.mode = s.mode) (hspeed : s'.speed = s.speed)
    (hahead : s'.ahead = s.ahead) (hslighted : s'.slighted = s.slighted) : Sound s' := by
  refine ⟨?_, ?_, hslighted.trans h.slighted⟩
  · rw [hmode, hahead]
    exact h.mode
  · rw [hspeed, hahead]
    exact h.speed

theorem Sound.call (h : Sound s) (hharmless : Harmless s .call) : Sound s.call := by
  unfold System.call
  cases hcaller : s.caller with
  | idle => exact h
  | set_mode mode critical next => exact (h.set_mode mode critical).congr rfl rfl rfl rfl
  | compare state dev_speed =>
    dsimp only
    by_cases hsame : s._current_dev_speed = dev_speed
    · rw [if_neg (not_not_intro hsame)]
      exact (h.leaveOut (hharmless state dev_speed hcaller hsame)).congr rfl rfl rfl rfl
    · rw [if_pos hsame]
      exact h.congr rfl rfl rfl rfl
  | setSpeed state dev_speed => exact (h.setSpeed dev_speed).congr rfl rfl rfl rfl
  | waiting state => exact h.congr rfl rfl rfl rfl

/-- The interrupt reports nothing, so there has to be room for its command. -/
theorem Sound.send (h : Sound s) (hharmless : Harmless s .send) : Sound s.send := by
  unfold System.send
  cases hinterrupt : s.interrupt with
  | idle => exact h
  | send dev_speed =>
    dsimp only
    have hroom := hharmless (by rw [hinterrupt]; exact Interrupt.noConfusion)
    rw [System.xQueueSend, if_pos hroom]
    refine ⟨kept_ahead_append h.mode rfl, .inr ?_, h.slighted⟩
    show due VFDaction.speed _ (s.task.flight ++ (s.vfd_cmd_queue ++ [_])) = some dev_speed
    exact due_ahead_append rfl

/-- A speed that the task discards is acknowledged, and the commands that it resets change nothing. -/
theorem Sound.prepare (h : Sound s) (hharmless : Harmless s .prepare) : Sound s.prepare := by
  unfold System.prepare
  cases htask : s.task with
  | taken a =>
    obtain ⟨hdrop, hreset⟩ := hharmless a htask
    have hahead := ahead_of_flight (congrArg Task.flight htask)
    have hmode : Kept VFDaction.mode s.mode (a :: s.vfd_cmd_queue) := hahead ▸ h.mode
    have hspeed : Kept VFDaction.speed s.speed (a :: s.vfd_cmd_queue) := hahead ▸ h.speed
    obtain ⟨action, critical⟩ := a
    cases action with
    | setSpeed speed =>
      dsimp only
      by_cases hsame : speed = s._current_dev_speed
      · have hacknowledged := hdrop (congrArg some hsame)
        rw [if_pos hsame]
        refine ⟨hmode.cons_other rfl, hspeed.drop rfl ?_ (List.filterMap_eq_nil_iff.mpr hacknowledged.2), ?_⟩
        · rw [hsame]
          exact hacknowledged.1
        · show (s.slighted || !decide (s.Acknowledged speed s.vfd_cmd_queue)) = false
          rw [h.slighted, hsame, decide_eq_true hacknowledged]
          rfl
      · rw [if_neg hsame]
        exact ⟨hmode, hspeed, h.slighted⟩
    | setMode mode =>
      dsimp only
      by_cases hdisable : mode = .Disable
      · have hdisables := hreset (congrArg some hdisable)
        rw [if_pos hdisable]
        refine ⟨?_, ?_, h.slighted⟩
        · rw [Kept, due_mode_disables hdisable hdisables] at hmode
          exact hmode
        · have hvalue : VFDaction.speed ⟨.setMode mode, critical⟩ = none := rfl
          rw [Kept, due_cons_other hvalue, due_of_noSpeed (noSpeed_of_disables hdisables)] at hspeed
          exact hspeed
      · rw [if_neg hdisable]
        exact ⟨hmode, hspeed, h.slighted⟩
  | waiting => exact h
  | prepared a => exact h
  | exchange a left => exact h

theorem Sound.believe (h : Sound s) (_retries : Nat) : Sound (s.believe _retries) := by
  unfold System.believe
  cases htask : s.task with
  | prepared a =>
    have hahead := ahead_of_flight (congrArg Task.flight htask)
    obtain ⟨action, critical⟩ := a
    cases action with
    | setSpeed speed => exact h.congr rfl rfl hahead.symm rfl
    | setMode mode => exact h.congr rfl rfl hahead.symm rfl
  | waiting => exact h
  | taken a => exact h
  | exchange a left => exact h

/-- An exchange ends with what was due acknowledged, or with a message. -/
theorem Sound.exchange {answered : Bool} (h : Sound s) (hharmless : Harmless s (.exchange answered)) :
    Sound (s.exchange answered) := by
  unfold System.exchange
  cases htask : s.task with
  | exchange a left =>
    have hahead := ahead_of_flight (congrArg Task.flight htask)
    have hmode : Kept VFDaction.mode s.mode (a :: s.vfd_cmd_queue) := hahead ▸ h.mode
    have hspeed : Kept VFDaction.speed s.speed (a :: s.vfd_cmd_queue) := hahead ▸ h.speed
    cases left with
    | zero =>
      dsimp only
      by_cases hmessage : ¬s.unresponsive ∨ a.critical
      · rw [if_pos hmessage]
        exact ⟨hmode.report, hspeed.report, h.slighted⟩
      · rw [not_or, not_not, Bool.not_eq_true] at hmessage
        exact absurd (hharmless a htask hmessage.1) (by rw [hmessage.2]; decide)
    | succ left =>
      cases answered with
      | false => exact ⟨hmode, hspeed, h.slighted⟩
      | true =>
        obtain ⟨action, critical⟩ := a
        cases action with
        | setSpeed speed =>
          have hvalue : VFDaction.speed ⟨.setSpeed speed, critical⟩ = some speed := rfl
          refine ⟨hmode.cons_other rfl, ?_, h.slighted⟩
          rw [Kept, ← due_acknowledged hvalue] at hspeed
          exact hspeed
        | setMode mode =>
          have hvalue : VFDaction.mode ⟨.setMode mode, critical⟩ = some mode := rfl
          refine ⟨?_, hspeed.cons_other rfl, h.slighted⟩
          rw [Kept, ← due_acknowledged hvalue] at hmode
          exact hmode
  | waiting => exact h
  | taken a => exact h
  | prepared a => exact h

/-- What every process does keeps the last requests on their way, unless a message is issued. -/
theorem Sound.step {action : Action} (h : Sound s) (_retries : Nat) (hharmless : Harmless s action) :
    Sound (step _retries s action) := by
  cases action with
  | init =>
    show Sound (if s.caller = .idle then _ else s)
    by_cases hidle : s.caller = .idle
    · rw [if_pos hidle]
      exact h.congr rfl rfl rfl rfl
    · rw [if_neg hidle]
      exact h
  | setState state dev_speed cycle abort =>
    show Sound (if s.caller ≠ .idle then s else _)
    by_cases hidle : s.caller = .idle
    · obtain ⟨habort, hdue⟩ := hharmless hidle
      rw [if_neg (not_not_intro hidle), if_neg (by rw [habort]; decide)]
      by_cases hsame : s._current_state = state
      · rw [if_neg (not_not_intro hsame)]
        exact ⟨.inr (hdue hsame), h.speed, h.slighted⟩
      · rw [if_pos hsame]
        exact h.congr rfl rfl rfl rfl
    · rw [if_pos hidle]
      exact h
  | call => exact h.call hharmless
  | setSpeedfromISR dev_speed =>
    show Sound (if s.interrupt ≠ .idle then s else _)
    by_cases hidle : s.interrupt = .idle
    · rw [if_neg (not_not_intro hidle)]
      by_cases hsame : s._current_dev_speed = dev_speed ∨ s._last_speed = dev_speed
      · rw [if_pos hsame]
        exact h.leaveOut (hharmless hidle hsame)
      · rw [if_neg hsame]
        exact h.congr rfl rfl rfl rfl
    · rw [if_pos hidle]
      exact h
  | send => exact h.send hharmless
  | poll satisfying =>
    show Sound (if s.task = .waiting then _ else s)
    by_cases hwaiting : s.task = .waiting
    · rw [if_pos hwaiting]
      exact h.congr rfl rfl rfl rfl
    · rw [if_neg hwaiting]
      exact h
  | take =>
    unfold VfdQueue.step
    cases htask : s.task with
    | waiting =>
      cases hqueue : s.vfd_cmd_queue with
      | nil => exact h
      | cons a rest =>
        refine h.congr rfl rfl ?_ rfl
        rw [System.ahead, System.ahead, htask, hqueue]
        rfl
    | taken a => exact h
    | prepared a => exact h
    | exchange a left => exact h
  | prepare => exact h.prepare hharmless
  | believe => exact h.believe _retries
  | exchange answered => exact h.exchange hharmless

end Steps


end DuneWeaver.Spindles.VfdQueue
