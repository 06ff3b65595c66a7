import DuneWeaver.Playlist.Requests
import DuneWeaver.Protocol.Realtime

namespace DuneWeaver

/-- What the main task does for a line, step by step: wait for the motions to
end, hand a motion over to the planner, or run a file, which nests a job if the
file opens. `arc` marks the segments of an arc, given up on a system abort. -/
inductive Op where
  | synchronize
  | move (is_jog arc : Bool)
  | runFile (opens : Bool)
  deriving DecidableEq

/-- A job of the job stack. It is known by the number of its nesting, and by the
number of the playlist line it goes back to, if it goes back to one. -/
structure Job where
  id : Nat
  origin : Option Nat := none
  deriving DecidableEq

/-- Where a line comes from: the playlist, whose lines are numbered, a job, or
another channel. -/
inductive Source where
  | playlist (number : Nat)
  | job (job : Job)
  | other
  deriving DecidableEq

namespace Source

/-- The playlist line a job nested by a line from here goes back to. -/
def origin : Source → Option Nat
  | .playlist number => some number
  | .job owner => owner.origin
  | .other => none

/-- The job a motion of a line from here belongs to. -/
def jobId : Source → Option Nat
  | .job owner => some owner.id
  | _ => none

end Source

/-- `activeLine`, with what executing it comes to. -/
structure Line where
  source : Source
  ops : List Op
  deriving DecidableEq

/-- An item of the event queue. An event the playlist has posted carries the
number of lines handed over by then. -/
structure EventItem where
  event : Event
  posted : Option Nat := none
  deriving DecidableEq

/-- Where the poller stands in a pass: before `pollChannels()`, or before it
looks for a line. -/
inductive PollerPc where
  | channels
  | line
  deriving DecidableEq

/-- Where the main task stands: at the top of its loop, between two steps of a
line, in the loops of `mc_move_motors` and `protocol_buffer_synchronize`, at
their test or inside `protocol_execute_realtime`, and before or inside the one of
the main loop. -/
inductive MainPc where
  | top
  | autoCycleStart
  | exec (source : Source) (ops : List Op)
  | move (source : Source) (is_jog arc : Bool) (ops : List Op)
  | moveRealtime (source : Source) (is_jog arc : Bool) (ops : List Op)
  | synchronize (source : Source) (ops : List Op)
  | synchronizeRealtime (source : Source) (ops : List Op)
  | realtime
  deriving DecidableEq

/-- The two tasks, the job stack (top first) and what they share. `counter` is
the throttle of `pollChannels`; `injected` and `nested` count the lines the
playlist has handed over and the jobs that have been nested. -/
structure System extends Realtime where
  playlist : Playlist := {}
  jobs : List Job := []
  activeLine : Option Line := none
  event_queue : List EventItem := []
  counter : Nat := 0
  poller : PollerPc := .channels
  main : MainPc := .top
  planner_blocks : Nat := 16
  injected : Nat := 0
  nested : Nat := 0
  deriving DecidableEq

/-- What the job channel answers when it is asked for a line. -/
inductive JobAnswer where
  | line (ops : List Op)
  | noData
  | eof
  | error
  deriving DecidableEq

/-- What half a pass of the poller finds: the playlist's surroundings, whether
`AllChannels::poll` gets as far as the playlist, what the playlist's line comes
to (the kinematics may first end an old job, and the file may not open), the line
another channel has, and the answer of the job channel. -/
structure Pass where
  env : Env := {}
  reached : Bool := true
  normalizes : Bool := false
  opens : Bool := true
  other : Option (List Op) := none
  job : JobAnswer := .noData

/-- What code outside of the model does to the machine: alarms, homing, the
safety door, parking, check mode, unlocking and resets. -/
structure Outside where
  state : State
  suspend : SuspendBits := {}
  step_control : StepControl := {}
  soft_limit : Bool := false
  spindle_stop_ovr : Bool := false
  plan_reset : Bool := false
  late_reset : Bool := false

def EVENT_QUEUE_LENGTH : Nat := 10
def POLL_THROTTLE : Nat := 50

namespace System

/-- `protocol_send_event`: an event for which there is no room is lost. -/
def protocol_send_event (item : EventItem) (s : System) : System :=
  if s.event_queue.length < EVENT_QUEUE_LENGTH then
    { s with event_queue := s.event_queue ++ [item] }
  else s

/-- One effect of a call of `Playlist::pollLine`. -/
def perform (s : System) : Effect → System
  | .send event => s.protocol_send_event { event := event, posted := some s.injected }
  | .start_home => { s with rtStartHome := true }
  | .set_quiet_off _ => s

/-- The surroundings as the poller finds them. -/
def around (line : Bool) (env : Env) (s : System) : Env :=
  { env with line := line, state := s.state, job_active := !s.jobs.isEmpty }

/-- A call of `Playlist::pollLine` by the poller, up to the line it hands over. -/
def pollPlaylist (line : Bool) (env : Env) (s : System) : System :=
  let t := pollLine (s.around line env) s.playlist
  { t.sent.foldl perform s with playlist := t.toPlaylist }

/-- `pollChannels()` at the start of a pass: the channels are polled without a
line, and only once in a while. -/
def pollChannels (pass : Pass) (s : System) : System :=
  let s := { s with poller := .line }
  if s.counter > 0 then { s with counter := s.counter - 1 }
  else
    let s := { s with counter := POLL_THROTTLE }
    if pass.reached then s.pollPlaylist false pass.env else s

/-- `pollChannels(activeLine)`. -/
def pollForLine (pass : Pass) (s : System) : System :=
  let s := { s with counter := POLL_THROTTLE }
  let other (s : System) : System :=
    { s with activeLine := pass.other.map fun ops => { source := .other, ops := ops } }
  if pass.reached then
    match (pollLine (s.around true pass.env) s.playlist).injected with
    | some _ =>
      let ops := (if pass.normalizes then [.synchronize] else []) ++ [.runFile pass.opens]
      { s.pollPlaylist true pass.env with
        activeLine := some { source := .playlist (s.injected + 1), ops := ops }
        injected := s.injected + 1 }
    | none => other (s.pollPlaylist true pass.env)
  else other s

/-- `Job::abort`. -/
def abortJobs (s : System) : System := { s with jobs := [], unwind_cause := none }

/-- The second half of a pass of `polling_loop`. -/
def pollLines (pass : Pass) (s : System) : System :=
  let s := { s with poller := .channels }
  match s.activeLine with
  | some _ => s
  | none =>
    match s.jobs with
    | [] => { s with unwind_cause := none }.pollForLine pass
    | job :: rest =>
      if inAlarmState s.state then s.abortJobs
      else if s.unwind_cause.isSome then s.abortJobs
      else
        match pass.job with
        | .line ops => { s with activeLine := some { source := .job job, ops := ops } }
        | .noData => s
        | .eof => { s with jobs := rest }
        | .error => { s with jobs := [] }

/-- The poller goes on by half a pass. -/
def polling_loop (pass : Pass) (s : System) : System :=
  match s.poller with
  | .channels => s.pollChannels pass
  | .line => s.pollLines pass

/-- `Job::nest`. -/
def nest (origin : Option Nat) (s : System) : System :=
  { s with jobs := { id := s.nested, origin := origin } :: s.jobs, nested := s.nested + 1 }

/-- Run the handler of an event. -/
def handle (item : EventItem) (s : System) : System :=
  match item.event with
  | .feedHold => { s with toRealtime := s.protocol_do_feedhold }
  | .cycleStart => { s with toRealtime := s.protocol_do_cycle_start }
  | .stopJob => { s with toRealtime := s.protocol_do_stop_job (!s.jobs.isEmpty) item.posted }
  | .cycleStop => { s with toRealtime := s.protocol_do_cycle_stop }
  | .motionCancel => { s with toRealtime := s.protocol_do_motion_cancel }
  | .doMacro => s.nest none
  | .other => s

/-- `protocol_execute_realtime`, event by event: the queue is emptied, and while
the machine is suspended it is emptied again and again. -/
def protocol_execute_realtime (resume : System → System) (s : System) : System :=
  match s.event_queue with
  | item :: rest => { s with event_queue := rest }.handle item
  | [] =>
    if s.suspend ≠ {} ∧ ¬ s.abort then
      if s.suspend.jogCancel then { s with toRealtime := s.mc_cancel_jog } else s
    else resume s

/-- `protocol_auto_cycle_start`. -/
def protocol_auto_cycle_start (s : System) : System :=
  if s.plan ≠ [] ∧ s.state ≠ .Cycle ∧ s.state ≠ .Hold then s.protocol_send_event { event := .cycleStart }
  else s

/-- `plan_check_full_buffer`: the ring keeps one slot free. -/
def plan_check_full_buffer (s : System) : Bool := s.planner_blocks ≤ s.plan.length + 1

/-- What is left of a line after one of its motions. An arc bails out mid-circle
on a system abort. -/
def afterMove (arc : Bool) (ops : List Op) (s : System) : List Op :=
  if arc ∧ s.abort then
    ops.dropWhile fun
      | .move _ arc => arc
      | _ => false
  else ops

/-- `runFile`. -/
def runFile (source : Source) (opens : Bool) (s : System) : System :=
  if s.state = .Alarm ∨ s.state = .ConfigAlarm ∨ ¬ opens then s else s.nest source.origin

/-- The main task goes on by one step. -/
def protocol_main_loop (s : System) : System :=
  match s.main with
  | .top =>
    match s.activeLine with
    | some line => { s with main := .exec line.source line.ops }
    | none => { s with main := .autoCycleStart }
  | .autoCycleStart => { s.protocol_auto_cycle_start with main := .realtime }
  | .exec _ [] => { s with activeLine := none, main := .autoCycleStart }
  | .exec source (.runFile opens :: ops) => { s.runFile source opens with main := .exec source ops }
  | .exec source (.synchronize :: ops) => { s with main := .synchronize source ops }
  | .exec source (.move is_jog arc :: ops) =>
    if s.state = .CheckMode then { s with inflight := none, main := .exec source (s.afterMove arc ops) }
    else { s with inflight := some is_jog, main := .move source is_jog arc ops }
  | .move source is_jog arc ops =>
    if s.plan_check_full_buffer then
      { s.protocol_auto_cycle_start with main := .moveRealtime source is_jog arc ops }
    else
      { s with
        plan := if s.inflight.isSome then s.plan ++ [{ is_jog := is_jog, job := source.jobId }] else s.plan
        inflight := none
        main := .exec source (s.afterMove arc ops) }
  | .moveRealtime source is_jog arc ops =>
    s.protocol_execute_realtime fun s =>
      if s.abort then { s with inflight := none, main := .exec source (s.afterMove arc ops) }
      else { s with main := .move source is_jog arc ops }
  | .synchronize source ops =>
    { s.protocol_auto_cycle_start with main := .synchronizeRealtime source ops }
  | .synchronizeRealtime source ops =>
    s.protocol_execute_realtime fun s =>
      if ¬ s.abort ∧ (s.plan ≠ [] ∨ s.state = .Cycle) then { s with main := .synchronize source ops }
      else { s with main := .exec source ops }
  | .realtime =>
    s.protocol_execute_realtime fun s =>
      { s with
        abort := false
        -- the theta normalize of a stopped job
        rtStopJob := s.rtStopJob && !(s.jobs.isEmpty && s.state = .Idle)
        main := .top }

/-- The stepper is done with the oldest block. -/
def plan_discard_current_block (s : System) : System := { s with plan := s.plan.tail }

/-- Code outside of the model has its way with the machine. -/
def outside (o : Outside) (s : System) : System :=
  { s with
    state := o.state
    suspend := o.suspend
    step_control := o.step_control
    soft_limit := o.soft_limit
    spindle_stop_ovr := o.spindle_stop_ovr
    plan := if o.plan_reset then [] else s.plan
    abort := s.abort || o.late_reset
    unwind_cause := if o.late_reset then some .Reset else s.unwind_cause
    rtStartHome := false }

end System

/-- The request as it is made in the machine state of the moment. -/
def Request.inState (state : State) : Request → Request
  | .run name _ => .run name state
  | .single patternPath clearMode _ => .single patternPath clearMode state
  | r => r

/-- One step of one party: a task, a command handler, another task or interrupt
that posts an event, the stepper, or code outside of the model. -/
inductive Move where
  | poller (pass : Pass)
  | main
  | request (r : Request)
  | post (event : Event)
  | discard
  | outside (o : Outside)

/-- One step of the system. -/
def System.step (s : System) : Move → System
  | .poller pass => s.polling_loop pass
  | .main => s.protocol_main_loop
  | .request r => { s with playlist := s.playlist.request (r.inState s.state) }
  | .post event => s.protocol_send_event { event := event }
  | .discard => s.plan_discard_current_block
  | .outside o => s.outside o

/-- The system as it starts. -/
def System.boot (feed_setting : Option Int) (planner_blocks : Nat) : System :=
  { playlist := Playlist.boot feed_setting, planner_blocks := planner_blocks }

end DuneWeaver
