import DuneWeaver.Playlist.Load

namespace DuneWeaver

/-- `snprintf(line, LINE_BUFFER_SIZE, "$SD/Run=%s", path.c_str())`. -/
def runLine (path : Bytes) : Bytes := (bytes "$SD/Run=" ++ c_str path).take (LINE_BUFFER_SIZE - 1)

/-- The mid-run hold applies: Still Sands with FinishPattern=OFF in quiet
hours. -/
def Env.holdNow (env : Env) : Bool := env.quietNow && !env.settings.sands_finish

namespace Tick

/-- Still Sands LED-off: force the strip off in quiet hours, restore on exit. -/
def ledOff (env : Env) (t : Tick) : Tick :=
  let want_off : Bool := env.settings.sands_led_off && env.quietNow
  if want_off ≠ t.led_off_active then
    { t.emit (.set_quiet_off want_off) with led_off_active := want_off }
  else t

/-- Still Sands FinishPattern=OFF: hold a pattern that is running when quiet
hours start and resume it when they end. -/
def midRunHold (env : Env) (t : Tick) : Tick :=
  if env.holdNow ∧ ¬ t.quiet_held ∧ t.phase = .RunPattern ∧ env.state = .Cycle then
    { t.emit (.send .feedHold) with quiet_held := true }
  else if t.quiet_held ∧ ¬ env.holdNow then
    { t.emit (.send .cycleStart) with quiet_held := false }
  else t

/-- Auto-play on boot: start the configured playlist on the first Idle after a
successful home, requesting that home after a grace period. -/
def autostart (env : Env) (t : Tick) : Tick :=
  if t.autostart_pending ∧ t.phase = .Off ∧ ¬ t.req_run ∧ ¬ t.req_stop ∧ env.state = .Idle then
    if env.settings.autostart = [] then { t with autostart_pending := false }
    else if ¬ env.homed_since_boot then
      let t := if ¬ t.autostart_idle_seen then
          { t with autostart_idle_seen := true, autostart_idle_ms := env.now }
        else t
      if ¬ t.autostart_home_sent ∧ env.now - t.autostart_idle_ms ≥ AUTOSTART_HOME_GRACE_MS then
        { t.emit .start_home with autostart_home_sent := true }
      else t
    else if env.job_active then t
    else
      { t with
        autostart_pending := false
        req_name := strlcpy 128 env.settings.autostart
        req_single := false
        req_clear_override := env.settings.autostart_clear
        req_ov_mode := env.settings.autostart_mode
        req_ov_shuffle := env.settings.autostart_shuffle
        req_ov_pause := env.settings.autostart_pause
        req_ov_pfs := env.settings.autostart_pfs
        req_no_abort := true
        req_run := true }
  else if t.autostart_pending ∧ env.state ≠ .Idle then { t with autostart_idle_seen := false }
  else t

/-- Post the deferred abort if a job is active. -/
def stopJob (env : Env) (t : Tick) : Tick := if env.job_active then t.emit (.send .stopJob) else t

/-- The `_req_stop` branch. -/
def consumeStop (env : Env) (t : Tick) : Tick :=
  let t := { t with req_stop := false, req_skip := false }
  let t := if t.phase ≠ .Off then (t.finish env).stopJob env else t
  t.publish

/-- The `_req_run` branch up to the load. -/
def takeRequest (env : Env) (t : Tick) : Tick :=
  let no_abort := t.req_no_abort
  let t := { t with
    req_run := false
    single := t.req_single
    clear_override := t.req_clear_override
    ov_mode := t.req_ov_mode
    ov_shuffle := t.req_ov_shuffle
    ov_pause := t.req_ov_pause
    ov_pfs := t.req_ov_pfs
    req_no_abort := false
    consec_fail := 0
    skip_active := false }
  if env.job_active ∧ ¬ no_abort then t.emit (.send .stopJob) else t

/-- The `_req_run` branch. It returns without publishing. -/
def consumeRun (env : Env) (t : Tick) : Tick :=
  let t := t.takeRequest env
  if t.single then { t.loadSingle t.req_name with phase := .NextItem }
  else
    match t.loadPlaylist env t.req_name with
    | (t, true) => { t with phase := .NextItem }
    | (t, false) => t.finish env

/-- The quiet-hours gate of `NextItem`; `false` when it holds the playlist. -/
def quietGate (env : Env) (t : Tick) : Tick × Bool :=
  if ¬ t.single ∧ env.quietNow then
    let t := { t with in_quiet := true }
    let t := if t.req_skip then { t with req_skip := false, quiet_override := true } else t
    (t, t.quiet_override)
  else if t.in_quiet then ({ t with in_quiet := false, quiet_override := false }, true)
  else (t, true)

/-- Hand over a line: the `return Error::Ok` of `NextItem`. -/
def inject (env : Env) (path : Bytes) (phase : Phase) (t : Tick) : Tick :=
  { t with injected := some (runLine path), phase := phase, job_seen := false, inject_ms := env.now }

/-- `NextItem` once the path of the slot is known: the clear, if there is one
to run, and otherwise the pattern. -/
def injectItem (env : Env) (t : Tick) : Tick :=
  let injectPattern (t : Tick) : Tick :=
    { t.inject env t.current_path .RunPattern with pattern_start_ms := env.now }
  if ¬ t.clear_done then
    let t := { t with pending_clear := t.clearFileFor env 1 t.current_path, clear_done := true }
    if t.pending_clear ≠ [] then
      let clear_speed := env.settings.clear_speed
      let t := { t with
        toThetaRho := t.toThetaRho.setClearFeed (if clear_speed > 0 then clear_speed else -1) }
      t.inject env t.pending_clear .RunClear
    else injectPattern t
  else injectPattern t

/-- `NextItem` when a line can be injected. -/
def playItem (env : Env) (t : Tick) : Tick :=
  if t.resolved_index ≠ some t.index then
    match t.resolveCurrent env 0 with
    | none =>
      let t := { t with consec_fail := t.consec_fail + 1 }
      if t.consec_fail ≥ MAX_CONSEC_FAIL then t.finish env else (t.advanceIndex env).1
    | some t => injectItem env { t with resolved_index := some t.index }
  else injectItem env t

/-- Phase `NextItem`: decide what to do for the upcoming pattern. -/
def nextItem (env : Env) (t : Tick) : Tick :=
  if inAlarmState env.state then t.finish env
  else
    match t.quietGate env with
    | (t, false) => t
    | (t, true) =>
      if t.req_skip then
        (advanceIndex env { t with req_skip := false, since_home := t.since_home + 1 }).1
      else if ¬ env.line ∨ env.state ≠ .Idle ∨ env.job_active then t
      else if ¬ t.single ∧ env.settings.auto_home > 0 ∧ t.since_home ≥ env.settings.auto_home then
        { t.emit .start_home with phase := .Homing, job_seen := false, inject_ms := env.now }
      else t.playItem env

/-- Phase `Homing`: wait for the requested home. -/
def homing (env : Env) (t : Tick) : Tick :=
  if env.state = .Alarm ∨ env.state = .Critical then t.finish env
  else if ¬ t.job_seen then
    if env.state = .Homing ∨ env.state = .Jog then { t with job_seen := true }
    else if env.now - t.inject_ms > INJECT_TIMEOUT_MS then t.finish env
    else t
  else if env.state = .Idle then { t with since_home := 0, phase := .NextItem }
  else if env.now - t.inject_ms > HOMING_TIMEOUT_MS then t.finish env
  else t

/-- Go on to the next slot, unless the run is over. -/
def nextSlot (env : Env) (t : Tick) : Tick :=
  match t.advanceIndex env with
  | (t, true) => { t with phase := .NextItem }
  | (t, false) => t

/-- The injected job did not start in time. -/
def startFailed (env : Env) (t : Tick) : Tick :=
  let t := { t with skip_active := false }
  if t.single then t.finish env
  else
    let t := if t.phase = .RunClear then { t with toThetaRho := t.toThetaRho.setClearFeed (-1) } else t
    let t := { t with consec_fail := t.consec_fail + 1 }
    if t.consec_fail ≥ MAX_CONSEC_FAIL then t.finish env
    else nextSlot env { t with since_home := t.since_home + 1 }

/-- The clear has ended: go on to its pattern, or past the whole item when it
was skipped. -/
def clearDone (env : Env) (t : Tick) : Tick :=
  let t := { t with toThetaRho := t.toThetaRho.setClearFeed (-1) }
  if t.skip_active then nextSlot env { t with skip_active := false, since_home := t.since_home + 1 }
  else { t with phase := .NextItem }

/-- The pause after a pattern: the configured one, less the drawing time when
it counts from the start, and none after a manual skip. -/
def pauseMs (env : Env) (t : Tick) : UInt32 :=
  let pause_ms : UInt32 := UInt32.ofInt (t.runPause env) * 1000
  let pause_ms :=
    if t.runPauseFromStart env ≠ 0 then
      let elapsed := env.now - t.pattern_start_ms
      if pause_ms > elapsed then pause_ms - elapsed else 0
    else pause_ms
  if t.skip_active then 0 else pause_ms

/-- The label `pattern_done`: the pattern has ended. -/
def patternDone (env : Env) (t : Tick) : Tick :=
  let pause_ms := t.pauseMs env
  let t := { t with
    last_pattern := t.current_path
    since_home := t.since_home + 1
    quiet_override := false
    skip_active := false }
  match t.advanceIndex env with
  | (t, false) => t
  | (t, true) =>
    if pause_ms > 0 then
      { t with pause_until_ms := env.now + pause_ms, pause_total_ms := pause_ms, phase := .Pausing }
    else { t with phase := .NextItem }

/-- Phases `RunClear` and `RunPattern`: watch the injected job. -/
def running (env : Env) (t : Tick) : Tick :=
  if inAlarmState env.state then t.finish env
  else if t.req_skip then { t with req_skip := false, skip_active := true }.stopJob env
  else if ¬ t.job_seen then
    if env.job_active then
      { t with job_seen := true, consec_fail := if t.phase = .RunPattern then 0 else t.consec_fail }
    else if env.now - t.inject_ms > INJECT_TIMEOUT_MS then t.startFailed env
    else t
  else if ¬ env.job_active ∧ env.state = .Idle then
    if t.phase = .RunClear then t.clearDone env else t.patternDone env
  else t

/-- Phase `Pausing`: wait out the pause between patterns. -/
def pausing (env : Env) (t : Tick) : Tick :=
  if t.req_skip then { t with req_skip := false, phase := .NextItem }
  else if (env.now - t.pause_until_ms).toInt32 ≥ 0 then { t with phase := .NextItem }
  else t

/-- The `switch (_phase)`. -/
def phaseStep (env : Env) (t : Tick) : Tick :=
  match t.phase with
  | .Off => t
  | .NextItem => t.nextItem env
  | .Homing => t.homing env
  | .RunClear => t.running env
  | .RunPattern => t.running env
  | .Pausing => t.pausing env

/-- What every call does first, whatever the phase. -/
def prelude (env : Env) (t : Tick) : Tick := ((t.ledOff env).midRunHold env).autostart env

/-- The rest of the call: requests first, then the phase. -/
def dispatch (env : Env) (t : Tick) : Tick :=
  if t.phase = .Off ∧ ¬ t.req_run ∧ ¬ t.req_stop then
    { t with toThetaRho := t.toThetaRho.flushFeedLive env.state }
  else if t.req_stop then t.consumeStop env
  else if t.req_run then t.consumeRun env
  else
    let t := t.phaseStep env
    -- a line handed over returns Error::Ok before the publish
    if t.injected = none then t.publish else t

end Tick

/-- One call of `Playlist::pollLine`. The result is `Error::Ok` with the line
when one is handed over and `Error::NoData` otherwise. -/
def pollLine (env : Env) (p : Playlist) : Tick := (Tick.prelude env { toPlaylist := p }).dispatch env

end DuneWeaver
