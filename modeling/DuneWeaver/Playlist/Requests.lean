import DuneWeaver.Playlist.Poll

namespace DuneWeaver

namespace Playlist

/-- Stage a run request. -/
private def stage_run (name : Bytes) (single : Bool) (clear_override : Int) (p : Playlist) : Playlist :=
  { p with
    req_name := strlcpy 128 name
    req_single := single
    req_clear_override := clear_override
    req_ov_mode := -1
    req_ov_shuffle := -1
    req_ov_pause := -1
    req_ov_pfs := -1
    req_no_abort := false
    req_run := true }

/-- `$Playlist/Run=<name>`, issued in machine state `state`. -/
def requestRun (name : Bytes) (state : State) (p : Playlist) : Error × Playlist :=
  if name = [] then (.InvalidValue, p)
  else if inAlarmState state then (.IdleError, p)
  else (.Ok, p.stage_run name false (-1))

/-- `$Sand/Run=<file> [clear=<mode>]`; an empty mode stands for none. -/
def requestSingle (patternPath clearMode : Bytes) (state : State) (p : Playlist) : Error × Playlist :=
  if patternPath = [] then (.InvalidValue, p)
  else if inAlarmState state then (.IdleError, p)
  else if clearMode = [] then (.Ok, p.stage_run patternPath true PlaylistParse.CLEAR_NONE)
  else
    match PlaylistParse.parse_clear_mode clearMode with
    | none => (.InvalidValue, p)
    | some mode => (.Ok, p.stage_run patternPath true mode)

/-- `$Playlist/Stop`. -/
def requestStop (p : Playlist) : Error × Playlist :=
  if p.phase = .Off ∧ ¬ p.req_run then (.Ok, p)
  else (.Ok, { p with req_run := false, req_stop := true })

/-- The global stop of the web API; tells whether a sequence was active. -/
def stopActive (p : Playlist) : Bool × Playlist :=
  if p.phase = .Off ∧ ¬ p.req_run then (false, p)
  else (true, { p with req_run := false, req_stop := true })

/-- `$Playlist/Skip`. -/
def requestSkip (p : Playlist) : Error × Playlist :=
  if p.phase = .Off then (.Ok, p) else (.Ok, { p with req_skip := true })

/-- The object as the module constructs it at boot. -/
def boot (feed_setting : Option Int) : Playlist := { feed_setting := feed_setting }

end Playlist

/-- A request made through a command handler. -/
inductive Request where
  | run (name : Bytes) (state : State)
  | single (patternPath clearMode : Bytes) (state : State)
  | stop
  | stopActive
  | skip
  deriving DecidableEq

/-- A request handler runs in some task between two polls and sets flags only. -/
def Playlist.request (p : Playlist) : Request → Playlist
  | .run name state => (p.requestRun name state).2
  | .single patternPath clearMode state => (p.requestSingle patternPath clearMode state).2
  | .stop => p.requestStop.2
  | .stopActive => p.stopActive.2
  | .skip => p.requestSkip.2

/-- What can happen to the `Playlist` object: a poll or a request. -/
inductive Action where
  | poll (env : Env)
  | request (r : Request)

/-- One step of the playlist machine. -/
def Playlist.step (p : Playlist) : Action → Playlist
  | .poll env => (pollLine env p).toPlaylist
  | .request r => p.request r

/-- The handlers only stage flags: they leave the run itself as it is. -/
theorem Playlist.request_eq (p : Playlist) (r : Request) :
    p.request r = { p with toRequests := (p.request r).toRequests } := by
  cases r <;>
    simp only [Playlist.request, Playlist.requestRun, Playlist.requestSingle, Playlist.requestStop,
      Playlist.stopActive, Playlist.requestSkip] <;>
    (repeat' split) <;> rfl

end DuneWeaver
