import DuneWeaver.PlaylistParse
import DuneWeaver.ThetaRho

namespace DuneWeaver

/-- The phases of the playlist machine. -/
inductive Phase where
  | Off
  | NextItem
  | Homing
  | RunClear
  | RunPattern
  | Pausing
  deriving DecidableEq

def MODE_SINGLE : Int := 0
def MODE_LOOP : Int := 1

def INJECT_TIMEOUT_MS : UInt32 := 8000
def MAX_CONSEC_FAIL : Nat := 5
def HOMING_TIMEOUT_MS : UInt32 := 120000
def AUTOSTART_HOME_GRACE_MS : UInt32 := 5000
def MAX_ITEMS : Nat := 1024
def MAX_PLAYLIST_FILE : Nat := 64 * 1024
def MAX_LINE : Nat := 512

/-- The `playlist:` section of the config and the settings the machine reads. -/
structure Settings where
  folder : Bytes := bytes "/playlists"
  clear_in : Bytes := bytes "/patterns/clear_from_in.thr"
  clear_out : Bytes := bytes "/patterns/clear_from_out.thr"
  clear_side : Bytes := bytes "/patterns/clear_sideway.thr"
  mode : Int := MODE_SINGLE
  shuffle : Int := 0
  pause_time : Int := 0
  pause_from_start : Int := 0
  clear_mode : Int := PlaylistParse.CLEAR_NONE
  clear_in_set : Bytes := []
  clear_out_set : Bytes := []
  clear_speed : Int := 0
  auto_home : Int := 0
  sands_enabled : Bool := false
  sands_led_off : Bool := false
  sands_finish : Bool := true
  autostart : Bytes := []
  autostart_mode : Int := MODE_LOOP
  autostart_shuffle : Int := 0
  autostart_pause : Int := 0
  autostart_pfs : Int := 0
  autostart_clear : Int := PlaylistParse.CLEAR_NONE

/-- What goes wrong when a file is opened and read. `FileStream::read` answers
an error with the same -1 as the end of the file. -/
inductive Fault where
  | none
  | open
  | after (count : Nat)
  deriving DecidableEq

/-- What one call of `pollLine` finds around it: the clock, the line buffer
(`false` for the null pointer), the machine and job state, whether the clock
stands inside a quiet slot, the settings, the random draws, and the SD card
with the faults of the successive opens of this call. -/
structure Env where
  now : UInt32 := 0
  line : Bool := false
  state : State := .Idle
  job_active : Bool := false
  quiet_slot : Bool := false
  homed_since_boot : Bool := false
  settings : Settings := {}
  esp_random : Nat → UInt32 := fun _ => 0
  files : Bytes → Option Bytes := fun _ => none
  fault : Nat → Fault := fun _ => .none
  file_exists : Bytes → Bool := fun _ => true
  sscanf : Bytes → Option (Binary32.Value × Binary32.Value) := fun _ => none

/-- The bytes the `attempt`-th open of this call delivers; `none` when it
throws. -/
def Env.read (env : Env) (attempt : Nat) (path : Bytes) : Option Bytes :=
  match env.fault attempt with
  | .none => env.files path
  | .open => none
  | .after count => (env.files path).map (List.take count)

/-- Quiet hours apply: they are enabled and the clock stands inside a slot. -/
def Env.quietNow (env : Env) : Bool := env.settings.sands_enabled && env.quiet_slot

/-- The requests the command handlers leave for the poller. -/
structure Requests where
  req_stop : Bool := false
  req_skip : Bool := false
  req_run : Bool := false
  req_name : Bytes := []
  req_single : Bool := false
  req_clear_override : Int := -1
  req_no_abort : Bool := false
  req_ov_mode : Int := -1
  req_ov_shuffle : Int := -1
  req_ov_pause : Int := -1
  req_ov_pfs : Int := -1
  deriving DecidableEq

/-- The boot auto-play. -/
structure Autostart where
  autostart_pending : Bool := true
  autostart_home_sent : Bool := false
  autostart_idle_seen : Bool := false
  autostart_idle_ms : UInt32 := 0
  deriving DecidableEq

/-- The published snapshot, written by the poller and read by the API. -/
structure Published where
  pub_active : Bool := false
  pub_clearing : Bool := false
  pub_quiet : Bool := false
  pub_pausing : Bool := false
  pub_index : Int := 0
  pub_total : Int := 0
  pub_pause_until_ms : UInt32 := 0
  pub_pause_total_ms : UInt32 := 0
  pub_name : Bytes := []
  pub_current : Bytes := []
  pub_next : Bytes := []
  pub_last : Bytes := []
  deriving DecidableEq

/-- The parameters of the run, staged by the request that started it. -/
structure RunParams where
  single : Bool := false
  clear_override : Int := -1
  ov_mode : Int := -1
  ov_shuffle : Int := -1
  ov_pause : Int := -1
  ov_pfs : Int := -1
  deriving DecidableEq

/-- Where the run stands in its playlist. `resolved_index` is `none` for
`SIZE_MAX`. -/
structure Cursor where
  order : List Nat := []
  index : Nat := 0
  resolved_index : Option Nat := none
  playlist_path : Bytes := []
  playlist_name : Bytes := []
  current_path : Bytes := []
  next_path : Bytes := []
  last_pattern : Bytes := []
  pending_clear : Bytes := []
  clear_done : Bool := false
  deriving DecidableEq

/-- The progress of the current item. -/
structure Progress where
  consec_fail : Nat := 0
  skip_active : Bool := false
  job_seen : Bool := false
  inject_ms : UInt32 := 0
  pattern_start_ms : UInt32 := 0
  pause_until_ms : UInt32 := 0
  pause_total_ms : UInt32 := 0
  since_home : Int := 0
  deriving DecidableEq

/-- The flags of Still Sands. -/
structure StillSands where
  led_off_active : Bool := false
  quiet_held : Bool := false
  in_quiet : Bool := false
  quiet_override : Bool := false
  deriving DecidableEq

/-- The members of the `Playlist` object that outlive a call, together with
the `ThetaRho` statics it drives. -/
structure Playlist extends ThetaRho, Requests, Autostart, Published, RunParams, Cursor, Progress,
    StillSands where
  phase : Phase := .Off
  deriving DecidableEq

/-- What a call does to the rest of the firmware. -/
inductive Effect where
  | send (event : Event)
  | start_home
  | set_quiet_off (off : Bool)
  deriving DecidableEq

/-- The `Playlist` object inside one call of `pollLine`, with what the call
has done so far and the line it hands over, if any. -/
structure Tick extends Playlist where
  sent : List Effect := []
  injected : Option Bytes := none
  deriving DecidableEq

namespace Tick

/-- `protocol_send_event` and its like, in the order of the calls. -/
def emit (effect : Effect) (t : Tick) : Tick := { t with sent := t.sent ++ [effect] }

@[simp] theorem emit_toPlaylist (effect : Effect) (t : Tick) :
    (t.emit effect).toPlaylist = t.toPlaylist := rfl

@[simp] theorem emit_sent (effect : Effect) (t : Tick) :
    (t.emit effect).sent = t.sent ++ [effect] := rfl

@[simp] theorem emit_injected (effect : Effect) (t : Tick) :
    (t.emit effect).injected = t.injected := rfl

/-- A per-run override wins over the global setting. -/
def runMode (env : Env) (t : Tick) : Int := if t.ov_mode ≥ 0 then t.ov_mode else env.settings.mode
def runShuffle (env : Env) (t : Tick) : Int :=
  if t.ov_shuffle ≥ 0 then t.ov_shuffle else env.settings.shuffle
def runPause (env : Env) (t : Tick) : Int :=
  if t.ov_pause ≥ 0 then t.ov_pause else env.settings.pause_time
def runPauseFromStart (env : Env) (t : Tick) : Int :=
  if t.ov_pfs ≥ 0 then t.ov_pfs else env.settings.pause_from_start

end Tick

variable {σ : Type*}

/-- The locals of `scanValidLines`; `acc` is what the callback captures. -/
structure Scan (σ : Type*) where
  line : Bytes
  consumed : Nat
  valid : Nat
  overlong : Bool
  acc : σ

namespace Scan

/-- The `flush` closure: deliver the line unless it is blank, and tell whether
to go on. -/
def flush (fn : σ → Nat → Bytes → σ × Bool) (s : Scan σ) : Scan σ × Bool :=
  match PlaylistParse.clean_line s.line with
  | [] => (s, true)
  | c :: p =>
    let (acc, cont) := fn s.acc s.valid (c :: p)
    ({ s with acc := acc, valid := s.valid + 1 }, cont)

/-- After the loop: the last line without a trailing newline. -/
def tail (fn : σ → Nat → Bytes → σ × Bool) (s : Scan σ) : σ :=
  if ¬ s.overlong ∧ s.valid < MAX_ITEMS then (s.flush fn).1.acc else s.acc

/-- The read loop. The bound checks follow the read, as in the source: the
byte just read is dropped when a bound is hit. -/
def loop (fn : σ → Nat → Bytes → σ × Bool) : Bytes → Scan σ → σ
  | [], s => s.tail fn
  | c :: rest, s =>
    if s.consumed < MAX_PLAYLIST_FILE ∧ s.valid < MAX_ITEMS then
      if c = 10 then
        if s.overlong then
          loop fn rest { s with consumed := s.consumed + 1, line := [], overlong := false }
        else
          let (s, cont) := s.flush fn
          if ¬ cont then s.acc
          else loop fn rest { s with consumed := s.consumed + 1, line := [], overlong := false }
      else if s.line.length < MAX_LINE then
        loop fn rest { s with consumed := s.consumed + 1, line := s.line ++ [c] }
      else
        loop fn rest { s with consumed := s.consumed + 1, overlong := true }
    else s.tail fn

end Scan

/-- Stream a playlist file line by line, handing each non-blank line with its
number to the callback, which may stop the scan. -/
def scanValidLines (fn : σ → Nat → Bytes → σ × Bool) (acc : σ) (content : Bytes) : σ :=
  Scan.loop fn content { line := [], consumed := 0, valid := 0, overlong := false, acc := acc }

/-- The valid lines of a playlist file, as a scan that never stops collects
them. -/
def validLines (content : Bytes) : List Bytes :=
  scanValidLines (fun lines _ p => (lines ++ [p], true)) [] content

/-- Feed a list of items to a callback until it asks to stop. -/
def visit (fn : σ → Nat → Bytes → σ × Bool) : σ → Nat → List Bytes → σ
  | acc, _, [] => acc
  | acc, valid, p :: items =>
    let (acc, cont) := fn acc valid p
    if cont then visit fn acc (valid + 1) items else acc

/-- The item of a last line without a newline. -/
private def lastItem (line : Bytes) (valid : Nat) (overlong : Bool) : List Bytes :=
  if ¬ overlong ∧ valid < MAX_ITEMS then
    match PlaylistParse.clean_line line with
    | [] => []
    | c :: p => [c :: p]
  else []

/-- The items a scan still delivers from a point of the file on, if never
stopped. -/
private def items : Bytes → Bytes → Nat → Nat → Bool → List Bytes
  | [], line, _, valid, overlong => lastItem line valid overlong
  | c :: rest, line, consumed, valid, overlong =>
    if consumed < MAX_PLAYLIST_FILE ∧ valid < MAX_ITEMS then
      if c = 10 then
        if overlong then items rest [] (consumed + 1) valid false
        else
          match PlaylistParse.clean_line line with
          | [] => items rest [] (consumed + 1) valid false
          | c :: p => (c :: p) :: items rest [] (consumed + 1) (valid + 1) false
      else if line.length < MAX_LINE then items rest (line ++ [c]) (consumed + 1) valid overlong
      else items rest line (consumed + 1) valid true
    else lastItem line valid overlong

private theorem tail_eq_visit (fn : σ → Nat → Bytes → σ × Bool) (s : Scan σ) :
    s.tail fn = visit fn s.acc s.valid (lastItem s.line s.valid s.overlong) := by
  unfold Scan.tail Scan.flush lastItem
  by_cases hlast : ¬ s.overlong ∧ s.valid < MAX_ITEMS
  · rw [if_pos hlast, if_pos hlast]
    cases PlaylistParse.clean_line s.line with
    | nil => rfl
    | cons c p => simp [visit]
  · rw [if_neg hlast, if_neg hlast]
    rfl

/-- The loop hands its callback the items of the rest of the file, numbered
from the count it has reached. -/
private theorem loop_eq_visit (fn : σ → Nat → Bytes → σ × Bool) (content : Bytes) (s : Scan σ) :
    s.loop fn content =
      visit fn s.acc s.valid (items content s.line s.consumed s.valid s.overlong) := by
  induction content generalizing s with
  | nil => exact tail_eq_visit fn s
  | cons c rest ih =>
    rw [Scan.loop, items]
    by_cases hroom : s.consumed < MAX_PLAYLIST_FILE ∧ s.valid < MAX_ITEMS
    · rw [if_pos hroom, if_pos hroom]
      by_cases hnewline : c = 10
      · rw [if_pos hnewline, if_pos hnewline]
        by_cases hlong : s.overlong
        · rw [if_pos hlong, if_pos hlong, ih]
        · rw [if_neg hlong, if_neg hlong]
          unfold Scan.flush
          cases PlaylistParse.clean_line s.line with
          | nil => exact ih _
          | cons first path =>
            simp only [visit]
            cases (fn s.acc s.valid (first :: path)).2 with
            | false => simp
            | true => simpa using ih _
      · rw [if_neg hnewline, if_neg hnewline]
        by_cases hfits : s.line.length < MAX_LINE
        · rw [if_pos hfits, if_pos hfits, ih]
        · rw [if_neg hfits, if_neg hfits, ih]
    · rw [if_neg hroom, if_neg hroom]
      exact tail_eq_visit fn s

private theorem visit_collect (lines : List Bytes) (valid : Nat) (rest : List Bytes) :
    visit (fun lines _ p => (lines ++ [p], true)) lines valid rest = lines ++ rest := by
  induction rest generalizing lines valid with
  | nil => simp [visit]
  | cons p rest ih => simp [visit, ih]

/-- A scan hands its callback the valid lines of the file in order, numbered
from zero, until the callback stops it. -/
theorem scanValidLines_eq_visit (fn : σ → Nat → Bytes → σ × Bool) (acc : σ) (content : Bytes) :
    scanValidLines fn acc content = visit fn acc 0 (validLines content) := by
  have hlines : validLines content = items content [] 0 0 false := by
    rw [validLines, scanValidLines, loop_eq_visit, visit_collect]
    rfl
  rw [scanValidLines, loop_eq_visit, hlines]

private theorem items_ne_nil (content line : Bytes) (consumed valid : Nat) (overlong : Bool) :
    [] ∉ items content line consumed valid overlong := by
  have hlast (line : Bytes) (valid : Nat) (overlong : Bool) : [] ∉ lastItem line valid overlong := by
    unfold lastItem
    split
    · split <;> simp
    · simp
  induction content generalizing line consumed valid overlong with
  | nil => exact hlast _ _ _
  | cons c rest ih =>
    rw [items]
    split_ifs
    · exact ih _ _ _ _
    · split
      · exact ih _ _ _ _
      · simpa using ih _ _ _ _
    · exact ih _ _ _ _
    · exact ih _ _ _ _
    · exact hlast _ _ _

/-- No valid line is empty: blank and comment-only lines are not delivered. -/
theorem nil_notMem_validLines (content : Bytes) : [] ∉ validLines content := by
  rw [validLines, scanValidLines, loop_eq_visit, visit_collect]
  exact items_ne_nil _ _ _ _ _

end DuneWeaver
