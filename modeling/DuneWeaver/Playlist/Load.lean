import DuneWeaver.Playlist.Scan

namespace DuneWeaver

/-- `std::swap` of two slots. -/
def swap (order : List Nat) (i j : Nat) : List Nat :=
  (order.set i (order.getD j 0)).set j (order.getD i 0)

/-- The loop of `shuffleOrder` from slot `i` down, with the draws numbered
from `draw` on. -/
def shuffleFrom (esp_random : Nat → UInt32) : Nat → Nat → List Nat → List Nat
  | 0, _, order => order
  | i + 1, draw, order =>
    shuffleFrom esp_random i (draw + 1) (swap order (i + 1) ((esp_random draw).toNat % (i + 2)))

def shuffleOrder (esp_random : Nat → UInt32) (order : List Nat) : List Nat :=
  shuffleFrom esp_random (order.length - 1) 0 order

@[simp] theorem swap_length (order : List Nat) (i j : Nat) : (swap order i j).length = order.length := by
  simp [swap]

@[simp] theorem shuffleOrder_length (esp_random : Nat → UInt32) (order : List Nat) :
    (shuffleOrder esp_random order).length = order.length := by
  suffices h : ∀ i draw order, (shuffleFrom esp_random i draw order).length = order.length from h _ _ _
  intro i
  induction i with
  | zero => intro draw order; rfl
  | succ i ih => intro draw order; rw [shuffleFrom, ih, swap_length]

/-- The SD path of the playlist a name stands for. -/
def playlistFile (env : Env) (name : Bytes) : Bytes :=
  let path := if 47 ∈ name then name else env.settings.folder ++ 47 :: name
  let path := if 46 ∈ path then path else path ++ bytes ".txt"
  if path.head? = some 47 then path else 47 :: path

namespace Tick

/-- Write the current state into the cross-task snapshot. -/
def publish (t : Tick) : Tick :=
  let active : Bool := t.phase ≠ .Off ∧ ¬ t.single
  let here (path : Bytes) : Bytes := if t.index < t.order.length then path else []
  { t with
    pub_active := active
    pub_clearing := t.phase = .RunClear
    pub_quiet := t.in_quiet
    pub_pausing := t.phase = .Pausing
    pub_pause_until_ms := t.pause_until_ms
    pub_pause_total_ms := t.pause_total_ms
    pub_index := if active then t.index else 0
    pub_total := if active then t.order.length else 0
    pub_name := if active then strlcpy 64 t.playlist_name else []
    pub_current := if active then strlcpy 160 (here t.current_path) else []
    -- while a clear is drawing, "up next" is the pattern it prepares for
    pub_next :=
      if active then strlcpy 160 (here (if t.phase = .RunClear then t.current_path else t.next_path))
      else []
    pub_last := if active then strlcpy 160 t.last_pattern else [] }

/-- Release a mid-run hold that Still Sands has placed. -/
def releaseHold (t : Tick) : Tick :=
  if t.quiet_held then { t.emit (.send .cycleStart) with quiet_held := false } else t

/-- End the run: release the hold, flush the live feed, drop the clear feed and
clear what belongs to the run. -/
def finish (env : Env) (t : Tick) : Tick :=
  { t.releaseHold with
    toThetaRho := (t.toThetaRho.flushFeedLive env.state).setClearFeed (-1)
    phase := .Off
    order := []
    playlist_path := []
    current_path := []
    next_path := []
    last_pattern := []
    resolved_index := none
    pending_clear := []
    req_skip := false
    skip_active := false }

/-- The callback of `resolveCurrent`: keep the two wanted lines and go on
until everything wanted is in. -/
def capture (target : Nat) (want_next : Bool) (next_target : Nat) (found : Bytes × Bytes) (vi : Nat)
    (p : Bytes) : (Bytes × Bytes) × Bool :=
  let found :=
    if vi = target then (p, found.2)
    else if want_next ∧ vi = next_target then (found.1, p)
    else found
  (found, found.1 = [] ∨ (want_next ∧ found.2 = []))

/-- Read the pattern paths of the current and the upcoming slot back off the SD
in one scan; `none` for the result `false`, which leaves the object alone. -/
def resolveCurrent (env : Env) (attempt : Nat) (t : Tick) : Option Tick :=
  if t.playlist_path = [] then some { t with next_path := [] }
  else if t.order.length ≤ t.index then none
  else
    match env.read attempt t.playlist_path with
    | none => none
    | some content =>
      let target := t.order.getD t.index 0
      let want_next : Bool := t.index + 1 < t.order.length
      let next_target := t.order.getD (t.index + 1) 0
      let found := scanValidLines (capture target want_next next_target) ([], []) content
      if found.1 = [] then none else some { t with current_path := found.1, next_path := found.2 }

/-- Count the valid lines, draw the order and read the first pattern back. -/
def loadPlaylist (env : Env) (name : Bytes) (t : Tick) : Tick × Bool :=
  match env.read 0 (playlistFile env name) with
  | none => (t, false)
  | some content =>
    let count := scanValidLines (fun count _ _ => (count + 1, true)) 0 content
    if count = 0 then (t, false)
    else
      let order := List.range count
      let t := { t with
        playlist_path := playlistFile env name
        playlist_name := name
        order := if t.runShuffle env ≠ 0 then shuffleOrder env.esp_random order else order
        index := 0
        resolved_index := none
        since_home := 0
        clear_done := false
        pending_clear := [] }
      match t.resolveCurrent env 1 with
      | none => (t, false)
      | some t => ({ t with resolved_index := some t.index }, true)

/-- A synthetic one-item run for a single pattern. -/
def loadSingle (path : Bytes) (t : Tick) : Tick :=
  let path := if path.head? = some 47 then path else 47 :: path
  { t with
    current_path := path
    next_path := []
    playlist_path := []
    order := [0]
    playlist_name := path
    index := 0
    resolved_index := some 0
    since_home := 0
    clear_done := false
    pending_clear := [] }

/-- Advance to the next slot, wrapping and reshuffling in loop mode; `false`
when the run is over. -/
def advanceIndex (env : Env) (t : Tick) : Tick × Bool :=
  let t := { t with index := t.index + 1, clear_done := false }
  if t.order.length ≤ t.index then
    if ¬ t.single ∧ t.runMode env = MODE_LOOP then
      ({ t with
        order := if t.runShuffle env ≠ 0 then shuffleOrder env.esp_random t.order else t.order
        index := 0 }, true)
    else (t.finish env, false)
  else (t, true)

/-- The first rho of a pattern file, from its first 4096 bytes. -/
def firstRho (env : Env) (attempt : Nat) (sdpath : Bytes) : Binary32.Value :=
  match env.read attempt sdpath with
  | none => Binary32.round true 1
  | some content => PlaylistParse.first_rho env.sscanf (content.take 4096)

/-- The clear file for the upcoming pattern; empty for none. -/
def clearFileFor (env : Env) (attempt : Nat) (patternPath : Bytes) (t : Tick) : Bytes :=
  let mode := if t.clear_override ≥ 0 then t.clear_override else env.settings.clear_mode
  let rho := if mode = PlaylistParse.CLEAR_ADAPTIVE then firstRho env attempt patternPath else Binary32.round true 1
  let pick (setting fallback : Bytes) : Bytes := if setting ≠ [] then setting else fallback
  let chosen := match PlaylistParse.choose_clear mode rho (env.esp_random 0) with
    | .FromIn => pick env.settings.clear_in_set env.settings.clear_in
    | .FromOut => pick env.settings.clear_out_set env.settings.clear_out
    | .Sideway => env.settings.clear_side
    | .None => []
  if chosen ≠ [] ∧ env.file_exists chosen then chosen else []

end Tick

/-- The status record of the JSON API. -/
structure RuntimeStatus where
  active : Bool
  clearing : Bool
  quiet : Bool
  index : Int
  total : Int
  pause_remaining : Int
  pause_total : Int
  name : Bytes
  current : Bytes
  next : Bytes
  last : Bytes
  deriving DecidableEq

/-- The snapshot as a reader sees it at time `now`: the pause counts down
between polls. -/
def Published.runtimeStatus (p : Published) (now : UInt32) : RuntimeStatus :=
  let left_ms : Int := (p.pub_pause_until_ms - now).toInt32.toInt
  { active := p.pub_active
    clearing := p.pub_clearing
    quiet := p.pub_quiet
    index := p.pub_index
    total := p.pub_total
    pause_remaining := if p.pub_pausing then (if left_ms > 0 then (left_ms + 999) / 1000 else 0) else -1
    pause_total := if p.pub_pausing then ((p.pub_pause_total_ms + 999) / 1000).toNat else -1
    name := strlcpy 64 p.pub_name
    current := strlcpy 160 p.pub_current
    next := strlcpy 160 p.pub_next
    last := strlcpy 160 p.pub_last }

end DuneWeaver
