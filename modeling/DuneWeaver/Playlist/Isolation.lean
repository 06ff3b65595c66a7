import DuneWeaver.Playlist.Alike
import DuneWeaver.Playlist.QuietHold

namespace DuneWeaver

section Congruence

variable {env : Env} {t u : Tick}

namespace Alike

/-- The LED strip is no business of the run. -/
private theorem ledOff (h : Alike t u) : Alike (t.ledOff env) (u.ledOff env) := by
  have hquiet (v : Tick) : ∃ led sent, v.ledOff env = { v with led_off_active := led, sent := sent } ∧
      sent.filterMap Effect.event = v.events := by
    unfold Tick.ledOff
    dsimp only
    split_ifs
    · exact ⟨_, _, rfl, by simp [Tick.events, Effect.event]⟩
    · exact ⟨_, _, rfl, rfl⟩
  obtain ⟨_, _, hframe, hevents⟩ := hquiet t
  obtain ⟨_, _, hframe', hevents'⟩ := hquiet u
  rw [hframe, hframe']
  exact { h with events := hevents'.trans (h.events.trans hevents.symm) }

private theorem midRunHold (h : Alike t u) : Alike (t.midRunHold env) (u.midRunHold env) := by
  have hplaced := h.emit (.send .feedHold)
  have hanswered := h.emit (.send .cycleStart)
  unfold Tick.midRunHold
  by_cases hplaces : env.holdNow ∧ ¬ t.quiet_held ∧ t.phase = .RunPattern ∧ env.state = .Cycle
  · have hplaces' : env.holdNow ∧ ¬ u.quiet_held ∧ u.phase = .RunPattern ∧ env.state = .Cycle := by
      rw [h.quiet_held, h.phase]
      exact hplaces
    rw [if_pos hplaces, if_pos hplaces']
    exact { hplaced with quiet_held := rfl }
  · have hplaces' : ¬ (env.holdNow ∧ ¬ u.quiet_held ∧ u.phase = .RunPattern ∧ env.state = .Cycle) := by
      rw [h.quiet_held, h.phase]
      exact hplaces
    rw [if_neg hplaces, if_neg hplaces']
    by_cases hanswers : t.quiet_held ∧ ¬ env.holdNow
    · have hanswers' : u.quiet_held ∧ ¬ env.holdNow := by
        rw [h.quiet_held]
        exact hanswers
      rw [if_pos hanswers, if_pos hanswers']
      exact { hanswered with quiet_held := rfl }
    · have hanswers' : ¬ (u.quiet_held ∧ ¬ env.holdNow) := by
        rw [h.quiet_held]
        exact hanswers
      rw [if_neg hanswers, if_neg hanswers']
      exact h

/-- Neither is the boot auto-play, which waits for the phase Off. -/
private theorem autostart (h : Alike t u) (hon : t.phase ≠ .Off) :
    Alike (t.autostart env) (u.autostart env) := by
  have hpassed (v : Tick) (hv : v.phase ≠ .Off) : ∃ auto, v.autostart env = { v with toAutostart := auto } := by
    unfold Tick.autostart
    rw [if_neg fun hidle => hv hidle.2.1]
    split_ifs
    · exact ⟨_, rfl⟩
    · exact ⟨_, rfl⟩
  obtain ⟨_, hframe⟩ := hpassed t hon
  obtain ⟨_, hframe'⟩ := hpassed u (h.phase ▸ hon)
  rw [hframe, hframe']
  exact { h with }

/-- Inside a run the prelude keeps two ticks alike. -/
theorem prelude (h : Alike t u) (hon : t.phase ≠ .Off) : Alike (t.prelude env) (u.prelude env) := by
  have hheld : Alike ((t.ledOff env).midRunHold env) ((u.ledOff env).midRunHold env) := h.ledOff.midRunHold
  have hphase : ((t.ledOff env).midRunHold env).phase = t.phase := by
    unfold Tick.midRunHold Tick.ledOff
    dsimp only
    split_ifs <;> rfl
  exact hheld.autostart (hphase ▸ hon)

/-- So does a consumed stop, and what it publishes reads the same. -/
theorem consumeStop (h : Alike t u) : Alike (t.consumeStop env) (u.consumeStop env) ∧
    ∀ now, (u.consumeStop env).runtimeStatus now = (t.consumeStop env).runtimeStatus now := by
  have hcleared : Alike { t with req_stop := false, req_skip := false }
      { u with req_stop := false, req_skip := false } :=
    { h with
      requests := congrArg (fun r : Requests => { r with req_stop := false, req_skip := false }) h.requests }
  unfold Tick.consumeStop
  by_cases hon : t.phase ≠ .Off
  · have hon' : u.phase ≠ .Off := h.phase ▸ hon
    dsimp only
    rw [if_pos hon, if_pos hon']
    exact hcleared.finish.stopJob.publish
  · have hoff' : ¬ u.phase ≠ .Off := h.phase ▸ hon
    dsimp only
    rw [if_neg hon, if_neg hoff']
    exact hcleared.publish

end Alike

end Congruence

/-- What loading a playlist draws and reads back: a function of the card, the
draws and the shuffle setting of the run. -/
def loadedRun (env : Env) (name : Bytes) (shuffle : Int) : Option (List Nat × Bytes × Bytes) :=
  match env.read 0 (playlistFile env name) with
  | none => none
  | some content =>
    let count := scanValidLines (fun count _ _ => (count + 1, true)) 0 content
    if count = 0 then none
    else
      let order := if shuffle ≠ 0 then shuffleOrder env.esp_random (List.range count) else List.range count
      (resolvedPaths env 1 (playlistFile env name) order 0 []).map (order, ·)

theorem playlistFile_ne_nil (env : Env) (name : Bytes) : playlistFile env name ≠ [] := by
  have hrooted (path : Bytes) : (if path.head? = some 47 then path else 47 :: path) ≠ [] := by
    split_ifs with habsolute
    · rintro rfl
      cases habsolute
    · exact List.cons_ne_nil _ _
  exact hrooted _

/-- Loading succeeds exactly when there is something to load, and then leaves
nothing of the cursor as it was but the last pattern. -/
theorem Tick.loadPlaylist_eq (env : Env) (name : Bytes) (t : Tick) :
    match loadedRun env name (t.runShuffle env) with
    | none => (t.loadPlaylist env name).2 = false
    | some (order, current_path, next_path) => t.loadPlaylist env name =
        ({ t with
          playlist_path := playlistFile env name, playlist_name := name, order := order, index := 0
          resolved_index := some 0, since_home := 0, clear_done := false, pending_clear := []
          current_path := current_path, next_path := next_path }, true) := by
  have hpaths (order : List Nat) (current_path : Bytes) :
      resolvedPaths env 1 (playlistFile env name) order 0 current_path =
        resolvedPaths env 1 (playlistFile env name) order 0 [] := by
    unfold resolvedPaths
    rw [if_neg (playlistFile_ne_nil env name), if_neg (playlistFile_ne_nil env name)]
  unfold loadedRun loadPlaylist
  cases env.read 0 (playlistFile env name) with
  | none => rfl
  | some content =>
    dsimp only
    by_cases hempty : scanValidLines (fun count _ _ => (count + 1, true)) 0 content = 0
    · rw [if_pos hempty, if_pos hempty]
    · rw [if_neg hempty, if_neg hempty, Tick.resolveCurrent_eq_paths]
      dsimp only [Tick.runShuffle]
      rw [hpaths _ t.current_path]
      cases resolvedPaths env 1 (playlistFile env name) _ 0 [] with
      | none => rfl
      | some found => rfl

/-- Where the run a request stands for starts, if it can be loaded. -/
def Requests.start (env : Env) (r : Requests) : Option Cursor :=
  if r.req_single then
    let path := if r.req_name.head? = some 47 then r.req_name else 47 :: r.req_name
    some { order := [0], resolved_index := some 0, playlist_name := path, current_path := path }
  else
    let shuffle := if r.req_ov_shuffle ≥ 0 then r.req_ov_shuffle else env.settings.shuffle
    (loadedRun env r.req_name shuffle).map fun (order, current_path, next_path) =>
      { order := order, resolved_index := some 0, playlist_path := playlistFile env r.req_name
        playlist_name := r.req_name, current_path := current_path, next_path := next_path }

/-- A consumed request ends the old run and starts the new one from the request
alone, the last pattern apart. -/
theorem Tick.consumeRun_eq (env : Env) (t : Tick) :
    match t.toRequests.start env with
    | none => (t.consumeRun env).phase = .Off
    | some cursor => t.consumeRun env =
        { t.takeRequest env with
          toCursor := { cursor with last_pattern := t.last_pattern }, since_home := 0
          phase := .NextItem } := by
  have hname : (t.takeRequest env).req_name = t.req_name := by rw [takeRequest_eq]
  have hshuffle : (t.takeRequest env).runShuffle env =
      if t.req_ov_shuffle ≥ 0 then t.req_ov_shuffle else env.settings.shuffle := by
    rw [takeRequest_eq]
    rfl
  have hlast : (t.takeRequest env).last_pattern = t.last_pattern := by rw [takeRequest_eq]
  have hsingle : (t.takeRequest env).single = t.req_single := by rw [takeRequest_eq]
  have hload := Tick.loadPlaylist_eq env t.req_name (t.takeRequest env)
  rw [hshuffle] at hload
  unfold Requests.start consumeRun
  dsimp only
  rw [hname, hsingle]
  by_cases hs : t.req_single
  · rw [if_pos hs, if_pos hs]
    dsimp only
    rw [← hlast]
    rfl
  · rw [if_neg hs, if_neg hs]
    generalize loadedRun env t.req_name _ = loaded at hload ⊢
    cases loaded with
    | none =>
      generalize (t.takeRequest env).loadPlaylist env t.req_name = started at hload
      obtain ⟨u, ok⟩ := started
      dsimp only at hload
      rw [hload]
      rfl
    | some found =>
      dsimp only at hload
      rw [hload, ← hlast]
      rfl

/-- Without clear files on the card an item is its pattern. -/
theorem Tick.injectItem_bare {env : Env} (t : Tick) (hclear : ∀ path, env.file_exists path = false) :
    ∃ line, (t.injectItem env).injected = some line ∧ (t.injectItem env).clear_feed = t.clear_feed := by
  have hnone : t.clearFileFor env 1 t.current_path = [] := by
    unfold clearFileFor
    dsimp only
    rw [hclear, if_neg fun hfound => Bool.false_ne_true hfound.2]
  unfold injectItem
  dsimp only
  rw [hnone, if_neg (not_not.mpr (rfl : ([] : Bytes) = []))]
  split_ifs
  · exact ⟨_, rfl, rfl⟩
  · exact ⟨_, rfl, rfl⟩

/-- Between two calls nothing has been sent and no line is on its way. -/
def Playlist.AlikeState (p q : Playlist) : Prop := Alike { toPlaylist := p } { toPlaylist := q }

theorem Alike.toState {t u : Tick} (h : Alike t u) : t.toPlaylist.AlikeState u.toPlaylist :=
  { h with events := rfl, injected := rfl }

/-- What a poll lets the outside see of its run: the line it hands over with the
clear feed then armed, the events it posts, and the snapshot if it writes one. -/
structure Observed where
  line : Option (Bytes × Int)
  events : List Event
  status : Option (UInt32 → RuntimeStatus)

def Tick.observed (t : Tick) : Observed :=
  { line := t.injected.map (·, t.clear_feed)
    events := t.events
    status := if t.injected = none then some t.runtimeStatus else none }

namespace Playlist

/-- What is seen of the run in progress: from the first poll that finds the
table idle and the old job gone, until the run has ended or another request
replaces it. -/
def runTrace (seen : Bool) (p : Playlist) : List Action → List Observed
  | [] => []
  | .request r :: actions => (p.request r).runTrace seen actions
  | .poll env :: actions =>
    if p.TakesRun env then []
    else
      let t := pollLine env p
      let seen := seen || (env.state = .Idle && !env.job_active)
      (if seen then [t.observed] else []) ++
        if t.phase = .Off then [] else t.toPlaylist.runTrace seen actions

/-- What is seen of the run that the request consumed by this poll starts. -/
def newRunTrace (env : Env) (p : Playlist) (actions : List Action) : List Observed :=
  let t := pollLine env p
  if t.phase = .Off then [] else t.toPlaylist.runTrace false actions

/-- The object at boot, with the same request waiting. -/
def rebooted (env : Env) (p : Playlist) : Playlist :=
  { boot p.feed_setting with toRequests := { (p.begun env).toRequests with req_skip := false } }

/-- The interrupted run has left nothing behind: no skip, no clear feed, no hold
and no quiet hours, and for a playlist no last pattern to be shown and no
override. -/
structure NoLeftovers (env : Env) (p : Playlist) : Prop where
  skip : (p.begun env).req_skip = false
  clear_feed : p.clear_feed = -1
  held : (p.begun env).quiet_held = false
  in_quiet : p.in_quiet = false
  last_pattern : (p.begun env).req_single = false → strlcpy 160 p.last_pattern = []
  quiet_override : (p.begun env).req_single = false → p.quiet_override = false

variable {p q : Playlist} {env : Env}

/-- A handler looks at the phase and at the requests that wait. -/
private theorem request_toRequests (p : Playlist) (r : Request) : (p.request r).toRequests =
    (Playlist.request { toRequests := p.toRequests, phase := p.phase } r).toRequests := by
  cases r <;>
    simp only [Playlist.request, Playlist.requestRun, Playlist.requestSingle, Playlist.requestStop,
      Playlist.stopActive, Playlist.requestSkip] <;>
    (repeat' split) <;> rfl

theorem AlikeState.request (h : AlikeState p q) (r : Request) : AlikeState (p.request r) (q.request r) := by
  have hphase : q.phase = p.phase := h.phase
  have hrequests : q.toRequests = p.toRequests := h.requests
  have hstaged : (q.request r).toRequests = (p.request r).toRequests := by
    rw [request_toRequests q, request_toRequests p, hphase, hrequests]
  rw [p.request_eq r, q.request_eq r]
  exact { h with requests := hstaged }

/-- Two objects alike consume the same requests. -/
theorem AlikeState.takesRun_iff (h : AlikeState p q) (hon : p.phase ≠ .Off) :
    q.TakesRun env ↔ p.TakesRun env := by
  have hbegun : Alike (p.begun env) (q.begun env) := h.prelude hon
  have hrun : (q.begun env).req_run = (p.begun env).req_run := congrArg Requests.req_run hbegun.requests
  have hstop : (q.begun env).req_stop = (p.begun env).req_stop :=
    congrArg Requests.req_stop hbegun.requests
  unfold TakesRun
  rw [hrun, hstop]

/-- A call inside a run, that starts no other run, keeps two objects alike, and
what is seen of it is the same. -/
theorem AlikeState.poll (h : AlikeState p q) (hon : p.phase ≠ .Off) (hrun : ¬ p.TakesRun env) :
    AlikeState (pollLine env p).toPlaylist (pollLine env q).toPlaylist ∧
      (pollLine env q).observed = (pollLine env p).observed := by
  have hbegun : Alike (p.begun env) (q.begun env) := h.prelude hon
  have hstarts : (p.begun env).phase ≠ .Off := (Tick.prelude_phase env _).symm ▸ hon
  suffices hpoll : Alike (pollLine env p) (pollLine env q) ∧ ((pollLine env p).injected = none →
      ∀ now, (pollLine env q).runtimeStatus now = (pollLine env p).runtimeStatus now) by
    obtain ⟨halike, hstatus⟩ := hpoll
    refine ⟨halike.toState, ?_⟩
    unfold Tick.observed
    rw [halike.injected, halike.clear_feed, halike.events]
    by_cases hline : (pollLine env p).injected = none
    · rw [if_pos hline, if_pos hline, funext (hstatus hline)]
    · rw [if_neg hline, if_neg hline]
  have hnotOff (t : Tick) (ht : t.phase ≠ .Off) : ¬ (t.phase = .Off ∧ ¬ t.req_run ∧ ¬ t.req_stop) :=
    fun hidle => ht hidle.1
  rw [pollLine_eq, pollLine_eq]
  unfold Tick.dispatch
  rw [if_neg (hnotOff _ hstarts), if_neg (hnotOff _ (hbegun.phase ▸ hstarts))]
  have hrequests := hbegun.requests
  by_cases hstop : (p.begun env).req_stop
  · have hstop' : (q.begun env).req_stop := (congrArg Requests.req_stop hrequests).trans hstop
    rw [if_pos hstop, if_pos hstop']
    obtain ⟨halike, hstatus⟩ := @Alike.consumeStop env _ _ hbegun
    exact ⟨halike, fun _ => hstatus⟩
  · have hstop' : ¬ (q.begun env).req_stop := fun h => hstop ((congrArg Requests.req_stop hrequests).symm.trans h)
    have hnoRun : ¬ (p.begun env).req_run := fun hstart => hrun ⟨hstart, hstop⟩
    have hnoRun' : ¬ (q.begun env).req_run := fun h => hnoRun ((congrArg Requests.req_run hrequests).symm.trans h)
    rw [if_neg hstop, if_neg hstop', if_neg hnoRun, if_neg hnoRun']
    dsimp only
    have hstep := @Alike.phaseStep env _ _ hbegun
    rw [hstep.injected]
    by_cases hline : ((p.begun env).phaseStep env).injected = none
    · rw [if_pos hline, if_pos hline]
      exact ⟨hstep.publish.1, fun _ => hstep.publish.2⟩
    · rw [if_neg hline, if_neg hline]
      exact ⟨hstep, fun hnone => absurd hnone hline⟩

/-- From there on two objects alike let the same be seen. -/
theorem AlikeState.runTrace_eq (h : AlikeState p q) (hon : p.phase ≠ .Off) (seen : Bool)
    (actions : List Action) : p.runTrace seen actions = q.runTrace seen actions := by
  induction actions generalizing p q seen with
  | nil => rfl
  | cons a actions ih =>
    cases a with
    | request r =>
      have hphase : (p.request r).phase = p.phase := by rw [p.request_eq r]
      exact ih (h.request r) (hphase ▸ hon) seen
    | poll env =>
      unfold runTrace
      by_cases hrun : p.TakesRun env
      · rw [if_pos hrun, if_pos ((h.takesRun_iff hon).mpr hrun)]
      · rw [if_neg hrun, if_neg fun hrun' => hrun ((h.takesRun_iff hon).mp hrun')]
        obtain ⟨hnext, hobserved⟩ := h.poll hon hrun
        have hphase : (pollLine env q).phase = (pollLine env p).phase := hnext.phase
        dsimp only
        rw [hobserved, hphase]
        by_cases hoff : (pollLine env p).phase = .Off
        · rw [if_pos hoff, if_pos hoff]
        · rw [if_neg hoff, if_neg hoff, ih hnext hoff]

/-- A call that consumes a run request does nothing else. -/
theorem TakesRun.pollLine_eq (h : p.TakesRun env) : pollLine env p = (p.begun env).consumeRun env := by
  obtain ⟨hrun, hstop⟩ := h
  rw [DuneWeaver.pollLine_eq]
  unfold Tick.dispatch
  rw [if_neg fun hidle => hidle.2.1 hrun, if_neg hstop, if_pos hrun]

/-- The call that consumes a run request leaves the machine Off, or at the start
of the run the request stands for. -/
theorem TakesRun.started (h : p.TakesRun env) :
    ((p.begun env).toRequests.start env = none ∧ (pollLine env p).phase = .Off) ∨
    ∃ cursor, (p.begun env).toRequests.start env = some cursor ∧
      pollLine env p = { (p.begun env).takeRequest env with
        toCursor := { cursor with last_pattern := p.last_pattern }, since_home := 0
        phase := .NextItem } := by
  have hconsumed := (p.begun env).consumeRun_eq env
  have hlast : (p.begun env).last_pattern = p.last_pattern :=
    congrArg Cursor.last_pattern (Tick.prelude_toCursor env _)
  rw [h.pollLine_eq, ← hlast]
  cases hstart : (p.begun env).toRequests.start env with
  | none =>
    rw [hstart] at hconsumed
    exact .inl ⟨rfl, hconsumed⟩
  | some cursor =>
    rw [hstart] at hconsumed
    exact .inr ⟨cursor, rfl, hconsumed⟩

/-- The prelude stages a request only for a machine that is Off with none
waiting. -/
theorem prelude_toRequests {t : Tick} (h : t.phase ≠ .Off ∨ t.req_run = true) :
    (t.prelude env).toRequests = t.toRequests := by
  have hframe : ((t.ledOff env).midRunHold env).toRequests = t.toRequests ∧
      ((t.ledOff env).midRunHold env).phase = t.phase := by
    unfold Tick.midRunHold Tick.ledOff
    dsimp only
    split_ifs <;> exact ⟨rfl, rfl⟩
  obtain ⟨hrequests, hphase⟩ := hframe
  unfold Tick.prelude
  generalize (t.ledOff env).midRunHold env = v at hrequests hphase
  rw [← hrequests]
  have hbusy : ¬ (v.autostart_pending ∧ v.phase = .Off ∧ ¬ v.req_run ∧ ¬ v.req_stop ∧ env.state = .Idle) := by
    rintro ⟨_, hoff, hrun, _⟩
    rcases h with hon | hwaits
    · exact hon (hphase.symm.trans hoff)
    · exact hrun ((congrArg Requests.req_run hrequests).trans hwaits)
  unfold Tick.autostart
  rw [if_neg hbusy]
  split_ifs <;> rfl

/-- The rebooted object consumes the same request. -/
theorem TakesRun.rebooted (h : p.TakesRun env) :
    (p.rebooted env).TakesRun env ∧
      ((p.rebooted env).begun env).toRequests = { (p.begun env).toRequests with req_skip := false } ∧
      ((p.rebooted env).begun env).quiet_held = false := by
  have hrequests : ((p.rebooted env).begun env).toRequests =
      { (p.begun env).toRequests with req_skip := false } := prelude_toRequests (.inr h.1)
  refine ⟨⟨?_, ?_⟩, hrequests, ?_⟩
  · exact (congrArg Requests.req_run hrequests).trans h.1
  · exact fun hstop => h.2 ((congrArg Requests.req_stop hrequests).symm.trans hstop)
  · refine eq_false_of_ne_true fun hheld => ?_
    obtain ⟨_, hleft | ⟨hdrawing, _⟩⟩ := (begun_held_iff env _).mp hheld
    · exact absurd hleft (by decide : (false : Bool) ≠ true)
    · exact absurd hdrawing (by decide : Phase.Off ≠ .RunPattern)

/-- Two requests that differ in the skip at most stand for the same run. -/
private theorem start_skip (r : Requests) (skip : Bool) :
    Requests.start env { r with req_skip := skip } = r.start env := rfl

theorem TakesRun.runLoads_iff (h : p.TakesRun env) :
    p.RunLoads env ↔ (pollLine env p).phase ≠ .Off := by
  rw [h.pollLine_eq]
  unfold RunLoads
  obtain ⟨hsingle, hconsumed⟩ | ⟨hsingle, hok, hconsumed⟩ | ⟨hsingle, hok, hconsumed⟩ :=
    Tick.consumeRun_cases env (p.begun env)
  · rw [hconsumed]
    exact iff_of_true (.inl hsingle) (by decide : Phase.NextItem ≠ .Off)
  · rw [hconsumed]
    exact iff_of_true (.inr hok) (by decide : Phase.NextItem ≠ .Off)
  · rw [hconsumed, Tick.finish_phase]
    exact iff_of_false (by simp [hsingle, hok]) (not_not.mpr rfl)

/-- A run that finds nothing left over starts as it would after a reboot. -/
theorem NoLeftovers.alike (hclean : p.NoLeftovers env) (htakes : p.TakesRun env)
    (hon : (pollLine env p).phase ≠ .Off) :
    AlikeState (pollLine env p).toPlaylist (pollLine env (p.rebooted env)).toPlaylist := by
  obtain ⟨htakes', hrequests, hheld⟩ := htakes.rebooted
  obtain ⟨_, hoff⟩ | ⟨cursor, hstart, hstarted⟩ := htakes.started
  · exact absurd hoff hon
  obtain ⟨hstart', _⟩ | ⟨cursor', hstart', hstarted'⟩ := htakes'.started
  · rw [hrequests, start_skip, hstart] at hstart'
    cases hstart'
  rw [hrequests, start_skip, hstart] at hstart'
  cases hstart'
  rw [hstarted, hstarted', Tick.takeRequest_eq, Tick.takeRequest_eq, hrequests]
  have hfeed : (p.begun env).clear_feed = -1 :=
    (congrArg ThetaRho.clear_feed (Tick.prelude_toThetaRho env _)).trans hclean.clear_feed
  have hfeed' : ((p.rebooted env).begun env).clear_feed = -1 :=
    congrArg ThetaRho.clear_feed (Tick.prelude_toThetaRho env _)
  have hquiet : (p.begun env).in_quiet = false := (Tick.prelude_in_quiet env _).trans hclean.in_quiet
  have hquiet' : ((p.rebooted env).begun env).in_quiet = false := Tick.prelude_in_quiet env _
  have hoverride' : ((p.rebooted env).begun env).quiet_override = false := Tick.prelude_quiet_override env _
  have hskip : { (p.begun env).toRequests with req_skip := false } = (p.begun env).toRequests := by
    rw [← hclean.skip]
  have hoff {A : Prop} {phase : Phase} (hnext : Phase.NextItem = phase) (hother : phase ≠ .NextItem) : A :=
    absurd hnext.symm hother
  exact
    { phase := rfl
      requests := congrArg (fun r : Requests => { r with req_run := false, req_no_abort := false }) hskip
      params := rfl
      order := rfl
      index := rfl
      resolved_index := rfl
      playlist_path := rfl
      playlist_name := rfl
      current_path := rfl
      next_path := rfl
      last_pattern := fun hplaylist => (strlcpy_nil 160).trans (hclean.last_pattern hplaylist).symm
      pending_clear := rfl
      clear_done := rfl
      clear_feed := hfeed'.trans hfeed.symm
      consec_fail := rfl
      skip_active := rfl
      since_home := rfl
      quiet_held := hheld.trans hclean.held.symm
      in_quiet := hquiet'.trans hquiet.symm
      quiet_override := fun hplaylist => hoverride'.trans
        ((Tick.prelude_quiet_override env _).trans (hclean.quiet_override hplaylist)).symm
      watched := fun hphase => by simp at hphase
      drawn := fun hphase => hoff hphase (by decide)
      paused := fun hphase => hoff hphase (by decide)
      events := rfl
      injected := rfl }

/-- A run that has just been started, and has not been polled since. -/
structure Fresh (q : Playlist) : Prop where
  phase : q.phase = .NextItem
  run : q.req_run = false
  stop : q.req_stop = false
  cached : q.resolved_index = some q.index

theorem TakesRun.fresh (h : p.TakesRun env) (hon : (pollLine env p).phase ≠ .Off) :
    (pollLine env p).Fresh ∧ (pollLine env p).single = (p.begun env).req_single ∧
      (pollLine env p).req_skip = (p.begun env).req_skip ∧
      (pollLine env p).clear_feed = p.clear_feed ∧
      (pollLine env p).quiet_held = (p.begun env).quiet_held ∧
      (pollLine env p).in_quiet = p.in_quiet ∧ (pollLine env p).quiet_override = p.quiet_override ∧
      (pollLine env p).last_pattern = p.last_pattern := by
  have hfeed : (p.begun env).clear_feed = p.clear_feed :=
    congrArg ThetaRho.clear_feed (Tick.prelude_toThetaRho env _)
  have hquiet : (p.begun env).in_quiet = p.in_quiet := Tick.prelude_in_quiet env _
  have hoverride : (p.begun env).quiet_override = p.quiet_override := Tick.prelude_quiet_override env _
  obtain ⟨_, hoff⟩ | ⟨cursor, hstart, hstarted⟩ := h.started
  · exact absurd hoff hon
  have hcached : cursor.resolved_index = some cursor.index := by
    unfold Requests.start at hstart
    by_cases hsingle : (p.begun env).req_single
    · rw [if_pos hsingle] at hstart
      cases hstart
      rfl
    · rw [if_neg hsingle] at hstart
      obtain ⟨_, _, rfl⟩ := Option.map_eq_some_iff.mp hstart
      rfl
  rw [hstarted, Tick.takeRequest_eq]
  exact ⟨⟨rfl, rfl, eq_false_of_ne_true h.2, hcached⟩, rfl, rfl, hfeed, rfl, hquiet, hoverride, rfl⟩

namespace Fresh

/-- In a run the prelude stages no request. -/
theorem begun_requests (h : q.Fresh) : (q.begun env).toRequests = q.toRequests :=
  prelude_toRequests (.inl (by simp [h.phase]))

theorem not_takesRun (h : q.Fresh) : ¬ q.TakesRun env := fun htakes =>
  absurd ((congrArg Requests.req_run h.begun_requests).symm.trans htakes.1) (by simp [h.run])

theorem runTrace_poll (h : q.Fresh) (hidle : env.state = .Idle) (hjob : env.job_active = false) :
    q.runTrace false [.poll env] = [(pollLine env q).observed] := by
  unfold runTrace
  rw [if_neg h.not_takesRun]
  simp [hidle, hjob, runTrace]

/-- The first call of a fresh run goes to `NextItem`. -/
theorem pollLine_eq (h : q.Fresh) : pollLine env q =
    if ((q.begun env).nextItem env).injected = none then ((q.begun env).nextItem env).publish
    else (q.begun env).nextItem env := by
  have hphase : (q.begun env).phase = .NextItem := (Tick.prelude_phase env _).trans h.phase
  have hstop : (q.begun env).req_stop = false := (congrArg Requests.req_stop h.begun_requests).trans h.stop
  have hrun : (q.begun env).req_run = false := (congrArg Requests.req_run h.begun_requests).trans h.run
  rw [DuneWeaver.pollLine_eq]
  unfold Tick.dispatch Tick.phaseStep
  rw [if_neg fun hidle => absurd (hphase.symm.trans hidle.1) (by decide), if_neg (by simp [hstop]),
    if_neg (by simp [hrun]), hphase]

/-- It hands over its first line as soon as the gate is open and the table is
free. -/
theorem injects (h : q.Fresh) {v : Tick} (hgate : (q.begun env).quietGate env = (v, true))
    (hready : Tick.Ready env v) (hhome : env.settings.auto_home ≤ 0)
    (hclear : ∀ path, env.file_exists path = false) :
    ∃ line, (pollLine env q).observed.line = some (line, q.clear_feed) := by
  have hcached : (q.begun env).resolved_index = some (q.begun env).index := by
    have hcursor : (q.begun env).toCursor = q.toCursor := Tick.prelude_toCursor env _
    rw [hcursor]
    exact h.cached
  have hfeed : (q.begun env).clear_feed = q.clear_feed :=
    congrArg ThetaRho.clear_feed (Tick.prelude_toThetaRho env _)
  have hstep : (q.begun env).nextItem env = v.injectItem env := by
    unfold Tick.nextItem
    rw [if_neg (by simp [hready.idle, inAlarmState]), hgate]
    dsimp only
    rw [if_neg (ne_true_of_eq_false hready.skip), if_neg (by simp [hready.line, hready.idle, hready.job]),
      if_neg fun hhomes => absurd hhomes.2.1 (by omega)]
    obtain ⟨_, _, _, rfl⟩ := Tick.quietGate_frame hgate
    unfold Tick.playItem
    exact if_neg (not_not.mpr hcached)
  obtain ⟨line, hline, hsame⟩ := v.injectItem_bare hclear
  have hv : v.clear_feed = q.clear_feed := by
    obtain ⟨_, _, _, rfl⟩ := Tick.quietGate_frame hgate
    exact hfeed
  rw [h.pollLine_eq, hstep, if_neg (by simp [hline])]
  refine ⟨line, ?_⟩
  unfold Tick.observed
  rw [hline, hsame, hv]
  rfl

/-- Without a buffer for the line it waits, and shows the last pattern. -/
theorem shows_last (h : q.Fresh) (hplaylist : q.single = false) (hskip : q.req_skip = false) :
    ∃ status, (pollLine {} q).observed.status = some status ∧
      ∀ now, (status now).last = strlcpy 160 q.last_pattern := by
  have hnone : (q.begun {}).injected = none := Tick.prelude_injected {} _
  have hnoSkip : (q.begun {}).req_skip = false :=
    (congrArg Requests.req_skip h.begun_requests).trans hskip
  have hstays : ∃ v : Tick, (q.begun {}).nextItem {} = v ∧ v.injected = none ∧ v.single = false ∧
      v.phase = .NextItem ∧ v.last_pattern = q.last_pattern := by
    have hsingle : (q.begun {}).single = false :=
      (congrArg RunParams.single (Tick.prelude_toRunParams {} _)).trans hplaylist
    have hphase : (q.begun {}).phase = .NextItem := (Tick.prelude_phase {} _).trans h.phase
    have hlast : (q.begun {}).last_pattern = q.last_pattern :=
      congrArg Cursor.last_pattern (Tick.prelude_toCursor {} _)
    unfold Tick.nextItem
    rw [if_neg (by decide)]
    obtain ⟨_, hnow, _⟩ | ⟨_, hnow, _⟩ | ⟨_, _, hgate⟩ | ⟨_, _, hgate⟩ :=
      Tick.quietGate_cases {} (q.begun {})
    · exact absurd hnow (by decide)
    · exact absurd hnow (by decide)
    all_goals
      rw [hgate]
      dsimp only
      rw [if_neg (ne_true_of_eq_false hnoSkip), if_pos (.inl (by decide))]
      exact ⟨_, rfl, hnone, hsingle, hphase, hlast⟩
  obtain ⟨v, hnext, hnoLine, hsingle, hphase, hlast⟩ := hstays
  rw [h.pollLine_eq, hnext, if_pos hnoLine]
  unfold Tick.observed
  rw [if_pos (show v.publish.injected = none from hnoLine)]
  refine ⟨_, rfl, fun now => ?_⟩
  simp [Published.runtimeStatus, Tick.publish, hsingle, hphase, hlast]

/-- A stop shows whether the machine stood in quiet hours. -/
theorem shows_quiet (h : q.Fresh) : ∃ o status, q.runTrace false [.request .stop, .poll {}] = [o] ∧
    o.status = some status ∧ ∀ now, (status now).quiet = q.in_quiet := by
  have hstaged : q.request .stop = { q with req_run := false, req_stop := true } := by
    unfold Playlist.request requestStop
    exact congrArg Prod.snd (if_neg fun hidle => absurd (h.phase.symm.trans hidle.1) (by decide))
  have hstop : ((q.request .stop).begun {}).req_stop = true := by
    have hrequests : ((q.request .stop).begun {}).toRequests = (q.request .stop).toRequests := by
      refine prelude_toRequests (.inl ?_)
      rw [hstaged]
      simp [h.phase]
    rw [hrequests, hstaged]
  have hquiet : ((q.request .stop).begun {}).in_quiet = q.in_quiet := by
    refine (Tick.prelude_in_quiet {} _).trans ?_
    rw [hstaged]
  have hpoll : pollLine {} (q.request .stop) = ((q.request .stop).begun {}).consumeStop {} := by
    rw [DuneWeaver.pollLine_eq]
    unfold Tick.dispatch
    rw [if_neg fun hidle => hidle.2.2 hstop, if_pos hstop]
  have hnone : (pollLine {} (q.request .stop)).injected = none := by
    rw [hpoll, Tick.consumeStop_injected]
    exact Tick.prelude_injected {} _
  refine ⟨(pollLine {} (q.request .stop)).observed,
    (pollLine {} (q.request .stop)).runtimeStatus, ?_, if_pos hnone, fun now => ?_⟩
  · unfold runTrace runTrace
    rw [if_neg fun htakes => htakes.2 hstop]
    simp [runTrace]
  · rw [hpoll, ← hquiet]
    unfold Tick.consumeStop
    dsimp only
    split_ifs
    · simp [Published.runtimeStatus, Tick.publish]
    · rfl

/-- A hold that is left over is answered at once. -/
theorem shows_held (q : Playlist) :
    .cycleStart ∈ (pollLine {} q).observed.events ↔ q.quiet_held = true := by
  have hsent : .cycleStart ∈ (pollLine {} q).observed.events ↔
      .send .cycleStart ∈ (pollLine {} q).sent := by
    unfold Tick.observed Tick.events
    constructor
    · intro hposted
      obtain ⟨effect, hmem, hevent⟩ := List.mem_filterMap.mp hposted
      cases effect with
      | send event => cases hevent; exact hmem
      | start_home => cases hevent
      | set_quiet_off off => cases hevent
    · exact fun hmem => List.mem_filterMap.mpr ⟨_, hmem, rfl⟩
  have hnow : Env.holdNow {} = false := by decide
  obtain ⟨before, move, after, held, hbefore, hmove, hafter, hbegun, hheld⟩ := begun_move {} q
  have hfree : (q.begun {}).quiet_held = false :=
    eq_false_of_ne_true fun hleft => absurd ((begun_held_iff {} q).mp hleft).1 (by decide)
  have hmem : .send .cycleStart ∈ (pollLine {} q).sent ↔ .send .cycleStart ∈ move := by
    rw [DuneWeaver.pollLine_eq]
    obtain ⟨extra, hextra, hadded, _⟩ | ⟨pre, post, hpre, hpost, _, _, hadded⟩ :=
      dispatch_move {} (q.begun {})
    · rw [hadded, hbegun]
      simp [hbefore.2, hafter.2, hextra.2]
    · rw [hadded, hbegun, hfree]
      simp [hbefore.2, hafter.2, hpre.2, hpost.2]
  rw [hsent, hmem]
  cases hmove with
  | placed hplaces => exact absurd hplaces.1 (by decide)
  | answered hanswers => simp [hanswers.1]
  | kept _ hanswers => simp [Playlist.AnswersHold, hnow] at hanswers; simp [hanswers]

/-- A table ready to take the next line, without clear files on its card. -/
private def readyTable (quiet : Bool) : Env where
  line := true
  settings := { sands_enabled := quiet }
  quiet_slot := quiet
  file_exists := fun _ => false

private theorem readyTable_ready (quiet : Bool) {t : Tick} (hskip : t.req_skip = false) :
    Tick.Ready (readyTable quiet) t := ⟨hskip, rfl, rfl, rfl⟩

/-- Outside quiet hours a line goes out exactly when no skip is left over, and
with the clear feed that is left over. -/
theorem injects_iff (h : q.Fresh) :
    (q.req_skip = true → (pollLine (readyTable false) q).observed.line = none) ∧
    (q.req_skip = false →
      ∃ line, (pollLine (readyTable false) q).observed.line = some (line, q.clear_feed)) := by
  have hrequests : (q.begun (readyTable false)).req_skip = q.req_skip :=
    congrArg Requests.req_skip h.begun_requests
  have hopen : ∃ v, (q.begun (readyTable false)).quietGate (readyTable false) = (v, true) ∧
      v.req_skip = q.req_skip := by
    obtain ⟨_, hnow, _⟩ | ⟨_, hnow, _⟩ | ⟨_, _, hgate⟩ | ⟨_, _, hgate⟩ :=
      Tick.quietGate_cases (readyTable false) (q.begun (readyTable false))
    · exact absurd hnow (by decide)
    · exact absurd hnow (by decide)
    · exact ⟨_, hgate, hrequests⟩
    · exact ⟨_, hgate, hrequests⟩
  obtain ⟨v, hgate, hv⟩ := hopen
  constructor
  · intro hskip
    refine Option.map_eq_none_iff.mpr (by_contra fun hline => ?_)
    obtain ⟨_, w, _, hopened, hready, _⟩ := pollLine_injected hline
    cases hopened.gate.symm.trans hgate
    exact absurd (hready.skip.symm.trans (hv.trans hskip)) (by decide)
  · intro hskip
    exact h.injects hgate (readyTable_ready false (hv.trans hskip)) (by decide) fun _ => rfl

/-- In quiet hours the gate of a playlist opens exactly for an override that is
left over. -/
theorem overrides_iff (h : q.Fresh) (hplaylist : q.single = false) (hskip : q.req_skip = false) :
    (pollLine (readyTable true) q).observed.line ≠ none ↔ q.quiet_override = true := by
  have hnoSkip : (q.begun (readyTable true)).req_skip = false :=
    (congrArg Requests.req_skip h.begun_requests).trans hskip
  have hsingle : (q.begun (readyTable true)).single = false :=
    (congrArg RunParams.single (Tick.prelude_toRunParams (readyTable true) _)).trans hplaylist
  have hoverride : (q.begun (readyTable true)).quiet_override = q.quiet_override :=
    Tick.prelude_quiet_override (readyTable true) _
  obtain ⟨_, _, hskips, _⟩ | ⟨_, _, _, hgate⟩ | ⟨hopen, _⟩ | ⟨hopen, _⟩ :=
    Tick.quietGate_cases (readyTable true) (q.begun (readyTable true))
  · exact absurd (hskips.symm.trans hnoSkip) (by decide)
  · rw [hoverride] at hgate
    constructor
    · intro hline
      have hinjected : (pollLine (readyTable true) q).injected ≠ none := fun hnone =>
        hline (Option.map_eq_none_iff.mpr hnone)
      obtain ⟨_, w, _, hopened, _⟩ := pollLine_injected hinjected
      exact congrArg Prod.snd (hgate.symm.trans hopened.gate)
    · intro hset
      rw [hset] at hgate
      obtain ⟨line, hline⟩ := h.injects hgate (readyTable_ready true hnoSkip) (by decide) fun _ => rfl
      simp [hline]
  all_goals exact absurd hopen (by simp [hsingle]; decide)

/-- Whatever is left over can be seen: a run that lets the same be seen as a
clean one is clean itself. -/
theorem clean_of_same (h : p.Fresh) (h' : q.Fresh) (hsingle : q.single = p.single)
    (hclean : q.req_skip = false ∧ q.quiet_held = false ∧ q.in_quiet = false ∧ q.quiet_override = false)
    (hsame : ∀ actions, p.runTrace false actions = q.runTrace false actions) :
    p.req_skip = false ∧ p.clear_feed = q.clear_feed ∧ p.quiet_held = false ∧ p.in_quiet = false ∧
      (p.single = false → strlcpy 160 p.last_pattern = strlcpy 160 q.last_pattern) ∧
      (p.single = false → p.quiet_override = false) := by
  obtain ⟨hskip', hheld', hquiet', hoverride'⟩ := hclean
  have hpoll (env : Env) (hidle : env.state = .Idle) (hjob : env.job_active = false) :
      (pollLine env p).observed = (pollLine env q).observed := by
    have heq := hsame [.poll env]
    rw [h.runTrace_poll hidle hjob, h'.runTrace_poll hidle hjob] at heq
    exact List.cons.inj heq |>.1
  have hready := hpoll (readyTable false) rfl rfl
  obtain ⟨line', hline'⟩ := h'.injects_iff.2 hskip'
  have hskip : p.req_skip = false := by
    refine eq_false_of_ne_true fun hleft => ?_
    have hnone := h.injects_iff.1 hleft
    rw [hready, hline'] at hnone
    cases hnone
  obtain ⟨line, hline⟩ := h.injects_iff.2 hskip
  refine ⟨hskip, ?_, ?_, ?_, fun hplaylist => ?_, fun hplaylist => ?_⟩
  · rw [hready, hline'] at hline
    exact (Prod.mk.inj (Option.some.inj hline)).2.symm
  · have hheld := (shows_held (q := p)).symm.trans (hpoll {} rfl rfl ▸ shows_held (q := q))
    exact eq_false_of_ne_true fun hleft => ne_true_of_eq_false hheld' (hheld.mp hleft)
  · obtain ⟨o, status, htrace, hstatus, hshown⟩ := h.shows_quiet
    obtain ⟨o', status', htrace', hstatus', hshown'⟩ := h'.shows_quiet
    have heq := hsame [.request .stop, .poll {}]
    rw [htrace, htrace'] at heq
    cases heq
    cases hstatus.symm.trans hstatus'
    exact (hshown 0).symm.trans ((hshown' 0).trans hquiet')
  · obtain ⟨status, hstatus, hshown⟩ := h.shows_last hplaylist hskip
    obtain ⟨status', hstatus', hshown'⟩ := h'.shows_last (hsingle.trans hplaylist) hskip'
    rw [hpoll {} rfl rfl] at hstatus
    cases hstatus.symm.trans hstatus'
    exact (hshown 0).symm.trans (hshown' 0)
  · refine eq_false_of_ne_true fun hleft => ?_
    have hline := (h.overrides_iff hplaylist hskip).mpr hleft
    rw [hpoll (readyTable true) rfl rfl] at hline
    have hset := (h'.overrides_iff (hsingle.trans hplaylist) hskip').mp hline
    exact absurd (hset.symm.trans hoverride') (by decide)

end Fresh

/-- Both start, or neither does. -/
theorem TakesRun.rebooted_off_iff (h : p.TakesRun env) :
    (pollLine env (p.rebooted env)).phase = .Off ↔ (pollLine env p).phase = .Off := by
  obtain ⟨htakes', hrequests, _⟩ := h.rebooted
  obtain ⟨hstart', hoff'⟩ | ⟨cursor', hstart', hstarted'⟩ := htakes'.started <;>
    rw [hrequests, start_skip] at hstart' <;>
    obtain ⟨hstart, hoff⟩ | ⟨cursor, hstart, hstarted⟩ := h.started
  · exact iff_of_true hoff' hoff
  · cases hstart'.symm.trans hstart
  · cases hstart'.symm.trans hstart
  · rw [hstarted, hstarted']

/-- What is seen of a new run is always what would be seen of it after a reboot
exactly when a run that starts finds nothing left over. -/
theorem new_run_isolated_iff (env : Env) (p : Playlist) (htakes : p.TakesRun env) :
    (∀ actions, p.newRunTrace env actions = (p.rebooted env).newRunTrace env actions) ↔
      (p.RunLoads env → p.NoLeftovers env) := by
  obtain ⟨htakes', hrequests, hheld'⟩ := htakes.rebooted
  unfold newRunTrace
  dsimp only
  by_cases hoff : (pollLine env p).phase = .Off
  · simp only [if_pos hoff, if_pos (htakes.rebooted_off_iff.mpr hoff)]
    exact iff_of_true (fun _ => trivial) fun hloads => absurd hoff (htakes.runLoads_iff.mp hloads)
  · have hoff' := mt htakes.rebooted_off_iff.mp hoff
    simp only [if_neg hoff, if_neg hoff']
    constructor
    · intro hsame _
      obtain ⟨hfresh, hsingle, hskip, hfeed, hheld, hquiet, hoverride, hlast⟩ := htakes.fresh hoff
      obtain ⟨hfresh', hsingle', hskip', hfeed', hheldStart', hquiet', hoverride', hlast'⟩ := htakes'.fresh hoff'
      rw [hrequests] at hsingle' hskip'
      obtain ⟨hnoSkip, hdisarmed, hfree, hnoQuiet, hforgotten, hnoOverride⟩ :=
        hfresh.clean_of_same hfresh' (hsingle'.trans hsingle.symm)
          ⟨hskip', hheldStart'.trans hheld', hquiet', hoverride'⟩ hsame
      rw [hlast, hlast'] at hforgotten
      exact
        { skip := hskip.symm.trans hnoSkip
          clear_feed := hfeed.symm.trans (hdisarmed.trans hfeed')
          held := hheld.symm.trans hfree
          in_quiet := hquiet.symm.trans hnoQuiet
          last_pattern := fun hplaylist =>
            (hforgotten (hsingle.trans hplaylist)).trans (strlcpy_nil 160)
          quiet_override := fun hplaylist => hoverride.symm.trans (hnoOverride (hsingle.trans hplaylist)) }
    · intro hclean actions
      exact ((hclean (htakes.runLoads_iff.mpr hoff)).alike htakes hoff).runTrace_eq hoff false actions

/-- An idle table whose card holds the one playlist `a`. -/
private def playlistTable : Env where
  files path := if path = bytes "/playlists/a.txt" then some (bytes "/x.thr") else none

/-- A playlist has drawn its pattern and been stopped, and is asked for again. -/
private def askedAgain : Playlist :=
  Transition.run step (boot none) [.request (.run (bytes "a") .Idle), .poll playlistTable,
    .poll { playlistTable with line := true }, .poll { playlistTable with job_active := true, state := .Cycle },
    .request .stop, .poll playlistTable, .request (.run (bytes "a") .Idle)]

/-- The first poll of a playlist behind an earlier run of it, against the same poll after a reboot. -/
theorem new_run_isolated_behind_run :
    newRunTrace playlistTable askedAgain [.poll { playlistTable with line := true }] =
      newRunTrace playlistTable (rebooted playlistTable askedAgain) [.poll { playlistTable with line := true }] := by
  refine (new_run_isolated_iff playlistTable _ (by decide)).mpr (fun _ => ?_) _
  constructor <;> decide

/-- A skip that a restart finds waiting costs the new run its first pattern. -/
theorem skip_survives_restart :
    ¬ ∀ (feed_setting : Option Int) (before : List Action) (env : Env),
      let p := Transition.run step (boot feed_setting) before
      p.TakesRun env → ∀ actions, p.newRunTrace env actions = (p.rebooted env).newRunTrace env actions := by
  intro h
  have hsame := h none [.request (.run (bytes "a") .Idle), .poll playlistTable, .request .skip,
    .request (.run (bytes "a") .Idle)] playlistTable (by decide) [.poll { playlistTable with line := true }]
  exact absurd (congrArg (List.map Observed.line) hsame) (by decide)

end Playlist

end DuneWeaver
