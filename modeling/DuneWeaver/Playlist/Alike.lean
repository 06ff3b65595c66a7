import DuneWeaver.Playlist.Spec

namespace DuneWeaver

/-- The event the rest of the firmware receives, if it is one. -/
def Effect.event : Effect → Option Event
  | .send event => some event
  | _ => none

/-- The events a call has posted. -/
def Tick.events (t : Tick) : List Event := t.sent.filterMap Effect.event

/-- The two paths `resolveCurrent` reads back, as a function of what it looks
at. -/
def resolvedPaths (env : Env) (attempt : Nat) (playlist_path : Bytes) (order : List Nat) (index : Nat)
    (current_path : Bytes) : Option (Bytes × Bytes) :=
  if playlist_path = [] then some (current_path, [])
  else if order.length ≤ index then none
  else
    match env.read attempt playlist_path with
    | none => none
    | some content =>
      let found := scanValidLines (Tick.capture (order.getD index 0) (index + 1 < order.length)
        (order.getD (index + 1) 0)) ([], []) content
      if found.1 = [] then none else some found

theorem Tick.resolveCurrent_eq_paths (env : Env) (attempt : Nat) (t : Tick) :
    t.resolveCurrent env attempt =
      (resolvedPaths env attempt t.playlist_path t.order t.index t.current_path).map
        fun found => { t with current_path := found.1, next_path := found.2 } := by
  unfold resolveCurrent resolvedPaths
  split_ifs
  · rfl
  · rfl
  · cases env.read attempt t.playlist_path with
    | none => rfl
    | some content =>
      dsimp only
      split_ifs <;> rfl

/-- Two ticks of one run that differ at most in what the run does not look at again: the times and flags of a
phase outside of it, the last pattern and the override of a single run, what the snapshot cuts off the last
pattern, and what is no business of the run at all (the live feed, the auto-play, the LED strip, the old
snapshot). -/
structure Alike (t u : Tick) : Prop where
  phase : u.phase = t.phase
  requests : u.toRequests = t.toRequests
  params : u.toRunParams = t.toRunParams
  order : u.order = t.order
  index : u.index = t.index
  resolved_index : u.resolved_index = t.resolved_index
  playlist_path : u.playlist_path = t.playlist_path
  playlist_name : u.playlist_name = t.playlist_name
  current_path : u.current_path = t.current_path
  next_path : u.next_path = t.next_path
  last_pattern : t.single = false → strlcpy 160 u.last_pattern = strlcpy 160 t.last_pattern
  pending_clear : u.pending_clear = t.pending_clear
  clear_done : u.clear_done = t.clear_done
  clear_feed : u.clear_feed = t.clear_feed
  consec_fail : u.consec_fail = t.consec_fail
  skip_active : u.skip_active = t.skip_active
  since_home : u.since_home = t.since_home
  quiet_held : u.quiet_held = t.quiet_held
  in_quiet : u.in_quiet = t.in_quiet
  quiet_override : t.single = false → u.quiet_override = t.quiet_override
  watched : t.phase = .Homing ∨ t.phase = .RunClear ∨ t.phase = .RunPattern →
    u.job_seen = t.job_seen ∧ u.inject_ms = t.inject_ms
  drawn : t.phase = .RunPattern → u.pattern_start_ms = t.pattern_start_ms
  paused : t.phase = .Pausing →
    u.pause_until_ms = t.pause_until_ms ∧ u.pause_total_ms = t.pause_total_ms
  events : u.events = t.events
  injected : u.injected = t.injected

namespace Alike

variable {env : Env} {t u : Tick}

theorem single (h : Alike t u) : u.single = t.single := congrArg RunParams.single h.params

theorem req_skip (h : Alike t u) : u.req_skip = t.req_skip := congrArg Requests.req_skip h.requests

/-- The second tick written as the first with other values where the run does not
look. -/
theorem eq_with (h : Alike t u) : ∃ live setting auto published led last seen inject start until_ms
    total override sent, u = { t with
      live_feed := live, feed_setting := setting, toAutostart := auto, toPublished := published
      led_off_active := led, last_pattern := last, job_seen := seen, inject_ms := inject
      pattern_start_ms := start, pause_until_ms := until_ms, pause_total_ms := total
      quiet_override := override, sent := sent } := by
  refine ⟨u.live_feed, u.feed_setting, u.toAutostart, u.toPublished, u.led_off_active, u.last_pattern,
    u.job_seen, u.inject_ms, u.pattern_start_ms, u.pause_until_ms, u.pause_total_ms, u.quiet_override,
    u.sent, ?_⟩
  simp only [← h.phase, ← h.requests, ← h.params, ← h.order, ← h.index, ← h.resolved_index,
    ← h.playlist_path, ← h.playlist_name, ← h.current_path, ← h.next_path, ← h.pending_clear,
    ← h.clear_done, ← h.clear_feed, ← h.consec_fail, ← h.skip_active, ← h.since_home, ← h.quiet_held,
    ← h.in_quiet, ← h.injected]

private theorem nextItem_unwatched :
    ¬ (Phase.NextItem = .Homing ∨ Phase.NextItem = .RunClear ∨ Phase.NextItem = .RunPattern) := by
  decide

private theorem off_unwatched :
    ¬ (Phase.Off = .Homing ∨ Phase.Off = .RunClear ∨ Phase.Off = .RunPattern) := by
  decide

/-- Two phases look at no time and at no flag of their own. -/
theorem toNextItem (h : Alike t u) : Alike { t with phase := .NextItem } { u with phase := .NextItem } :=
  { h with
    phase := rfl
    watched := fun hphase => absurd hphase nextItem_unwatched
    drawn := fun hphase => absurd hphase (show Phase.NextItem ≠ .RunPattern by decide)
    paused := fun hphase => absurd hphase (show Phase.NextItem ≠ .Pausing by decide) }

theorem toOff (h : Alike t u) : Alike { t with phase := .Off } { u with phase := .Off } :=
  { h with
    phase := rfl
    watched := fun hphase => absurd hphase off_unwatched
    drawn := fun hphase => absurd hphase (show Phase.Off ≠ .RunPattern by decide)
    paused := fun hphase => absurd hphase (show Phase.Off ≠ .Pausing by decide) }

/-- Posting an event keeps two ticks alike. -/
theorem emit (h : Alike t u) (effect : Effect) : Alike (t.emit effect) (u.emit effect) := by
  have hevents : (u.emit effect).events = (t.emit effect).events := by
    simp only [Tick.events, Tick.emit_sent, List.filterMap_append]
    exact congrArg (· ++ _) h.events
  exact { h with events := hevents }

theorem finish (h : Alike t u) : Alike (t.finish env) (u.finish env) := by
  rw [Tick.finish_eq, Tick.finish_eq]
  exact { h.toOff with
    requests := congrArg (fun r : Requests => { r with req_skip := false }) h.requests
    order := rfl
    resolved_index := rfl
    playlist_path := rfl
    current_path := rfl
    next_path := rfl
    last_pattern := fun _ => rfl
    pending_clear := rfl
    clear_feed := rfl
    skip_active := rfl
    quiet_held := rfl
    events := by
      simp only [Tick.events, List.filterMap_append, h.quiet_held]
      exact congrArg (· ++ _) h.events }

theorem stopJob (h : Alike t u) : Alike (t.stopJob env) (u.stopJob env) := by
  unfold Tick.stopJob
  split_ifs
  · exact h.emit _
  · exact h

/-- What is published of two alike ticks reads the same at any time. -/
theorem publish (h : Alike t u) : Alike t.publish u.publish ∧
    ∀ now, u.publish.runtimeStatus now = t.publish.runtimeStatus now := by
  refine ⟨{ h with }, fun now => ?_⟩
  obtain ⟨_, _, _, _, _, last, _, _, _, until_ms, total, _, _, rfl⟩ := h.eq_with
  have hlast (hshown : t.phase ≠ .Off ∧ ¬ t.single) : strlcpy 160 last = strlcpy 160 t.last_pattern :=
    h.last_pattern (eq_false_of_ne_true hshown.2)
  have hremaining (hpausing : t.phase = .Pausing) : until_ms = t.pause_until_ms := (h.paused hpausing).1
  have htotal (hpausing : t.phase = .Pausing) : total = t.pause_total_ms := (h.paused hpausing).2
  unfold Tick.publish Published.runtimeStatus
  dsimp only
  rw [RuntimeStatus.mk.injEq]
  refine ⟨rfl, rfl, rfl, rfl, rfl, ?_, ?_, rfl, rfl, rfl, ?_⟩
  · by_cases hpausing : t.phase = .Pausing
    · rw [hremaining hpausing]
    · simp [hpausing]
  · by_cases hpausing : t.phase = .Pausing
    · rw [htotal hpausing]
    · simp [hpausing]
  · by_cases hshown : t.phase ≠ .Off ∧ ¬ t.single
    · rw [hlast hshown]
    · simp only [decide_eq_true_eq]
      rw [if_neg hshown, if_neg hshown]

/-- Advancing decides alike, and leaves the ticks alike. -/
theorem advanceIndex (h : Alike t u) : (u.advanceIndex env).2 = (t.advanceIndex env).2 ∧
    Alike (t.advanceIndex env).1 (u.advanceIndex env).1 := by
  have hended : Alike { t with index := t.index + 1, clear_done := false }
      { u with index := u.index + 1, clear_done := false } :=
    { h with index := congrArg (· + 1) h.index, clear_done := rfl }
  obtain ⟨_, _, _, _, _, _, _, _, _, _, _, _, _, rfl⟩ := h.eq_with
  unfold Tick.advanceIndex Tick.runMode Tick.runShuffle
  dsimp only
  split_ifs
  all_goals first
    | exact ⟨rfl, hended.finish⟩
    | exact ⟨rfl, { h with order := rfl, index := rfl, clear_done := rfl }⟩

theorem nextSlot (h : Alike t u) : Alike (t.nextSlot env) (u.nextSlot env) := by
  obtain ⟨hok, hnext⟩ := @Alike.advanceIndex env _ _ h
  unfold Tick.nextSlot
  generalize t.advanceIndex env = moved at hok hnext
  generalize u.advanceIndex env = moved' at hok hnext
  obtain ⟨v, ok⟩ := moved
  obtain ⟨w, ok'⟩ := moved'
  dsimp only at hok hnext
  subst hok
  cases ok' with
  | true => exact hnext.toNextItem
  | false => exact hnext

theorem quietGate (h : Alike t u) : (u.quietGate env).2 = (t.quietGate env).2 ∧
    Alike (t.quietGate env).1 (u.quietGate env).1 := by
  have hoverride := h.quiet_override
  obtain ⟨_, _, _, _, _, _, _, _, _, _, _, override, _, rfl⟩ := h.eq_with
  unfold Tick.quietGate
  dsimp only at hoverride ⊢
  split_ifs with hquiet
  · exact ⟨rfl, { h with requests := rfl, in_quiet := rfl, quiet_override := fun _ => rfl }⟩
  · exact ⟨hoverride (eq_false_of_ne_true hquiet.1), { h with in_quiet := rfl }⟩
  · exact ⟨rfl, { h with in_quiet := rfl, quiet_override := fun _ => rfl }⟩
  · exact ⟨rfl, h⟩

/-- Handing over the pattern of the slot looks at nothing that may differ. -/
private theorem handPattern (h : Alike t u) :
    Alike { t.inject env t.current_path .RunPattern with pattern_start_ms := env.now }
      { u.inject env u.current_path .RunPattern with pattern_start_ms := env.now } :=
  { h with
    phase := rfl
    watched := fun _ => ⟨rfl, rfl⟩
    drawn := fun _ => rfl
    paused := fun hphase => absurd hphase (show Phase.RunPattern ≠ .Pausing by decide)
    injected := congrArg (fun path => some (runLine path)) h.current_path }

/-- Neither does handing over its clear. -/
private theorem handClear (h : Alike t u) (feed : Int) :
    Alike ({ t with toThetaRho := t.toThetaRho.setClearFeed feed }.inject env t.pending_clear .RunClear)
      ({ u with toThetaRho := u.toThetaRho.setClearFeed feed }.inject env u.pending_clear .RunClear) :=
  { h with
    phase := rfl
    clear_feed := rfl
    watched := fun _ => ⟨rfl, rfl⟩
    drawn := fun hphase => absurd hphase (show Phase.RunClear ≠ .RunPattern by decide)
    paused := fun hphase => absurd hphase (show Phase.RunClear ≠ .Pausing by decide)
    injected := congrArg (fun path => some (runLine path)) h.pending_clear }

theorem clearFileFor (h : Alike t u) :
    u.clearFileFor env 1 u.current_path = t.clearFileFor env 1 t.current_path := by
  unfold Tick.clearFileFor
  rw [h.current_path, h.params]

theorem injectItem (h : Alike t u) : Alike (t.injectItem env) (u.injectItem env) := by
  have hfile := @Alike.clearFileFor env _ _ h
  unfold Tick.injectItem
  by_cases hdone : t.clear_done
  · have hdone' : u.clear_done := h.clear_done ▸ hdone
    rw [if_neg (not_not.mpr hdone), if_neg (not_not.mpr hdone')]
    exact h.handPattern
  · have hdone' : ¬ u.clear_done := h.clear_done ▸ hdone
    rw [if_pos hdone, if_pos hdone']
    have hchosen : Alike
        { t with pending_clear := t.clearFileFor env 1 t.current_path, clear_done := true }
        { u with pending_clear := u.clearFileFor env 1 u.current_path, clear_done := true } :=
      { h with pending_clear := hfile, clear_done := rfl }
    have hhand := @Alike.handClear env _ _ hchosen
      (if env.settings.clear_speed > 0 then env.settings.clear_speed else -1)
    have hdraw := @Alike.handPattern env _ _ hchosen
    by_cases hclear : t.clearFileFor env 1 t.current_path ≠ []
    · have hclear' : u.clearFileFor env 1 u.current_path ≠ [] := hfile ▸ hclear
      dsimp only
      rw [if_pos hclear, if_pos hclear']
      exact hhand
    · have hclear' : ¬ u.clearFileFor env 1 u.current_path ≠ [] := hfile ▸ hclear
      dsimp only
      rw [if_neg hclear, if_neg hclear']
      exact hdraw

theorem playItem (h : Alike t u) : Alike (t.playItem env) (u.playItem env) := by
  unfold Tick.playItem
  rw [Tick.resolveCurrent_eq_paths, Tick.resolveCurrent_eq_paths, h.playlist_path, h.order, h.index,
    h.current_path, h.resolved_index]
  by_cases hstale : t.resolved_index ≠ some t.index
  · rw [if_pos hstale, if_pos hstale]
    cases resolvedPaths env 0 t.playlist_path t.order t.index t.current_path with
    | none =>
      have hfailed : Alike { t with consec_fail := t.consec_fail + 1 }
          { u with consec_fail := u.consec_fail + 1 } :=
        { h with consec_fail := congrArg (· + 1) h.consec_fail }
      simp only [Option.map_none, h.consec_fail] at hfailed ⊢
      split_ifs
      · exact hfailed.finish
      · exact hfailed.advanceIndex.2
    | some found =>
      simp only [Option.map_some]
      exact injectItem { h with
        order := rfl, index := rfl, resolved_index := rfl, playlist_path := rfl, current_path := rfl
        next_path := rfl }
  · rw [if_neg hstale, if_neg hstale]
    exact h.injectItem

theorem nextItem (h : Alike t u) : Alike (t.nextItem env) (u.nextItem env) := by
  unfold Tick.nextItem
  by_cases halarm : inAlarmState env.state
  · rw [if_pos halarm, if_pos halarm]
    exact h.finish
  · rw [if_neg halarm, if_neg halarm]
    obtain ⟨hok, hgate⟩ := @Alike.quietGate env _ _ h
    generalize t.quietGate env = gated at hok hgate
    generalize u.quietGate env = gated' at hok hgate
    obtain ⟨v, ok⟩ := gated
    obtain ⟨w, ok'⟩ := gated'
    dsimp only at hok hgate
    subst hok
    cases ok' with
    | false => exact hgate
    | true =>
      have hplay := @Alike.playItem env _ _ hgate
      have hhome := hgate.emit .start_home
      have hhoming : Phase.Homing ≠ .RunPattern ∧ Phase.Homing ≠ .Pausing := by decide
      obtain ⟨_, _, _, _, _, _, _, _, _, _, _, _, _, rfl⟩ := hgate.eq_with
      dsimp only
      split_ifs
      · refine (advanceIndex ?_).2
        exact { hgate with requests := rfl, since_home := rfl }
      · exact hgate
      · exact { hhome with
          phase := rfl
          watched := fun _ => ⟨rfl, rfl⟩
          drawn := fun hphase => absurd hphase hhoming.1
          paused := fun hphase => absurd hphase hhoming.2 }
      · exact hplay

theorem homing (h : Alike t u) (hphase : t.phase = .Homing) : Alike (t.homing env) (u.homing env) := by
  have hended := @Alike.finish env _ _ h
  have hwatched := h.watched (.inl hphase)
  obtain ⟨_, _, _, _, _, _, seen, inject, _, _, _, _, _, rfl⟩ := h.eq_with
  obtain ⟨rfl, rfl⟩ : seen = t.job_seen ∧ inject = t.inject_ms := hwatched
  unfold Tick.homing
  dsimp only
  split_ifs
  · exact hended
  · exact { h.toNextItem with since_home := rfl }
  · exact hended
  · exact h
  · exact { h with watched := fun _ => ⟨rfl, rfl⟩ }
  · exact hended
  · exact h

theorem startFailed (h : Alike t u) : Alike (t.startFailed env) (u.startFailed env) := by
  obtain ⟨_, _, _, _, _, _, _, _, _, _, _, _, _, rfl⟩ := h.eq_with
  unfold Tick.startFailed
  dsimp only
  split_ifs
  · exact finish { h with skip_active := rfl }
  · exact finish { h with skip_active := rfl, clear_feed := rfl, consec_fail := rfl }
  · exact nextSlot { h with skip_active := rfl, clear_feed := rfl, consec_fail := rfl, since_home := rfl }
  · exact finish { h with skip_active := rfl, consec_fail := rfl }
  · exact nextSlot { h with skip_active := rfl, consec_fail := rfl, since_home := rfl }

theorem clearDone (h : Alike t u) : Alike (t.clearDone env) (u.clearDone env) := by
  obtain ⟨_, _, _, _, _, _, _, _, _, _, _, _, _, rfl⟩ := h.eq_with
  unfold Tick.clearDone
  dsimp only
  split_ifs
  · exact nextSlot { h with clear_feed := rfl, skip_active := rfl, since_home := rfl }
  · exact { h.toNextItem with clear_feed := rfl }

/-- A drawn pattern after which the run goes on is followed by the pause, if there
is one. -/
private theorem patternDone_eq (t : Tick) : t.patternDone env =
    if (t.patternEnded.advanceIndex env).2 then
      if t.pauseMs env > 0 then
        { (t.patternEnded.advanceIndex env).1 with
          pause_until_ms := env.now + t.pauseMs env
          pause_total_ms := t.pauseMs env
          phase := .Pausing }
      else { (t.patternEnded.advanceIndex env).1 with phase := .NextItem }
    else (t.patternEnded.advanceIndex env).1 := by
  generalize hmoved : t.patternEnded.advanceIndex env = moved
  unfold Tick.patternEnded at hmoved
  unfold Tick.patternDone
  dsimp only
  rw [hmoved]
  obtain ⟨v, ok⟩ := moved
  cases ok with
  | false => rfl
  | true => rfl

theorem patternDone (h : Alike t u) (hphase : t.phase = .RunPattern) :
    Alike (t.patternDone env) (u.patternDone env) := by
  have hdrawn := h.drawn hphase
  have hended : Alike t.patternEnded u.patternEnded :=
    { h with
      last_pattern := fun _ => congrArg (strlcpy 160) h.current_path
      since_home := congrArg (· + 1) h.since_home
      quiet_override := fun _ => rfl
      skip_active := rfl }
  have hpause : u.pauseMs env = t.pauseMs env := by
    unfold Tick.pauseMs Tick.runPause Tick.runPauseFromStart
    rw [hdrawn, h.params, h.skip_active]
  obtain ⟨hok, hnext⟩ := @Alike.advanceIndex env _ _ hended
  have hpausing : ¬ (Phase.Pausing = .Homing ∨ Phase.Pausing = .RunClear ∨
      Phase.Pausing = .RunPattern) ∧ Phase.Pausing ≠ .RunPattern := by decide
  rw [patternDone_eq, patternDone_eq, hpause, hok]
  split_ifs
  · exact { hnext with
      phase := rfl
      watched := fun hphase => absurd hphase hpausing.1
      drawn := fun hphase => absurd hphase hpausing.2
      paused := fun _ => ⟨rfl, rfl⟩ }
  · exact hnext.toNextItem
  · exact hnext

theorem running (h : Alike t u) (hphase : t.phase = .RunClear ∨ t.phase = .RunPattern) :
    Alike (t.running env) (u.running env) := by
  have hended := @Alike.finish env _ _ h
  have hfailed := @Alike.startFailed env _ _ h
  have hcleared := @Alike.clearDone env _ _ h
  have hpattern (hpattern : t.phase = .RunPattern) := @Alike.patternDone env _ _ h hpattern
  have hwatched := h.watched (.inr hphase)
  obtain ⟨_, _, _, _, _, _, seen, inject, _, _, _, _, _, rfl⟩ := h.eq_with
  obtain ⟨rfl, rfl⟩ : seen = t.job_seen ∧ inject = t.inject_ms := hwatched
  unfold Tick.running
  dsimp only
  by_cases halarm : inAlarmState env.state
  · rw [if_pos halarm, if_pos halarm]
    exact hended
  rw [if_neg halarm, if_neg halarm]
  by_cases hskip : t.req_skip
  · rw [if_pos hskip, if_pos hskip]
    exact stopJob { h with requests := rfl, skip_active := rfl }
  rw [if_neg hskip, if_neg hskip]
  by_cases hseen : t.job_seen
  · rw [if_neg (not_not.mpr hseen), if_neg (not_not.mpr hseen)]
    by_cases hdone : ¬ env.job_active ∧ env.state = .Idle
    · rw [if_pos hdone, if_pos hdone]
      by_cases hclear : t.phase = .RunClear
      · rw [if_pos hclear, if_pos hclear]
        exact hcleared
      · rw [if_neg hclear, if_neg hclear]
        exact hpattern (hphase.resolve_left hclear)
    · rw [if_neg hdone, if_neg hdone]
      exact h
  · rw [if_pos hseen, if_pos hseen]
    by_cases hjob : env.job_active
    · rw [if_pos hjob, if_pos hjob]
      exact { h with consec_fail := rfl, watched := fun _ => ⟨rfl, rfl⟩ }
    · rw [if_neg hjob, if_neg hjob]
      by_cases hlate : env.now - t.inject_ms > INJECT_TIMEOUT_MS
      · rw [if_pos hlate, if_pos hlate]
        exact hfailed
      · rw [if_neg hlate, if_neg hlate]
        exact h

theorem pausing (h : Alike t u) (hphase : t.phase = .Pausing) : Alike (t.pausing env) (u.pausing env) := by
  have hpaused := h.paused hphase
  obtain ⟨_, _, _, _, _, _, _, _, _, until_ms, total, _, _, rfl⟩ := h.eq_with
  obtain ⟨rfl, rfl⟩ : until_ms = t.pause_until_ms ∧ total = t.pause_total_ms := hpaused
  unfold Tick.pausing
  dsimp only
  split_ifs
  · exact { h.toNextItem with requests := rfl }
  · exact h.toNextItem
  · exact h

/-- The switch keeps two ticks alike. -/
theorem phaseStep (h : Alike t u) : Alike (t.phaseStep env) (u.phaseStep env) := by
  unfold Tick.phaseStep
  rw [h.phase]
  cases hphase : t.phase with
  | Off => exact h
  | NextItem => exact h.nextItem
  | Homing => exact h.homing hphase
  | RunClear => exact h.running (.inl hphase)
  | RunPattern => exact h.running (.inr hphase)
  | Pausing => exact h.pausing hphase

end Alike

end DuneWeaver
