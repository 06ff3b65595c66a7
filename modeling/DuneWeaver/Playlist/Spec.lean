import DuneWeaver.Playlist.Requests

namespace DuneWeaver.Tick

/-- Releasing the hold resumes exactly when a hold is outstanding. -/
theorem releaseHold_eq (t : Tick) : t.releaseHold =
    { t with
      quiet_held := false
      sent := t.sent ++ if t.quiet_held then [.send .cycleStart] else [] } := by
  unfold releaseHold
  cases h : t.quiet_held with
  | true => rfl
  | false =>
    have hfree := ne_true_of_eq_false h
    rw [← h, if_neg hfree, if_neg hfree, List.append_nil]

/-- The end of a run, with the hold resolved: whatever led to it, the object
comes out Off, disarmed and empty. -/
theorem finish_eq (env : Env) (t : Tick) : t.finish env =
    { t with
      quiet_held := false
      sent := t.sent ++ if t.quiet_held then [.send .cycleStart] else []
      toThetaRho := (t.toThetaRho.flushFeedLive env.state).setClearFeed (-1)
      phase := .Off, order := [], playlist_path := [], current_path := [], next_path := []
      last_pattern := [], resolved_index := none, pending_clear := [], req_skip := false
      skip_active := false } := by
  unfold finish
  rw [releaseHold_eq]

@[simp] theorem finish_phase (env : Env) (t : Tick) : (t.finish env).phase = .Off := rfl

@[simp] theorem finish_clear_feed (env : Env) (t : Tick) : (t.finish env).clear_feed = -1 := rfl

@[simp] theorem finish_quiet_held (env : Env) (t : Tick) : (t.finish env).quiet_held = false := by
  rw [finish_eq]

@[simp] theorem finish_sent (env : Env) (t : Tick) :
    (t.finish env).sent = t.sent ++ if t.quiet_held then [.send .cycleStart] else [] := by
  rw [finish_eq]

@[simp] theorem finish_injected (env : Env) (t : Tick) : (t.finish env).injected = t.injected := by
  rw [finish_eq]

@[simp] theorem finish_req_run (env : Env) (t : Tick) : (t.finish env).req_run = t.req_run := by
  rw [finish_eq]

@[simp] theorem finish_req_stop (env : Env) (t : Tick) : (t.finish env).req_stop = t.req_stop := by
  rw [finish_eq]

@[simp] theorem finish_toPublished (env : Env) (t : Tick) :
    (t.finish env).toPublished = t.toPublished := by
  rw [finish_eq]

@[simp] theorem finish_in_quiet (env : Env) (t : Tick) : (t.finish env).in_quiet = t.in_quiet := by
  rw [finish_eq]

@[simp] theorem finish_quiet_override (env : Env) (t : Tick) :
    (t.finish env).quiet_override = t.quiet_override := by
  rw [finish_eq]

/-- Publishing writes the snapshot and nothing else. -/
theorem publish_frame (t : Tick) : ∃ published, t.publish = { t with toPublished := published } :=
  ⟨_, rfl⟩

/-- Posting the deferred abort changes nothing but the queue. -/
theorem stopJob_eq (env : Env) (t : Tick) : t.stopJob env =
    { t with sent := t.sent ++ if env.job_active then [.send .stopJob] else [] } := by
  unfold stopJob
  cases env.job_active with
  | true => rfl
  | false => simp

@[simp] theorem stopJob_toPlaylist (env : Env) (t : Tick) :
    (t.stopJob env).toPlaylist = t.toPlaylist := by
  rw [stopJob_eq]

@[simp] theorem stopJob_injected (env : Env) (t : Tick) : (t.stopJob env).injected = t.injected := by
  rw [stopJob_eq]

/-- The slot that follows the current one. The order is redrawn only when the
run wraps. -/
inductive NextSlot (env : Env) (t : Tick) : Tick → Prop
  | next (hmore : t.index + 1 < t.order.length) :
      NextSlot env t { t with index := t.index + 1, clear_done := false }
  | wrap (hlast : t.order.length ≤ t.index + 1) (hsingle : t.single = false)
      (hloop : t.runMode env = MODE_LOOP) :
      NextSlot env t { t with
        index := 0, clear_done := false
        order := if t.runShuffle env ≠ 0 then shuffleOrder env.esp_random t.order else t.order }

/-- `u` is `t` up to the feed, the cursor, the progress and the phase. -/
def Kin (t u : Tick) : Prop :=
  u = { t with
    toThetaRho := u.toThetaRho, toCursor := u.toCursor, toProgress := u.toProgress, phase := u.phase }

theorem Kin.injected {t u : Tick} (h : Kin t u) : u.injected = t.injected :=
  (congrArg Tick.injected h :)

theorem Kin.sent {t u : Tick} (h : Kin t u) : u.sent = t.sent := (congrArg Tick.sent h :)

theorem Kin.toStillSands {t u : Tick} (h : Kin t u) : u.toStillSands = t.toStillSands :=
  (congrArg (fun t : Tick => t.toStillSands) h :)

theorem Kin.quiet_held {t u : Tick} (h : Kin t u) : u.quiet_held = t.quiet_held :=
  congrArg StillSands.quiet_held h.toStillSands

theorem Kin.toRunParams {t u : Tick} (h : Kin t u) : u.toRunParams = t.toRunParams :=
  (congrArg (fun t : Tick => t.toRunParams) h :)

theorem NextSlot.kin {env : Env} {t u : Tick} (h : NextSlot env t u) : Kin t u := by
  cases h with
  | next => rfl
  | wrap => rfl

theorem NextSlot.phase_eq {env : Env} {t u : Tick} (h : NextSlot env t u) : u.phase = t.phase := by
  cases h with
  | next => rfl
  | wrap => rfl

/-- Moving on keeps the cursor inside the order. -/
theorem NextSlot.in_range {env : Env} {t u : Tick} (h : NextSlot env t u)
    (hrange : t.index < t.order.length) : u.index < u.order.length := by
  cases h with
  | next hmore => exact hmore
  | wrap =>
    have hpos : 0 < t.order.length := by omega
    dsimp only
    split_ifs
    · simpa using hpos
    · exact hpos

/-- A consumed stop leaves the machine Off. -/
theorem consumeStop_phase (env : Env) (t : Tick) : (t.consumeStop env).phase = .Off := by
  unfold consumeStop
  dsimp only
  split_ifs with hon
  · simp [publish]
  · exact not_not.mp hon

/-- Advancing moves to the next slot or ends the run. -/
theorem advanceIndex_cases (env : Env) (t : Tick) :
    (∃ u, NextSlot env t u ∧ t.advanceIndex env = (u, true)) ∨
    (∃ u, Kin t u ∧ t.advanceIndex env = (u.finish env, false)) := by
  unfold advanceIndex
  dsimp only
  by_cases hend : t.order.length ≤ t.index + 1
  · rw [if_pos hend]
    by_cases hloop : ¬ t.single ∧ t.runMode env = MODE_LOOP
    · exact .inl ⟨_, .wrap hend (by simpa using hloop.1) hloop.2, if_pos hloop⟩
    · refine .inr ⟨_, ?_, if_neg hloop⟩
      exact rfl
  · rw [if_neg hend]
    exact .inl ⟨_, .next (by omega), rfl⟩

/-- So does going on to the next slot. -/
theorem nextSlot_cases (env : Env) (t : Tick) :
    (∃ u, NextSlot env t u ∧ t.nextSlot env = { u with phase := .NextItem }) ∨
    (∃ u, Kin t u ∧ t.nextSlot env = u.finish env) := by
  unfold nextSlot
  obtain ⟨u, hslot, hadvance⟩ | ⟨u, hkin, hadvance⟩ := advanceIndex_cases env t
  · rw [hadvance]
    exact .inl ⟨u, hslot, rfl⟩
  · rw [hadvance]
    exact .inr ⟨u, hkin, rfl⟩

/-- A job that did not start ends the run or costs it the slot. -/
theorem startFailed_cases (env : Env) (t : Tick) :
    ∃ u, Kin t u ∧ u.toCursor = t.toCursor ∧
      (t.startFailed env = u.finish env ∨ t.startFailed env = u.nextSlot env) := by
  unfold startFailed
  dsimp only
  split_ifs with _ hclear
  · refine ⟨_, ?_, ?_, .inl rfl⟩ <;> exact rfl
  · refine ⟨_, ?_, ?_, .inl rfl⟩ <;> exact rfl
  · refine ⟨_, ?_, ?_, .inr rfl⟩ <;> exact rfl
  · refine ⟨_, ?_, ?_, .inl rfl⟩ <;> exact rfl
  · refine ⟨_, ?_, ?_, .inr rfl⟩ <;> exact rfl

/-- After a clear the run goes on with its pattern, or past it when the item is
skipped. -/
theorem clearDone_cases (env : Env) (t : Tick) :
    ∃ u, Kin t u ∧ u.toCursor = t.toCursor ∧
      (t.clearDone env = u ∧ u.phase = .NextItem ∨
        t.skip_active = true ∧ t.clearDone env = u.nextSlot env) := by
  unfold clearDone
  dsimp only
  split_ifs with hskip
  · refine ⟨_, ?_, ?_, .inr ⟨hskip, rfl⟩⟩ <;> exact rfl
  · refine ⟨_, ?_, ?_, .inl ⟨rfl, rfl⟩⟩ <;> exact rfl

/-- The object as `pattern_done` hands it to `advanceIndex`. -/
def patternEnded (t : Tick) : Tick :=
  { t with
    last_pattern := t.current_path, since_home := t.since_home + 1, quiet_override := false
    skip_active := false }

/-- After a pattern the run goes on with the next slot, after a pause or at once,
or ends. -/
theorem patternDone_forms (env : Env) (t : Tick) :
    (∃ u, NextSlot env t.patternEnded u ∧ t.patternEnded.advanceIndex env = (u, true) ∧
      (0 < t.pauseMs env ∧ t.patternDone env = { u with
          pause_until_ms := env.now + t.pauseMs env, pause_total_ms := t.pauseMs env, phase := .Pausing } ∨
        t.patternDone env = { u with phase := .NextItem })) ∨
    (∃ u, Kin t.patternEnded u ∧ t.patternEnded.advanceIndex env = (u.finish env, false) ∧
      t.patternDone env = u.finish env) := by
  generalize hdone : t.patternDone env = v
  unfold patternDone at hdone
  generalize t.pauseMs env = pause_ms at hdone ⊢
  dsimp only at hdone
  generalize hended : (Tick.mk _ _ _ : Tick).advanceIndex env = advanced at hdone
  change t.patternEnded.advanceIndex env = advanced at hended
  obtain ⟨u, hslot, hadvance⟩ | ⟨u, hkin, hadvance⟩ := advanceIndex_cases env t.patternEnded
  · cases hadvance.symm.trans hended
    dsimp only at hdone
    refine .inl ⟨u, hslot, hadvance, ?_⟩
    split_ifs at hdone with hpause
    · exact .inl ⟨hpause, hdone.symm⟩
    · exact .inr hdone.symm
  · cases hadvance.symm.trans hended
    exact .inr ⟨u, hkin, hadvance, hdone.symm⟩

theorem patternDone_cases (env : Env) (t : Tick) :
    (∃ u v, NextSlot env t.patternEnded u ∧ Kin u v ∧ v.toCursor = u.toCursor ∧
      (v.phase = .NextItem ∨ v.phase = .Pausing) ∧ t.patternDone env = v) ∨
    (∃ u, Kin t.patternEnded u ∧ t.patternDone env = u.finish env) := by
  obtain ⟨u, hslot, _, ⟨_, hdone⟩ | hdone⟩ | ⟨u, hkin, _, hdone⟩ := t.patternDone_forms env
  · refine .inl ⟨u, _, hslot, ?_, ?_, .inr ?_, hdone⟩ <;> exact rfl
  · refine .inl ⟨u, _, hslot, ?_, ?_, .inl ?_, hdone⟩ <;> exact rfl
  · exact .inr ⟨u, hkin, hdone⟩

/-- The quiet-hours gate only touches the two quiet flags and the skip it
consumes. -/
theorem quietGate_cases (env : Env) (t : Tick) :
    (t.single = false ∧ env.quietNow = true ∧ t.req_skip = true ∧
      t.quietGate env = ({ t with in_quiet := true, req_skip := false, quiet_override := true }, true)) ∨
    (t.single = false ∧ env.quietNow = true ∧ t.req_skip = false ∧
      t.quietGate env = ({ t with in_quiet := true }, t.quiet_override)) ∨
    ((t.single = true ∨ env.quietNow = false) ∧ t.in_quiet = true ∧
      t.quietGate env = ({ t with in_quiet := false, quiet_override := false }, true)) ∨
    ((t.single = true ∨ env.quietNow = false) ∧ t.in_quiet = false ∧ t.quietGate env = (t, true)) := by
  unfold quietGate
  dsimp only
  by_cases hquiet : ¬ t.single ∧ env.quietNow
  · rw [if_pos hquiet]
    obtain ⟨hsingle, hnow⟩ := hquiet
    by_cases hskip : t.req_skip
    · exact .inl ⟨by simpa using hsingle, hnow, hskip, by rw [if_pos hskip]⟩
    · exact .inr (.inl ⟨by simpa using hsingle, hnow, by simpa using hskip, by rw [if_neg hskip]⟩)
  · rw [if_neg hquiet]
    have hcases : t.single = true ∨ env.quietNow = false := by
      cases hs : t.single <;> cases hn : env.quietNow <;> simp_all
    by_cases hin : t.in_quiet
    · exact .inr (.inr (.inl ⟨hcases, hin, if_pos hin⟩))
    · exact .inr (.inr (.inr ⟨hcases, by simpa using hin, if_neg hin⟩))

/-- Whatever it decides, the gate keeps to those flags. -/
theorem quietGate_frame {env : Env} {t u : Tick} {ok : Bool} (h : t.quietGate env = (u, ok)) :
    ∃ in_quiet quiet_override req_skip, u =
      { t with in_quiet := in_quiet, quiet_override := quiet_override, req_skip := req_skip } := by
  obtain ⟨_, _, _, hgate⟩ | ⟨_, _, _, hgate⟩ | ⟨_, _, hgate⟩ | ⟨_, _, hgate⟩ := quietGate_cases env t
  all_goals
    cases hgate.symm.trans h
    exact ⟨_, _, _, rfl⟩

/-- Reading the slot back leaves everything but the two resolved paths alone. -/
theorem resolveCurrent_eq {env : Env} {attempt : Nat} {t u : Tick}
    (h : t.resolveCurrent env attempt = some u) :
    u = { t with current_path := u.current_path, next_path := u.next_path } := by
  unfold resolveCurrent at h
  split_ifs at h
  · cases h
    rfl
  · dsimp only at h
    split at h
    · cases h
    · split_ifs at h
      cases h
      rfl

/-- Taking a request over sets the parameters of the new run and, unless it is
the boot auto-play, posts the abort of a job that is active. -/
theorem takeRequest_eq (env : Env) (t : Tick) : t.takeRequest env =
    { t with
      req_run := false, req_no_abort := false, single := t.req_single
      clear_override := t.req_clear_override, ov_mode := t.req_ov_mode
      ov_shuffle := t.req_ov_shuffle, ov_pause := t.req_ov_pause, ov_pfs := t.req_ov_pfs
      consec_fail := 0, skip_active := false
      sent := t.sent ++ if env.job_active ∧ ¬ t.req_no_abort then [.send .stopJob] else [] } := by
  unfold takeRequest
  dsimp only
  split_ifs
  · rfl
  · rw [List.append_nil]

/-- Loading works on the cursor alone and keeps the last pattern. -/
theorem loadPlaylist_frame (env : Env) (name : Bytes) (t : Tick) : ∃ cursor since_home,
    (t.loadPlaylist env name).1 = { t with toCursor := cursor, since_home := since_home } ∧
      cursor.last_pattern = t.last_pattern := by
  unfold loadPlaylist
  cases env.read 0 (playlistFile env name) with
  | none => exact ⟨_, _, rfl, rfl⟩
  | some content =>
    dsimp only
    split_ifs
    · exact ⟨_, _, rfl, rfl⟩
    all_goals
      split
      · exact ⟨_, _, rfl, rfl⟩
      · rename_i u hresolve
        rw [resolveCurrent_eq hresolve]
        exact ⟨_, _, rfl, rfl⟩

/-- A consumed run request starts a single run, starts a playlist that loads,
or ends at once. -/
theorem consumeRun_cases (env : Env) (t : Tick) :
    (t.req_single = true ∧
      t.consumeRun env = { (t.takeRequest env).loadSingle t.req_name with phase := .NextItem }) ∨
    (t.req_single = false ∧ ((t.takeRequest env).loadPlaylist env t.req_name).2 = true ∧
      t.consumeRun env =
        { ((t.takeRequest env).loadPlaylist env t.req_name).1 with phase := .NextItem }) ∨
    (t.req_single = false ∧ ((t.takeRequest env).loadPlaylist env t.req_name).2 = false ∧
      t.consumeRun env = ((t.takeRequest env).loadPlaylist env t.req_name).1.finish env) := by
  have hname : (t.takeRequest env).req_name = t.req_name := by rw [takeRequest_eq]
  have hsingle : (t.takeRequest env).single = t.req_single := by rw [takeRequest_eq]
  unfold consumeRun
  dsimp only
  rw [hname, hsingle]
  cases hs : t.req_single with
  | true => exact .inl ⟨rfl, rfl⟩
  | false =>
    right
    rw [if_neg Bool.false_ne_true]
    generalize (t.takeRequest env).loadPlaylist env t.req_name = loaded
    obtain ⟨u, ok⟩ := loaded
    cases ok with
    | true => exact .inl ⟨rfl, rfl, rfl⟩
    | false => exact .inr ⟨rfl, rfl, rfl⟩

/-- The start of a call keeps to the LED and hold flags, the auto-play and the
request it may stage. -/
theorem prelude_frame (env : Env) (t : Tick) : ∃ led held sent auto req, t.prelude env =
    { t with
      led_off_active := led, quiet_held := held, sent := sent, toAutostart := auto
      toRequests := req } := by
  have hled : ∃ led sent, t.ledOff env = { t with led_off_active := led, sent := sent } := by
    unfold ledOff
    dsimp only
    split_ifs
    · exact ⟨_, _, rfl⟩
    · exact ⟨_, _, rfl⟩
  have hhold (u : Tick) : ∃ held sent, u.midRunHold env = { u with quiet_held := held, sent := sent } := by
    unfold midRunHold
    split_ifs
    · exact ⟨_, _, rfl⟩
    · exact ⟨_, _, rfl⟩
    · exact ⟨_, _, rfl⟩
  have hauto (u : Tick) : ∃ auto req sent, u.autostart env =
      { u with toAutostart := auto, toRequests := req, sent := sent } := by
    unfold autostart
    dsimp only
    split_ifs <;> exact ⟨_, _, _, rfl⟩
  obtain ⟨led, sent, hled⟩ := hled
  obtain ⟨held, sent', hhold⟩ := hhold (t.ledOff env)
  obtain ⟨auto, req, sent'', hauto⟩ := hauto ((t.ledOff env).midRunHold env)
  refine ⟨led, held, sent'', auto, req, ?_⟩
  rw [prelude, hauto, hhold, hled]

section Prelude

variable (env : Env) (t : Tick)

@[simp] theorem prelude_phase : (t.prelude env).phase = t.phase := by
  obtain ⟨_, _, _, _, _, h⟩ := prelude_frame env t
  rw [h]

@[simp] theorem prelude_toThetaRho : (t.prelude env).toThetaRho = t.toThetaRho := by
  obtain ⟨_, _, _, _, _, h⟩ := prelude_frame env t
  rw [h]

@[simp] theorem prelude_toPublished : (t.prelude env).toPublished = t.toPublished := by
  obtain ⟨_, _, _, _, _, h⟩ := prelude_frame env t
  rw [h]

@[simp] theorem prelude_toRunParams : (t.prelude env).toRunParams = t.toRunParams := by
  obtain ⟨_, _, _, _, _, h⟩ := prelude_frame env t
  rw [h]

@[simp] theorem prelude_toCursor : (t.prelude env).toCursor = t.toCursor := by
  obtain ⟨_, _, _, _, _, h⟩ := prelude_frame env t
  rw [h]

@[simp] theorem prelude_toProgress : (t.prelude env).toProgress = t.toProgress := by
  obtain ⟨_, _, _, _, _, h⟩ := prelude_frame env t
  rw [h]

@[simp] theorem prelude_in_quiet : (t.prelude env).in_quiet = t.in_quiet := by
  obtain ⟨_, _, _, _, _, h⟩ := prelude_frame env t
  rw [h]

@[simp] theorem prelude_quiet_override : (t.prelude env).quiet_override = t.quiet_override := by
  obtain ⟨_, _, _, _, _, h⟩ := prelude_frame env t
  rw [h]

@[simp] theorem prelude_injected : (t.prelude env).injected = t.injected := by
  obtain ⟨_, _, _, _, _, h⟩ := prelude_frame env t
  rw [h]

end Prelude

end DuneWeaver.Tick

namespace DuneWeaver

/-- What a call starts from once its prelude is done. -/
def Playlist.begun (env : Env) (p : Playlist) : Tick := Tick.prelude env { toPlaylist := p }

theorem pollLine_eq (env : Env) (p : Playlist) : pollLine env p = (p.begun env).dispatch env := rfl

/-- The call consumes a run request. -/
def Playlist.TakesRun (env : Env) (p : Playlist) : Prop :=
  (p.begun env).req_run ∧ ¬ (p.begun env).req_stop

instance (env : Env) (p : Playlist) : Decidable (p.TakesRun env) := inferInstanceAs (Decidable (_ ∧ _))

/-- The call finds no request to consume, and goes on to the phase. -/
def Playlist.Undisturbed (env : Env) (p : Playlist) : Prop :=
  (p.begun env).req_stop = false ∧ (p.begun env).req_run = false

/-- What the consumed request names can be started: a single pattern always,
a playlist when it loads. -/
def Playlist.RunLoads (env : Env) (p : Playlist) : Prop :=
  (p.begun env).req_single ∨
    (((p.begun env).takeRequest env).loadPlaylist env (p.begun env).req_name).2

end DuneWeaver
