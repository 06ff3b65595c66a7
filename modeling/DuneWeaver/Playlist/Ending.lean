import DuneWeaver.Playlist.Turn

namespace DuneWeaver

namespace Tick

/-- The reason that `advanceIndex` gives for the end of the run, if it ends it. -/
def advanceWhy (env : Env) (t : Tick) : Option Bytes :=
  if t.order.length ≤ t.index + 1 then
    if ¬ t.single ∧ t.runMode env = MODE_LOOP then none else some (bytes "complete")
  else none

def playItemWhy (env : Env) (t : Tick) : Option Bytes :=
  if t.resolved_index ≠ some t.index ∧ t.resolveCurrent env 0 = none then
    if t.consec_fail + 1 ≥ MAX_CONSEC_FAIL then some (bytes "canceled: playlist read error (see log)")
    else t.advanceWhy env
  else none

def nextItemWhy (env : Env) (t : Tick) : Option Bytes :=
  if inAlarmState env.state then some (bytes "canceled by alarm")
  else
    match t.quietGate env with
    | (_, false) => none
    | (t, true) =>
      if t.req_skip then t.advanceWhy env
      else if ¬ env.line ∨ env.state ≠ .Idle ∨ env.job_active then none
      else if ¬ t.single ∧ env.settings.auto_home > 0 ∧ t.since_home ≥ env.settings.auto_home then none
      else t.playItemWhy env

def homingWhy (env : Env) (t : Tick) : Option Bytes :=
  if env.state = .Alarm ∨ env.state = .Critical then some (bytes "canceled: homing failed")
  else if ¬ t.job_seen then
    if env.state = .Homing ∨ env.state = .Jog then none
    else if env.now - t.inject_ms > INJECT_TIMEOUT_MS then some (bytes "canceled: homing did not start")
    else none
  else if env.state = .Idle then none
  else if env.now - t.inject_ms > HOMING_TIMEOUT_MS then some (bytes "canceled: homing timed out")
  else none

def startFailedWhy (env : Env) (t : Tick) : Option Bytes :=
  if t.single then some (bytes "canceled: file did not start (see log)")
  else if t.consec_fail + 1 ≥ MAX_CONSEC_FAIL then
    some (bytes "canceled: too many unplayable patterns in a row (see log)")
  else t.advanceWhy env

def runningWhy (env : Env) (t : Tick) : Option Bytes :=
  if inAlarmState env.state then some (bytes "canceled by alarm/reset")
  else if t.req_skip then none
  else if ¬ t.job_seen then
    if env.job_active then none
    else if env.now - t.inject_ms > INJECT_TIMEOUT_MS then t.startFailedWhy env
    else none
  else if ¬ env.job_active ∧ env.state = .Idle then
    if t.phase = .RunClear then if t.skip_active then t.advanceWhy env else none else t.advanceWhy env
  else none

/-- The reason that the switch gives for the end of the run. -/
def phaseWhy (env : Env) (t : Tick) : Option Bytes :=
  match t.phase with
  | .Off => none
  | .NextItem => t.nextItemWhy env
  | .Homing => t.homingWhy env
  | .RunClear => t.runningWhy env
  | .RunPattern => t.runningWhy env
  | .Pausing => none

variable {env : Env} {t : Tick}

theorem advanceWhy_isSome_iff : (t.advanceWhy env).isSome = true ↔ (t.advanceIndex env).2 = false := by
  unfold advanceWhy advanceIndex
  dsimp only
  by_cases hend : t.order.length ≤ t.index + 1
  · rw [if_pos hend, if_pos hend]
    by_cases hloop : ¬ t.single ∧ t.runMode env = MODE_LOOP
    · rw [if_pos hloop]
      have hloop' : ¬ t.single ∧ runMode env { t with index := t.index + 1, clear_done := false } = MODE_LOOP := hloop
      rw [if_pos hloop']
      exact ⟨nofun, nofun⟩
    · rw [if_neg hloop]
      have hloop' : ¬ (¬ t.single ∧ runMode env { t with index := t.index + 1, clear_done := false } = MODE_LOOP) :=
        hloop
      rw [if_neg hloop']
      exact iff_of_true rfl rfl
  · rw [if_neg hend, if_neg hend]
    exact ⟨nofun, nofun⟩

/-- The run ends with `advanceIndex` exactly if it gives a reason. -/
theorem advanceIndex_off_iff (hon : t.phase ≠ .Off) :
    (t.advanceIndex env).1.phase = .Off ↔ (t.advanceWhy env).isSome = true := by
  rw [advanceWhy_isSome_iff]
  obtain ⟨u, hslot, hadvance⟩ | ⟨u, _, hadvance⟩ := t.advanceIndex_cases env
  · rw [hadvance]
    exact iff_of_false (hslot.phase_eq ▸ hon) nofun
  · rw [hadvance]
    exact iff_of_true (finish_phase env u) rfl

theorem nextSlot_off_iff : (t.nextSlot env).phase = .Off ↔ (t.advanceWhy env).isSome = true := by
  rw [advanceWhy_isSome_iff]
  unfold nextSlot
  obtain ⟨u, _, hadvance⟩ | ⟨u, _, hadvance⟩ := t.advanceIndex_cases env
  · rw [hadvance]
    exact iff_of_false nofun nofun
  · rw [hadvance]
    exact iff_of_true (finish_phase env u) rfl

theorem finish_off_iff (env : Env) (t : Tick) (why : Bytes) :
    (t.finish env).phase = .Off ↔ (some why).isSome = true := iff_of_true (finish_phase env t) rfl

theorem on_iff {phase : Phase} (hon : phase ≠ .Off) : phase = .Off ↔ (none : Option Bytes).isSome = true :=
  iff_of_false hon nofun

theorem playItem_off_iff (hon : t.phase ≠ .Off) :
    (t.playItem env).phase = .Off ↔ (t.playItemWhy env).isSome = true := by
  have hitem (u : Tick) : (u.injectItem env).phase ≠ .Off := by
    obtain ⟨_, hclear⟩ | ⟨pending_clear, hpattern⟩ := injectItem_cases env u
    · rw [hclear]
      exact (by decide : Phase.RunClear ≠ .Off)
    · rw [hpattern]
      exact (by decide : Phase.RunPattern ≠ .Off)
  unfold playItem playItemWhy
  by_cases hstale : t.resolved_index ≠ some t.index
  · rw [if_pos hstale]
    cases hread : t.resolveCurrent env 0 with
    | none =>
      rw [if_pos (show t.resolved_index ≠ some t.index ∧ (none : Option Tick) = none from ⟨hstale, rfl⟩)]
      dsimp only
      split_ifs
      · exact finish_off_iff env _ _
      · exact advanceIndex_off_iff (t := { t with consec_fail := t.consec_fail + 1 }) hon
    | some u =>
      rw [if_neg (show ¬ (t.resolved_index ≠ some t.index ∧ some u = none) by simp)]
      exact on_iff (hitem _)
  · have hcached : ¬ (t.resolved_index ≠ some t.index ∧ t.resolveCurrent env 0 = none) := fun hboth => hstale hboth.1
    rw [if_neg hstale, if_neg hcached]
    exact on_iff (hitem t)

theorem nextItem_off_iff (hphase : t.phase = .NextItem) :
    (t.nextItem env).phase = .Off ↔ (t.nextItemWhy env).isSome = true := by
  unfold nextItem nextItemWhy
  by_cases halarm : inAlarmState env.state
  · rw [if_pos halarm, if_pos halarm]
    exact finish_off_iff env t _
  rw [if_neg halarm, if_neg halarm]
  cases hgate : t.quietGate env with
  | mk u ok =>
    obtain ⟨_, _, _, hframe⟩ := quietGate_frame hgate
    have hon : u.phase ≠ .Off := by rw [hframe]; simp [hphase]
    cases ok with
    | false => exact on_iff hon
    | true =>
      dsimp only
      by_cases hskip : u.req_skip
      · rw [if_pos hskip, if_pos hskip]
        exact advanceIndex_off_iff (t := { u with req_skip := false, since_home := u.since_home + 1 }) hon
      rw [if_neg hskip, if_neg hskip]
      by_cases hbusy : ¬ env.line ∨ env.state ≠ .Idle ∨ env.job_active
      · rw [if_pos hbusy, if_pos hbusy]
        exact on_iff hon
      rw [if_neg hbusy, if_neg hbusy]
      by_cases hdue : ¬ u.single ∧ env.settings.auto_home > 0 ∧ u.since_home ≥ env.settings.auto_home
      · rw [if_pos hdue, if_pos hdue]
        exact on_iff (by decide : Phase.Homing ≠ .Off)
      · rw [if_neg hdue, if_neg hdue]
        exact playItem_off_iff hon

theorem homing_off_iff (hphase : t.phase = .Homing) :
    (t.homing env).phase = .Off ↔ (t.homingWhy env).isSome = true := by
  have hon : t.phase ≠ .Off := by simp [hphase]
  unfold homing homingWhy
  split_ifs
  · exact finish_off_iff env t _
  · exact iff_of_false not_false nofun
  · exact finish_off_iff env t _
  · exact on_iff hon
  · exact on_iff hon
  · exact finish_off_iff env t _
  · exact on_iff hon

theorem startFailed_off_iff : (t.startFailed env).phase = .Off ↔ (t.startFailedWhy env).isSome = true := by
  unfold startFailed startFailedWhy
  dsimp only
  by_cases hsingle : t.single
  · rw [if_pos hsingle, if_pos hsingle]
    exact finish_off_iff env _ _
  rw [if_neg hsingle, if_neg hsingle]
  by_cases hclear : t.phase = .RunClear
  · rw [if_pos hclear]
    dsimp only
    split_ifs
    · exact finish_off_iff env _ _
    · exact nextSlot_off_iff
  · rw [if_neg hclear]
    dsimp only
    split_ifs
    · exact finish_off_iff env _ _
    · exact nextSlot_off_iff

theorem clearDone_off_iff (env : Env) (t : Tick) :
    (t.clearDone env).phase = .Off ↔ (if t.skip_active then t.advanceWhy env else none).isSome = true := by
  unfold clearDone
  dsimp only
  split_ifs
  · exact nextSlot_off_iff
  · exact iff_of_false not_false nofun

theorem patternDone_off_iff (env : Env) (t : Tick) :
    (t.patternDone env).phase = .Off ↔ (t.advanceWhy env).isSome = true := by
  have hwhy : t.patternEnded.advanceWhy env = t.advanceWhy env := rfl
  rw [← hwhy, advanceWhy_isSome_iff]
  obtain ⟨u, _, hadvance, ⟨_, hdone⟩ | hdone⟩ | ⟨u, _, hadvance, hdone⟩ := t.patternDone_forms env
  · rw [hdone, hadvance]
    exact iff_of_false nofun nofun
  · rw [hdone, hadvance]
    exact iff_of_false nofun nofun
  · rw [hdone, hadvance]
    exact iff_of_true (finish_phase env u) rfl

theorem running_off_iff (hphase : t.phase = .RunClear ∨ t.phase = .RunPattern) :
    (t.running env).phase = .Off ↔ (t.runningWhy env).isSome = true := by
  have hon : t.phase ≠ .Off := by rcases hphase with h | h <;> simp [h]
  unfold running runningWhy
  by_cases halarm : inAlarmState env.state
  · rw [if_pos halarm, if_pos halarm]
    exact finish_off_iff env t _
  rw [if_neg halarm, if_neg halarm]
  by_cases hskip : t.req_skip
  · rw [if_pos hskip, if_pos hskip, stopJob_eq]
    exact on_iff hon
  rw [if_neg hskip, if_neg hskip]
  by_cases hseen : t.job_seen
  · rw [if_neg (not_not.mpr hseen), if_neg (not_not.mpr hseen)]
    by_cases hended : ¬ env.job_active ∧ env.state = .Idle
    · rw [if_pos hended, if_pos hended]
      by_cases hclear : t.phase = .RunClear
      · rw [if_pos hclear, if_pos hclear]
        exact clearDone_off_iff env t
      · rw [if_neg hclear, if_neg hclear]
        exact patternDone_off_iff env t
    · rw [if_neg hended, if_neg hended]
      exact on_iff hon
  · rw [if_pos hseen, if_pos hseen]
    by_cases hjob : env.job_active
    · rw [if_pos hjob, if_pos hjob]
      exact on_iff hon
    rw [if_neg hjob, if_neg hjob]
    by_cases hlate : env.now - t.inject_ms > INJECT_TIMEOUT_MS
    · rw [if_pos hlate, if_pos hlate]
      exact startFailed_off_iff
    · rw [if_neg hlate, if_neg hlate]
      exact on_iff hon

/-- The switch ends the run exactly if it gives a reason. -/
theorem phaseStep_off_iff (hon : t.phase ≠ .Off) :
    (t.phaseStep env).phase = .Off ↔ (t.phaseWhy env).isSome = true := by
  unfold phaseStep phaseWhy
  cases hphase : t.phase with
  | Off => exact absurd hphase hon
  | NextItem => exact nextItem_off_iff hphase
  | Homing => exact homing_off_iff hphase
  | RunClear => exact running_off_iff (.inl hphase)
  | RunPattern => exact running_off_iff (.inr hphase)
  | Pausing =>
    have hpausing : (t.pausing env).phase ≠ .Off := by
      unfold pausing
      split_ifs
      · exact (by decide : Phase.NextItem ≠ .Off)
      · exact (by decide : Phase.NextItem ≠ .Off)
      · exact hon
    exact on_iff hpausing

end Tick

/-- The reason that the call gives for the end of the run, if it ends one. -/
def Playlist.why (env : Env) (p : Playlist) : Option Bytes :=
  let t := p.begun env
  if t.req_stop then if t.phase ≠ .Off then some (bytes "stopped") else none
  else if t.req_run then
    if t.req_single ∨ ((t.takeRequest env).loadPlaylist env t.req_name).2 then none
    else some (bytes "failed to load")
  else t.phaseWhy env

/-- A call gives a reason exactly if it ends a run or does not get one started. -/
theorem Playlist.why_isSome_iff (env : Env) (p : Playlist) :
    (p.why env).isSome = true ↔ (pollLine env p).phase = .Off ∧ (p.phase ≠ .Off ∨ p.TakesRun env) := by
  have hphase : (p.begun env).phase = p.phase := Tick.prelude_phase env _
  rw [pollLine_eq, ← hphase]
  unfold Playlist.why TakesRun
  generalize p.begun env = t
  dsimp only
  obtain ⟨hoff, hrun, hstop, hdone⟩ | ⟨hstop, hdone⟩ | ⟨hstop, hrun, hdone⟩ | ⟨hstop, hrun, hon, u, hstep, _, hdone⟩ :=
    Tick.dispatch_cases env t
  · rw [hdone, hrun, hstop, Tick.phaseWhy, hoff]
    simp
  · rw [hdone, hstop, Tick.consumeStop_phase]
    simp
  · rw [hdone, hstop, hrun, if_neg Bool.false_ne_true, if_pos rfl]
    obtain ⟨hsingle, hconsumed⟩ | ⟨_, hloads, hconsumed⟩ | ⟨hlist, hfails, hconsumed⟩ := Tick.consumeRun_cases env t
    · rw [if_pos (.inl hsingle), hconsumed]
      simp
    · rw [if_pos (.inr hloads), hconsumed]
      simp
    · have hnothing : ¬ (t.req_single = true ∨ ((t.takeRequest env).loadPlaylist env t.req_name).2 = true) := by
        simp [hlist, hfails]
      rw [if_neg hnothing, hconsumed]
      simp
  · obtain ⟨published, hclosed⟩ := Tick.turn_closed u
    have hoff : (t.phaseStep env).phase = .Off ↔ (t.phaseWhy env).isSome = true := Tick.phaseStep_off_iff hon
    rw [hstep] at hoff
    rw [hdone, hclosed, hstop, hrun, if_neg Bool.false_ne_true, if_neg Bool.false_ne_true, ← hoff]
    simp [hon]

end DuneWeaver
