import DuneWeaver.Playlist.Spec

namespace DuneWeaver.Tick

/-- The path of the current slot is at hand: it was cached, or has just been
read back. -/
inductive Resolved (env : Env) (t : Tick) : Tick → Prop
  | cached (hcached : t.resolved_index = some t.index) : Resolved env t t
  | read (hstale : t.resolved_index ≠ some t.index) {u : Tick}
      (hread : t.resolveCurrent env 0 = some u) :
      Resolved env t { u with resolved_index := some u.index }

/-- The tick with which `NextItem` hands over a clear. -/
def injectClear (env : Env) (t : Tick) : Tick :=
  let clear_speed := env.settings.clear_speed
  let t := { t with pending_clear := t.clearFileFor env 1 t.current_path, clear_done := true }
  inject env t.pending_clear .RunClear { t with
    toThetaRho := t.toThetaRho.setClearFeed (if clear_speed > 0 then clear_speed else -1) }

/-- The tick with which `NextItem` hands over a pattern, after the decision on
its clear has been made. -/
def injectPattern (env : Env) (pending_clear : Bytes) (t : Tick) : Tick :=
  inject env t.current_path .RunPattern
    { t with pending_clear := pending_clear, clear_done := true, pattern_start_ms := env.now }

/-- `NextItem` outside an alarm, with what the quiet-hours gate makes of it. -/
structure AtGate (env : Env) (t u : Tick) (ok : Bool) : Prop where
  phase : t.phase = .NextItem
  safe : inAlarmState env.state = false
  gate : t.quietGate env = (u, ok)

/-- No skip is pending, and a line can be handed over to an idle table. -/
structure Ready (env : Env) (t : Tick) : Prop where
  skip : t.req_skip = false
  line : env.line = true
  idle : env.state = .Idle
  job : env.job_active = false

/-- Everything the switch can do in one call, with the tests that lead there. -/
inductive Turn (env : Env) (t : Tick) : Tick → Prop
  | canceled (hphase : t.phase ≠ .Off) (halarm : t.phase = .NextItem → inAlarmState env.state = true) :
      Turn env t (t.finish env)
  | waited (hphase : t.phase ≠ .Off) (hnext : t.phase ≠ .NextItem) : Turn env t t
  | gated {u : Tick} (hgate : AtGate env t u false) : Turn env t u
  | deferred {u : Tick} (hgate : AtGate env t u true) (hskip : u.req_skip = false)
      (hbusy : env.line = false ∨ env.state ≠ .Idle ∨ env.job_active = true) : Turn env t u
  | skipped {u : Tick} (hgate : AtGate env t u true) (hskip : u.req_skip = true) :
      Turn env t (advanceIndex env { u with req_skip := false, since_home := u.since_home + 1 }).1
  | home {u : Tick} (hgate : AtGate env t u true) (hready : Ready env u) (hsingle : u.single = false) :
      Turn env t
        { u.emit .start_home with phase := .Homing, job_seen := false, inject_ms := env.now }
  | unreadableEnd {u : Tick} (hgate : AtGate env t u true) (hready : Ready env u)
      (hstale : u.resolved_index ≠ some u.index) (hread : u.resolveCurrent env 0 = none) :
      Turn env t (finish env { u with consec_fail := u.consec_fail + 1 })
  | unreadable {u : Tick} (hgate : AtGate env t u true) (hready : Ready env u)
      (hstale : u.resolved_index ≠ some u.index) (hread : u.resolveCurrent env 0 = none) :
      Turn env t (advanceIndex env { u with consec_fail := u.consec_fail + 1 }).1
  | clear {u v : Tick} (hgate : AtGate env t u true) (hready : Ready env u)
      (hresolved : Resolved env u v) : Turn env t (v.injectClear env)
  | pattern {u v : Tick} (hgate : AtGate env t u true) (hready : Ready env u)
      (hresolved : Resolved env u v) (pending_clear : Bytes) :
      Turn env t (v.injectPattern env pending_clear)
  | homeSeen (hphase : t.phase = .Homing) : Turn env t { t with job_seen := true }
  | homed (hphase : t.phase = .Homing) (hidle : env.state = .Idle) :
      Turn env t { t with since_home := 0, phase := .NextItem }
  | skipRun (hphase : t.phase = .RunClear ∨ t.phase = .RunPattern)
      (hsafe : inAlarmState env.state = false) (hskip : t.req_skip = true) :
      Turn env t (stopJob env { t with req_skip := false, skip_active := true })
  | jobSeen (hphase : t.phase = .RunClear ∨ t.phase = .RunPattern) (hskip : t.req_skip = false)
      (hjob : env.job_active = true) :
      Turn env t { t with
        job_seen := true
        consec_fail := if t.phase = .RunPattern then 0 else t.consec_fail }
  | notStarted (hphase : t.phase = .RunClear ∨ t.phase = .RunPattern) (hskip : t.req_skip = false)
      (hseen : t.job_seen = false) (hjob : env.job_active = false)
      (hlate : env.now - t.inject_ms > INJECT_TIMEOUT_MS) : Turn env t (t.startFailed env)
  | cleared (hphase : t.phase = .RunClear) (hskip : t.req_skip = false) (hseen : t.job_seen = true)
      (hjob : env.job_active = false) (hidle : env.state = .Idle) : Turn env t (t.clearDone env)
  | drawn (hphase : t.phase = .RunPattern) (hskip : t.req_skip = false) (hseen : t.job_seen = true)
      (hjob : env.job_active = false) (hidle : env.state = .Idle) : Turn env t (t.patternDone env)
  | pauseSkipped (hphase : t.phase = .Pausing) (hskip : t.req_skip = true) :
      Turn env t { t with req_skip := false, phase := .NextItem }
  | paused (hphase : t.phase = .Pausing) : Turn env t { t with phase := .NextItem }

theorem injectItem_cases (env : Env) (t : Tick) :
    (t.clear_done = false ∧ t.injectItem env = t.injectClear env) ∨
      ∃ pending_clear, t.injectItem env = t.injectPattern env pending_clear := by
  unfold injectItem
  by_cases hdone : t.clear_done
  · right
    refine ⟨t.pending_clear, ?_⟩
    have hsame : { t with clear_done := true } = t := by rw [← hdone]
    rw [if_neg (not_not.mpr hdone)]
    unfold injectPattern
    rw [← hsame]
    rfl
  · rw [if_pos hdone]
    dsimp only
    by_cases hclear : t.clearFileFor env 1 t.current_path ≠ []
    · left
      rw [if_pos hclear]
      exact ⟨eq_false_of_ne_true hdone, rfl⟩
    · right
      rw [if_neg hclear]
      exact ⟨_, rfl⟩

variable {env : Env} {t : Tick}

/-- Once a line may be handed over, the slot is resolved and its clear or its
pattern goes out, or the slot is unreadable. -/
private theorem playItem_turn {u : Tick} (hgate : AtGate env t u true) (hready : Ready env u) :
    Turn env t (u.playItem env) := by
  have hitem {v : Tick} (hresolved : Resolved env u v) : Turn env t (v.injectItem env) := by
    obtain ⟨_, hclear⟩ | ⟨pending_clear, hpattern⟩ := injectItem_cases env v
    · rw [hclear]
      exact .clear hgate hready hresolved
    · rw [hpattern]
      exact .pattern hgate hready hresolved pending_clear
  unfold playItem
  by_cases hstale : u.resolved_index ≠ some u.index
  · rw [if_pos hstale]
    cases hread : u.resolveCurrent env 0 with
    | none =>
      dsimp only
      split_ifs
      · exact .unreadableEnd hgate hready hstale hread
      · exact .unreadable hgate hready hstale hread
    | some w => exact hitem (.read hstale hread)
  · rw [if_neg hstale]
    exact hitem (.cached (not_not.mp hstale))

private theorem nextItem_turn (hphase : t.phase = .NextItem) : Turn env t (t.nextItem env) := by
  unfold nextItem
  by_cases halarm : inAlarmState env.state
  · rw [if_pos halarm]
    exact .canceled (by simp [hphase]) fun _ => halarm
  · rw [if_neg halarm]
    cases hopen : t.quietGate env with
    | mk u ok =>
      have hgate : AtGate env t u ok := ⟨hphase, eq_false_of_ne_true halarm, hopen⟩
      cases ok with
      | false => exact .gated hgate
      | true =>
        dsimp only
        by_cases hskip : u.req_skip
        · rw [if_pos hskip]
          exact .skipped hgate hskip
        · rw [if_neg hskip]
          have hnoSkip := eq_false_of_ne_true hskip
          by_cases hbusy : ¬ env.line ∨ env.state ≠ .Idle ∨ env.job_active
          · rw [if_pos hbusy]
            exact .deferred hgate hnoSkip (by simpa using hbusy)
          · rw [if_neg hbusy]
            obtain ⟨hline, hidle, hjob⟩ : env.line = true ∧ env.state = .Idle ∧ env.job_active = false := by
              simpa using hbusy
            have hready : Ready env u := ⟨hnoSkip, hline, hidle, hjob⟩
            split_ifs with hhome
            · exact .home hgate hready (by simpa using hhome.1)
            · exact playItem_turn hgate hready

private theorem homing_turn (hphase : t.phase = .Homing) : Turn env t (t.homing env) := by
  have hon : t.phase ≠ .Off := by simp [hphase]
  have hnext : t.phase ≠ .NextItem := by simp [hphase]
  unfold homing
  split_ifs with _ _ hidle
  · exact .canceled hon fun hat => absurd hat hnext
  · exact .homed hphase hidle
  · exact .canceled hon fun hat => absurd hat hnext
  · exact .waited hon hnext
  · exact .homeSeen hphase
  · exact .canceled hon fun hat => absurd hat hnext
  · exact .waited hon hnext

private theorem running_turn (hphase : t.phase = .RunClear ∨ t.phase = .RunPattern) :
    Turn env t (t.running env) := by
  have hon : t.phase ≠ .Off := by rcases hphase with h | h <;> simp [h]
  have hnext : t.phase ≠ .NextItem := by rcases hphase with h | h <;> simp [h]
  unfold running
  by_cases halarm : inAlarmState env.state
  · rw [if_pos halarm]
    exact .canceled hon fun hat => absurd hat hnext
  rw [if_neg halarm]
  by_cases hskip : t.req_skip
  · rw [if_pos hskip]
    exact .skipRun hphase (eq_false_of_ne_true halarm) hskip
  rw [if_neg hskip]
  have hnoSkip := eq_false_of_ne_true hskip
  by_cases hseen : t.job_seen
  · rw [if_neg (not_not.mpr hseen)]
    by_cases hended : ¬ env.job_active ∧ env.state = .Idle
    · rw [if_pos hended]
      have hjob := eq_false_of_ne_true hended.1
      by_cases hclear : t.phase = .RunClear
      · rw [if_pos hclear]
        exact .cleared hclear hnoSkip hseen hjob hended.2
      · rw [if_neg hclear]
        exact .drawn (hphase.resolve_left hclear) hnoSkip hseen hjob hended.2
    · rw [if_neg hended]
      exact .waited hon hnext
  · rw [if_pos hseen]
    by_cases hjob : env.job_active
    · rw [if_pos hjob]
      exact .jobSeen hphase hnoSkip hjob
    · rw [if_neg hjob]
      by_cases hlate : env.now - t.inject_ms > INJECT_TIMEOUT_MS
      · rw [if_pos hlate]
        exact .notStarted hphase hnoSkip (eq_false_of_ne_true hseen) (eq_false_of_ne_true hjob)
          hlate
      · rw [if_neg hlate]
        exact .waited hon hnext

private theorem pausing_turn (hphase : t.phase = .Pausing) : Turn env t (t.pausing env) := by
  unfold pausing
  split_ifs with hskip
  · exact .pauseSkipped hphase hskip
  · exact .paused hphase
  · exact .waited (by simp [hphase]) (by simp [hphase])

/-- The switch does nothing but what `Turn` lists. -/
theorem phaseStep_turn (hon : t.phase ≠ .Off) : Turn env t (t.phaseStep env) := by
  unfold phaseStep
  cases hphase : t.phase with
  | Off => exact absurd hphase hon
  | NextItem => exact nextItem_turn hphase
  | Homing => exact homing_turn hphase
  | RunClear => exact running_turn (.inl hphase)
  | RunPattern => exact running_turn (.inr hphase)
  | Pausing => exact pausing_turn hphase

theorem advanceIndex_injected : (t.advanceIndex env).1.injected = t.injected := by
  obtain ⟨u, hslot, hadvance⟩ | ⟨u, hkin, hadvance⟩ := t.advanceIndex_cases env
  · rw [hadvance]
    exact hslot.kin.injected
  · rw [hadvance, finish_injected]
    exact hkin.injected

theorem nextSlot_injected : (t.nextSlot env).injected = t.injected := by
  obtain ⟨u, hslot, hnext⟩ | ⟨u, hkin, hnext⟩ := t.nextSlot_cases env
  · rw [hnext]
    exact hslot.kin.injected
  · rw [hnext, finish_injected]
    exact hkin.injected

/-- A line is handed over only by an open gate on an idle table, and then it is
the clear or the pattern of the current slot. -/
theorem Turn.injected_cases {u : Tick} (h : Turn env t u) :
    u.injected = t.injected ∨ (∃ v w, AtGate env t v true ∧ Ready env v ∧ Resolved env v w ∧
      (u = w.injectClear env ∨ ∃ pending_clear, u = w.injectPattern env pending_clear)) := by
  have hgated {v : Tick} {ok : Bool} (hgate : AtGate env t v ok) : v.injected = t.injected := by
    obtain ⟨_, _, _, rfl⟩ := quietGate_frame hgate.gate
    rfl
  cases h with
  | canceled => exact .inl (finish_injected env t)
  | waited => exact .inl rfl
  | gated hgate => exact .inl (hgated hgate)
  | deferred hgate => exact .inl (hgated hgate)
  | skipped hgate =>
    have hsame := hgated hgate
    exact .inl (advanceIndex_injected.trans hsame)
  | home hgate =>
    have hsame := hgated hgate
    exact .inl hsame
  | unreadableEnd hgate =>
    have hsame := hgated hgate
    exact .inl ((finish_injected env _).trans hsame)
  | unreadable hgate =>
    have hsame := hgated hgate
    exact .inl (advanceIndex_injected.trans hsame)
  | clear hgate hready hresolved => exact .inr ⟨_, _, hgate, hready, hresolved, .inl rfl⟩
  | pattern hgate hready hresolved pending_clear =>
    exact .inr ⟨_, _, hgate, hready, hresolved, .inr ⟨pending_clear, rfl⟩⟩
  | homeSeen => exact .inl rfl
  | homed => exact .inl rfl
  | skipRun => exact .inl (stopJob_injected env _)
  | jobSeen => exact .inl rfl
  | notStarted =>
    obtain ⟨v, hkin, _, hfailed | hfailed⟩ := startFailed_cases env t
    · rw [hfailed, finish_injected]
      exact .inl hkin.injected
    · rw [hfailed, nextSlot_injected]
      exact .inl hkin.injected
  | cleared =>
    obtain ⟨v, hkin, _, ⟨hdone, _⟩ | ⟨_, hdone⟩⟩ := clearDone_cases env t
    · rw [hdone]
      exact .inl hkin.injected
    · rw [hdone, nextSlot_injected]
      exact .inl hkin.injected
  | drawn =>
    obtain ⟨v, w, hslot, hkin, _, _, hdone⟩ | ⟨v, hkin, hdone⟩ := patternDone_cases env t
    · rw [hdone]
      exact .inl (hkin.injected.trans hslot.kin.injected)
    · rw [hdone, finish_injected]
      exact .inl hkin.injected
  | pauseSkipped => exact .inl rfl
  | paused => exact .inl rfl

/-- The run goes on without anything being sent. -/
structure WentOn (t u : Tick) : Prop where
  on : u.phase ≠ .Off
  held : u.quiet_held = t.quiet_held
  sent : u.sent = t.sent

/-- The run has ended, and its hold, if there was one, with it. -/
structure Ended (t u : Tick) : Prop where
  off : u.phase = .Off
  held : u.quiet_held = false
  sent : u.sent = t.sent ++ if t.quiet_held then [.send .cycleStart] else []

theorem Kin.ended {u : Tick} (h : Kin t u) : Ended t (u.finish env) := by
  refine ⟨finish_phase env u, finish_quiet_held env u, ?_⟩
  rw [finish_sent, h.sent, h.quiet_held]

theorem Kin.wentOn {u : Tick} (h : Kin t u) (hon : u.phase ≠ .Off) : WentOn t u :=
  ⟨hon, h.quiet_held, h.sent⟩

theorem advanceIndex_outcome (hon : t.phase ≠ .Off) :
    WentOn t (t.advanceIndex env).1 ∨ Ended t (t.advanceIndex env).1 := by
  obtain ⟨u, hslot, hadvance⟩ | ⟨u, hkin, hadvance⟩ := t.advanceIndex_cases env
  · rw [hadvance]
    exact .inl (hslot.kin.wentOn (hslot.phase_eq ▸ hon))
  · rw [hadvance]
    exact .inr hkin.ended

theorem nextSlot_outcome : WentOn t (t.nextSlot env) ∨ Ended t (t.nextSlot env) := by
  obtain ⟨u, hslot, hnext⟩ | ⟨u, hkin, hnext⟩ := t.nextSlot_cases env
  · rw [hnext]
    have hkin := hslot.kin
    exact .inl ⟨(by decide : Phase.NextItem ≠ .Off), hkin.quiet_held, hkin.sent⟩
  · rw [hnext]
    exact .inr hkin.ended

/-- A turn goes on silently or ends the run, unless it requests a home or
consumes the skip of a running job. -/
theorem Turn.outcome {u : Tick} (h : Turn env t u) : WentOn t u ∨ Ended t u ∨
    (u.phase = .Homing ∧ u.single = false ∧ u.quiet_held = t.quiet_held ∧ u.sent = t.sent ++ [.start_home]) ∨
    ((t.phase = .RunClear ∨ t.phase = .RunPattern) ∧ inAlarmState env.state = false ∧ t.req_skip = true ∧
      u = stopJob env { t with req_skip := false, skip_active := true }) := by
  have hsame {v w : Tick} (hsent : v.sent = t.sent) (hheld : v.quiet_held = t.quiet_held)
      (hout : WentOn v w ∨ Ended v w) : WentOn t w ∨ Ended t w := by
    rcases hout with hout | hout
    · exact .inl ⟨hout.on, hout.held.trans hheld, hout.sent.trans hsent⟩
    · refine .inr ⟨hout.off, hout.held, ?_⟩
      rw [hout.sent, hsent, hheld]
  have hkept {v w : Tick} (hkin : Kin t v) (hout : WentOn v w ∨ Ended v w) : WentOn t w ∨ Ended t w :=
    hsame hkin.sent hkin.quiet_held hout
  have hgated {v : Tick} {ok : Bool} (hgate : AtGate env t v ok) :
      v.sent = t.sent ∧ v.quiet_held = t.quiet_held ∧ v.phase ≠ .Off := by
    have hon : t.phase ≠ .Off := by simp [hgate.phase]
    obtain ⟨_, _, _, rfl⟩ := quietGate_frame hgate.gate
    exact ⟨rfl, rfl, hon⟩
  have hresume {v w : Tick} (hresolved : Resolved env v w) : w.sent = v.sent ∧ w.quiet_held = v.quiet_held := by
    cases hresolved with
    | cached => exact ⟨rfl, rfl⟩
    | read _ hread =>
      rw [resolveCurrent_eq hread]
      exact ⟨rfl, rfl⟩
  have hlift {w : Tick} {A B : Prop} (hout : WentOn t w ∨ Ended t w) :
      WentOn t w ∨ Ended t w ∨ A ∨ B := hout.elim .inl (.inr ∘ .inl)
  cases h with
  | canceled =>
    have hkin : Kin t t := rfl
    exact .inr (.inl hkin.ended)
  | waited hon => exact .inl ⟨hon, rfl, rfl⟩
  | gated hgate =>
    obtain ⟨hsent, hheld, hon⟩ := hgated hgate
    exact .inl ⟨hon, hheld, hsent⟩
  | deferred hgate =>
    obtain ⟨hsent, hheld, hon⟩ := hgated hgate
    exact .inl ⟨hon, hheld, hsent⟩
  | skipped hgate =>
    obtain ⟨hsent, hheld, hon⟩ := hgated hgate
    refine hlift (hsame ?_ ?_ (advanceIndex_outcome ?_))
    · exact hsent
    · exact hheld
    · exact hon
  | home hgate _ hsingle =>
    obtain ⟨hsent, hheld, _⟩ := hgated hgate
    exact .inr (.inr (.inl ⟨rfl, hsingle, hheld, congrArg (· ++ _) hsent⟩))
  | unreadableEnd hgate =>
    obtain ⟨hsent, hheld, _⟩ := hgated hgate
    refine hlift (hsame hsent hheld (.inr (Kin.ended ?_)))
    exact rfl
  | unreadable hgate =>
    obtain ⟨hsent, hheld, hon⟩ := hgated hgate
    refine hlift (hsame ?_ ?_ (advanceIndex_outcome ?_))
    · exact hsent
    · exact hheld
    · exact hon
  | clear hgate _ hresolved =>
    obtain ⟨hsent, hheld, _⟩ := hgated hgate
    obtain ⟨hsent', hheld'⟩ := hresume hresolved
    exact .inl ⟨(by decide : Phase.RunClear ≠ .Off), hheld'.trans hheld, hsent'.trans hsent⟩
  | pattern hgate _ hresolved =>
    obtain ⟨hsent, hheld, _⟩ := hgated hgate
    obtain ⟨hsent', hheld'⟩ := hresume hresolved
    exact .inl ⟨(by decide : Phase.RunPattern ≠ .Off), hheld'.trans hheld, hsent'.trans hsent⟩
  | homeSeen hphase => exact .inl ⟨by simp [hphase], rfl, rfl⟩
  | homed => exact .inl ⟨(by decide : Phase.NextItem ≠ .Off), rfl, rfl⟩
  | skipRun hphase hsafe hskip => exact .inr (.inr (.inr ⟨hphase, hsafe, hskip, rfl⟩))
  | jobSeen hphase =>
    have hon : t.phase ≠ .Off := by rcases hphase with h | h <;> simp [h]
    exact .inl ⟨hon, rfl, rfl⟩
  | notStarted =>
    obtain ⟨v, hkin, _, hfailed | hfailed⟩ := startFailed_cases env t
    · rw [hfailed]
      exact .inr (.inl hkin.ended)
    · rw [hfailed]
      exact hlift (hkept hkin nextSlot_outcome)
  | cleared =>
    obtain ⟨v, hkin, _, ⟨hdone, hon⟩ | ⟨_, hdone⟩⟩ := clearDone_cases env t
    · rw [hdone]
      exact .inl (hkin.wentOn (by simp [hon]))
    · rw [hdone]
      exact hlift (hkept hkin nextSlot_outcome)
  | drawn hphase =>
    obtain ⟨v, w, hslot, hkin, _, hon, hdone⟩ | ⟨v, hkin, hdone⟩ := patternDone_cases env t
    · rw [hdone]
      have hslotKin := hslot.kin
      have hheld : w.quiet_held = t.quiet_held := hkin.quiet_held.trans hslotKin.quiet_held
      exact .inl ⟨by rcases hon with h | h <;> simp [h], hheld, hkin.sent.trans hslotKin.sent⟩
    · rw [hdone]
      have hended := @Kin.ended env _ _ hkin
      exact .inr (.inl ⟨hended.off, hended.held, hended.sent⟩)
  | pauseSkipped => exact .inl ⟨(by decide : Phase.NextItem ≠ .Off), rfl, rfl⟩
  | paused => exact .inl ⟨(by decide : Phase.NextItem ≠ .Off), rfl, rfl⟩

/-- The four ways through a call once its prelude is done. -/
theorem dispatch_cases (env : Env) (t : Tick) :
    (t.phase = .Off ∧ t.req_run = false ∧ t.req_stop = false ∧
      t.dispatch env = { t with toThetaRho := t.toThetaRho.flushFeedLive env.state }) ∨
    (t.req_stop = true ∧ t.dispatch env = t.consumeStop env) ∨
    (t.req_stop = false ∧ t.req_run = true ∧ t.dispatch env = t.consumeRun env) ∨
    (t.req_stop = false ∧ t.req_run = false ∧ t.phase ≠ .Off ∧ ∃ u, t.phaseStep env = u ∧
      Turn env t u ∧ t.dispatch env = if u.injected = none then u.publish else u) := by
  unfold dispatch
  by_cases hidle : t.phase = .Off ∧ ¬ t.req_run ∧ ¬ t.req_stop
  · rw [if_pos hidle]
    exact .inl ⟨hidle.1, eq_false_of_ne_true hidle.2.1, eq_false_of_ne_true hidle.2.2, rfl⟩
  · rw [if_neg hidle]
    by_cases hstop : t.req_stop
    · rw [if_pos hstop]
      exact .inr (.inl ⟨hstop, rfl⟩)
    · rw [if_neg hstop]
      by_cases hrun : t.req_run
      · rw [if_pos hrun]
        exact .inr (.inr (.inl ⟨eq_false_of_ne_true hstop, hrun, rfl⟩))
      · rw [if_neg hrun]
        have hon : t.phase ≠ .Off := fun hoff => hidle ⟨hoff, hrun, hstop⟩
        exact .inr (.inr (.inr ⟨eq_false_of_ne_true hstop, eq_false_of_ne_true hrun, hon,
          _, rfl, phaseStep_turn hon, rfl⟩))

/-- The snapshot apart, a call ends as its turn does. -/
theorem turn_closed (u : Tick) : ∃ published,
    (if u.injected = none then u.publish else u) = { u with toPublished := published } := by
  split_ifs
  · exact u.publish_frame
  · exact ⟨_, rfl⟩

theorem consumeStop_injected : (t.consumeStop env).injected = t.injected := by
  unfold consumeStop
  dsimp only
  split_ifs
  · simp [publish]
  · rfl

theorem consumeRun_injected : (t.consumeRun env).injected = t.injected := by
  obtain ⟨cursor, since_home, hload, _⟩ := loadPlaylist_frame env t.req_name (t.takeRequest env)
  obtain ⟨_, hconsumed⟩ | ⟨_, _, hconsumed⟩ | ⟨_, _, hconsumed⟩ := consumeRun_cases env t
  · rw [hconsumed, takeRequest_eq]
    rfl
  · rw [hconsumed, hload, takeRequest_eq]
  · rw [hconsumed, finish_injected, hload, takeRequest_eq]

end DuneWeaver.Tick

namespace DuneWeaver

open Tick

/-- A call hands over a line only when no request disturbs it and the gate of
`NextItem` is open on an idle table. The line is the clear or the pattern of
the current slot. -/
theorem pollLine_injected {env : Env} {p : Playlist} (h : (pollLine env p).injected ≠ none) :
    p.Undisturbed env ∧ ∃ v w, AtGate env (p.begun env) v true ∧ Ready env v ∧ Resolved env v w ∧
      (pollLine env p = w.injectClear env ∨
        ∃ pending_clear, pollLine env p = w.injectPattern env pending_clear) := by
  have hnone : (p.begun env).injected = none := prelude_injected env _
  rw [pollLine_eq] at h ⊢
  obtain ⟨_, _, _, hdone⟩ | ⟨_, hdone⟩ | ⟨_, _, hdone⟩ | ⟨hstop, hrun, _, u, _, hturn, hdone⟩ :=
    dispatch_cases env (p.begun env)
  · rw [hdone] at h
    exact absurd hnone h
  · rw [hdone, consumeStop_injected] at h
    exact absurd hnone h
  · rw [hdone, consumeRun_injected] at h
    exact absurd hnone h
  · obtain ⟨published, hclosed⟩ := turn_closed u
    have hline : u.injected ≠ none := by
      rw [hdone, hclosed] at h
      exact h
    rw [hdone, if_neg hline]
    obtain hsame | ⟨v, w, hgate, hready, hresolved, hinject⟩ := hturn.injected_cases
    · exact absurd (hsame.trans hnone) hline
    · exact ⟨⟨hstop, hrun⟩, v, w, hgate, hready, hresolved, hinject⟩

end DuneWeaver
