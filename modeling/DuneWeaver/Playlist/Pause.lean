import DuneWeaver.Playlist.Isolation
import DuneWeaver.Ticks.Clock

namespace DuneWeaver

namespace Tick

variable {env : Env} {t : Tick}

/-- The pause settings and what is staged for the next run are left alone. -/
def KeepsPauses (t u : Tick) : Prop :=
  u.toRunParams = t.toRunParams ∧ u.req_ov_pause = t.req_ov_pause

theorem Kin.keepsPauses {u : Tick} (h : Kin t u) : KeepsPauses t u :=
  ⟨h.toRunParams, (congrArg (fun t : Tick => t.req_ov_pause) h :)⟩

theorem KeepsPauses.trans {u v : Tick} (h : KeepsPauses t u) (h' : KeepsPauses u v) : KeepsPauses t v :=
  ⟨h'.1.trans h.1, h'.2.trans h.2⟩

theorem finish_keepsPauses (env : Env) (t : Tick) : KeepsPauses t (t.finish env) := by
  rw [finish_eq]
  exact ⟨rfl, rfl⟩

theorem advanceIndex_keepsPauses (env : Env) (t : Tick) : KeepsPauses t (t.advanceIndex env).1 := by
  obtain ⟨u, hslot, hadvance⟩ | ⟨u, hkin, hadvance⟩ := t.advanceIndex_cases env
  · rw [hadvance]
    exact hslot.kin.keepsPauses
  · rw [hadvance]
    exact hkin.keepsPauses.trans (finish_keepsPauses env u)

theorem nextSlot_keepsPauses (env : Env) (t : Tick) : KeepsPauses t (t.nextSlot env) := by
  obtain ⟨u, hslot, hnext⟩ | ⟨u, hkin, hnext⟩ := t.nextSlot_cases env
  · rw [hnext]
    exact hslot.kin.keepsPauses
  · rw [hnext]
    exact hkin.keepsPauses.trans (finish_keepsPauses env u)

/-- What a turn makes of the drawing of a pattern and of the pause behind it:
the drawing starts with the line handed over, and the pause with its end. -/
structure Paces (env : Env) (t u : Tick) : Prop where
  keeps : KeepsPauses t u
  drawing : u.phase = .RunPattern → u.injected ≠ none ∧ u.pattern_start_ms = env.now ∨
    t.phase = .RunPattern ∧ u.pattern_start_ms = t.pattern_start_ms ∧ u.injected = t.injected
  pausing : u.phase = .Pausing → u.injected = t.injected ∧
    (t.phase = .Pausing ∧ u = t ∨ t.phase = .RunPattern ∧ u = t.patternDone env)

/-- Outside the two phases there is nothing to say. -/
private theorem paces_of_other {u : Tick} (hkeeps : KeepsPauses t u) (hdrawing : u.phase ≠ .RunPattern)
    (hpausing : u.phase ≠ .Pausing) : Paces env t u :=
  ⟨hkeeps, fun h => absurd h hdrawing, fun h => absurd h hpausing⟩

private theorem nextSlot_phase (env : Env) (t : Tick) :
    (t.nextSlot env).phase = .NextItem ∨ (t.nextSlot env).phase = .Off := by
  obtain ⟨u, -, hnext⟩ | ⟨u, -, hnext⟩ := t.nextSlot_cases env
  · rw [hnext]
    exact .inl rfl
  · rw [hnext]
    exact .inr (finish_phase env u)

private theorem advanceIndex_phase (env : Env) (t : Tick) :
    (t.advanceIndex env).1.phase = t.phase ∨ (t.advanceIndex env).1.phase = .Off := by
  obtain ⟨u, hslot, hadvance⟩ | ⟨u, -, hadvance⟩ := t.advanceIndex_cases env
  · rw [hadvance]
    exact .inl hslot.phase_eq
  · rw [hadvance]
    exact .inr (finish_phase env u)

theorem Turn.paces {u : Tick} (h : Turn env t u) : Paces env t u := by
  have hgated {v : Tick} {ok : Bool} (hgate : AtGate env t v ok) : KeepsPauses t v ∧ v.phase = .NextItem := by
    have hphase := hgate.phase
    obtain ⟨_, _, _, rfl⟩ := quietGate_frame hgate.gate
    exact ⟨⟨rfl, rfl⟩, hphase⟩
  have hresolve {v w : Tick} (hresolved : Resolved env v w) : KeepsPauses v w := by
    cases hresolved with
    | cached => exact ⟨rfl, rfl⟩
    | read _ hread =>
      rw [resolveCurrent_eq hread]
      exact ⟨rfl, rfl⟩
  have hended (v : Tick) (hkeeps : KeepsPauses t v) : Paces env t (v.finish env) :=
    paces_of_other (hkeeps.trans (finish_keepsPauses env v)) (by simp) (by simp)
  have hadvanced (v : Tick) (hkeeps : KeepsPauses t v) (hphase : v.phase = .NextItem) :
      Paces env t (v.advanceIndex env).1 := by
    have hafter := advanceIndex_phase env v
    rw [hphase] at hafter
    apply paces_of_other (hkeeps.trans (advanceIndex_keepsPauses env v))
    · rcases hafter with h | h <;> simp [h]
    · rcases hafter with h | h <;> simp [h]
  have hmoved (v : Tick) (hkeeps : KeepsPauses t v) : Paces env t (v.nextSlot env) := by
    have hafter := nextSlot_phase env v
    apply paces_of_other (hkeeps.trans (nextSlot_keepsPauses env v))
    · rcases hafter with h | h <;> simp [h]
    · rcases hafter with h | h <;> simp [h]
  cases h with
  | canceled => exact hended t ⟨rfl, rfl⟩
  | waited => exact ⟨⟨rfl, rfl⟩, fun h => .inr ⟨h, rfl, rfl⟩, fun h => ⟨rfl, .inl ⟨h, rfl⟩⟩⟩
  | gated hgate =>
    obtain ⟨hkeeps, hphase⟩ := hgated hgate
    exact paces_of_other hkeeps (by simp [hphase]) (by simp [hphase])
  | deferred hgate =>
    obtain ⟨hkeeps, hphase⟩ := hgated hgate
    exact paces_of_other hkeeps (by simp [hphase]) (by simp [hphase])
  | skipped hgate =>
    obtain ⟨hkeeps, hphase⟩ := hgated hgate
    exact hadvanced _ hkeeps hphase
  | home hgate =>
    obtain ⟨hkeeps, -⟩ := hgated hgate
    exact paces_of_other hkeeps (by simp) (by simp)
  | unreadableEnd hgate =>
    obtain ⟨hkeeps, -⟩ := hgated hgate
    exact hended _ hkeeps
  | unreadable hgate =>
    obtain ⟨hkeeps, hphase⟩ := hgated hgate
    exact hadvanced _ hkeeps hphase
  | clear hgate _ hresolved =>
    obtain ⟨hkeeps, -⟩ := hgated hgate
    have hresume := hkeeps.trans (hresolve hresolved)
    exact paces_of_other hresume (by simp [injectClear, inject]) (by simp [injectClear, inject])
  | pattern hgate _ hresolved =>
    obtain ⟨hkeeps, -⟩ := hgated hgate
    have hresume := hkeeps.trans (hresolve hresolved)
    exact ⟨hresume, fun _ => .inl ⟨Option.some_ne_none _, rfl⟩, fun h => absurd h (by simp [injectPattern, inject])⟩
  | homeSeen hphase => exact paces_of_other ⟨rfl, rfl⟩ (by simp [hphase]) (by simp [hphase])
  | homed => exact paces_of_other ⟨rfl, rfl⟩ (by simp) (by simp)
  | skipRun hphase =>
    refine ⟨by rw [stopJob_eq]; exact ⟨rfl, rfl⟩, ?_, ?_⟩
    · intro hdrawing
      rw [stopJob_eq] at hdrawing ⊢
      exact .inr ⟨hdrawing, rfl, rfl⟩
    · intro hpausing
      rw [stopJob_eq] at hpausing
      rcases hphase with h | h <;> simp [h] at hpausing
  | jobSeen hphase =>
    refine ⟨⟨rfl, rfl⟩, fun h => .inr ⟨h, rfl, rfl⟩, ?_⟩
    intro hpausing
    rcases hphase with h | h <;> simp [h] at hpausing
  | notStarted =>
    obtain ⟨v, hkin, _, hfailed | hfailed⟩ := startFailed_cases env t
    · rw [hfailed]
      exact hended v hkin.keepsPauses
    · rw [hfailed]
      exact hmoved v hkin.keepsPauses
  | cleared =>
    obtain ⟨v, hkin, _, ⟨hdone, hphase⟩ | ⟨_, hdone⟩⟩ := clearDone_cases env t
    · rw [hdone]
      exact paces_of_other hkin.keepsPauses (by simp [hphase]) (by simp [hphase])
    · rw [hdone]
      exact hmoved v hkin.keepsPauses
  | drawn hphase =>
    have hkept : KeepsPauses t t.patternEnded := ⟨rfl, rfl⟩
    obtain ⟨v, w, hslot, hkin, _, hafter, hdone⟩ | ⟨v, hkin, hdone⟩ := patternDone_cases env t
    · have hkeeps := (hkept.trans hslot.kin.keepsPauses).trans hkin.keepsPauses
      have hsilent : (t.patternDone env).injected = t.injected := by
        rw [hdone]
        exact hkin.injected.trans hslot.kin.injected
      refine ⟨hdone ▸ hkeeps, ?_, fun _ => ⟨hsilent, .inr ⟨hphase, rfl⟩⟩⟩
      rw [hdone]
      intro hdrawing
      rcases hafter with h | h <;> simp [h] at hdrawing
    · rw [hdone]
      exact hended v (hkept.trans hkin.keepsPauses)
  | pauseSkipped => exact paces_of_other ⟨rfl, rfl⟩ (by simp) (by simp)
  | paused => exact paces_of_other ⟨rfl, rfl⟩ (by simp) (by simp)

/-- The pause in milliseconds, as long as the setting is within its bounds. -/
theorem pauseMs_toNat (hlow : 0 ≤ t.runPause env) (hhigh : t.runPause env ≤ 86400) :
    (t.pauseMs env).toNat =
      if t.skip_active then 0
      else if t.runPauseFromStart env ≠ 0 then
        (t.runPause env).toNat * 1000 - (env.now - t.pattern_start_ms).toNat
      else (t.runPause env).toNat * 1000 := by
  have hsetting : (UInt32.ofInt (t.runPause env) * 1000).toNat = (t.runPause env).toNat * 1000 := by
    obtain ⟨n, hn⟩ := Int.eq_ofNat_of_zero_le hlow
    rw [hn] at hhigh ⊢
    have hword : (UInt32.ofInt (n : Int)).toNat = n := by
      rw [UInt32.ofInt, UInt32.toNat_ofNat']
      omega
    rw [UInt32.toNat_mul, hword]
    exact Nat.mod_eq_of_lt (show n * 1000 < 2 ^ 32 by omega)
  unfold pauseMs
  generalize UInt32.ofInt (t.runPause env) * 1000 = pause_ms at hsetting
  dsimp only
  rw [← hsetting]
  by_cases hskip : t.skip_active
  · rw [if_pos hskip, if_pos hskip]
    rfl
  · rw [if_neg hskip, if_neg hskip]
    by_cases hstart : t.runPauseFromStart env ≠ 0
    · rw [if_pos hstart, if_pos hstart]
      by_cases hmore : pause_ms > env.now - t.pattern_start_ms
      · rw [if_pos hmore, UInt32.toNat_sub_of_le _ _ (UInt32.le_of_lt hmore)]
      · have hless : pause_ms.toNat ≤ (env.now - t.pattern_start_ms).toNat :=
          UInt32.le_iff_toNat_le.mp (UInt32.not_lt.mp hmore)
        rw [if_neg hmore, Nat.sub_eq_zero_of_le hless]
        rfl
    · rw [if_neg hstart, if_neg hstart]

/-- A pattern whose end is followed by a pause sets the deadline of the pause. -/
theorem patternDone_pausing (hpausing : (t.patternDone env).phase = .Pausing) :
    (t.patternDone env).pause_until_ms = env.now + t.pauseMs env ∧
      (t.patternDone env).pause_total_ms = t.pauseMs env ∧ 0 < t.pauseMs env := by
  obtain ⟨u, _, _, ⟨hlong, hdone⟩ | hdone⟩ | ⟨u, _, _, hdone⟩ := t.patternDone_forms env
  · rw [hdone]
    exact ⟨rfl, rfl, hlong⟩
  · rw [hdone] at hpausing
    cases hpausing
  · rw [hdone, finish_phase] at hpausing
    cases hpausing

theorem phaseStep_pausing (hphase : t.phase = .Pausing) : (t.phaseStep env).phase =
    if t.req_skip = true ∨ (env.now - t.pause_until_ms).toInt32 ≥ 0 then .NextItem else .Pausing := by
  unfold phaseStep pausing
  rw [hphase]
  dsimp only
  by_cases hskip : t.req_skip
  · rw [if_pos hskip, if_pos (.inl hskip)]
  · rw [if_neg hskip]
    by_cases hover : (env.now - t.pause_until_ms).toInt32 ≥ 0
    · rw [if_pos hover, if_pos (.inr hover)]
    · rw [if_neg hover, if_neg (not_or.mpr ⟨hskip, hover⟩), hphase]

end Tick

/-- What happens to the playlist machine, and when: a poll at a time, in
milliseconds from the start of the clock, or a request. -/
inductive Moment where
  | poll (time : Nat) (env : Env)
  | request (r : Request)

/-- What the poll at a time finds around it. -/
def Env.at (env : Env) (time : Nat) : Env := { env with now := Ticks.tick time }

/-- The machine with the times that matter for its pauses: of the last poll, of
the poll that handed over the last pattern, and of the poll that began the last pause, with its length. -/
structure Paced extends Playlist where
  clock : Nat
  drawn_from : Nat := 0
  ended : Nat := 0
  pause : Nat := 0

namespace Paced

/-- The pause that is to follow a pattern which ends now: the setting, less what
the clock shows the drawing to have taken when it counts from the start. -/
def due (s : Paced) (time : Nat) (env : Env) : Nat :=
  let t : Tick := { toPlaylist := s.toPlaylist }
  if t.runPauseFromStart env ≠ 0 then (t.runPause env).toNat * 1000 - (time - s.drawn_from) % 2 ^ 32
  else (t.runPause env).toNat * 1000

def step (s : Paced) : Moment → Paced
  | .request r => { s with toPlaylist := s.toPlaylist.request r }
  | .poll time env =>
    let t := pollLine (env.at time) s.toPlaylist
    let begins : Bool := s.phase = .RunPattern ∧ t.phase = .Pausing
    { toPlaylist := t.toPlaylist
      clock := time
      drawn_from := if t.injected ≠ none ∧ t.phase = .RunPattern then time else s.drawn_from
      ended := if begins then time else s.ended
      pause := if begins then s.due time env else s.pause }

/-- How long a machine may be left without a poll: days, so that half a wrap of
the clock is far off. -/
def MAX_GAP : Nat := 2 ^ 30

/-- The polls come in time, and the settings are within the bounds of their
declarations. -/
def OnTime (s : Paced) : Moment → Prop
  | .request _ => True
  | .poll time env => s.clock ≤ time ∧ time ≤ s.clock + MAX_GAP ∧
      0 ≤ env.settings.pause_time ∧ env.settings.pause_time ≤ 86400 ∧ env.settings.autostart_pause ≤ 86400

instance (s : Paced) (m : Moment) : Decidable (s.OnTime m) :=
  match m with
  | .request _ => .isTrue trivial
  | .poll _ _ => inferInstanceAs (Decidable (_ ∧ _))

/-- Unless a stop or a run request ends it, a pause is over exactly at the first
poll that consumes a skip or comes when the pause has elapsed. -/
def EndsOnTime (s : Paced) : Moment → Prop
  | .request r => (s.step (.request r)).phase = s.phase
  | .poll time env => s.phase = .Pausing →
      (s.req_stop = true ∨ s.req_run = true → (s.step (.poll time env)).phase ≠ .Pausing) ∧
      (s.req_stop = false → s.req_run = false → (s.step (.poll time env)).phase =
        if s.req_skip = true ∨ s.pause ≤ time - s.ended then .NextItem else .Pausing)

/-- What a reader is told during a pause: the seconds that are left, rounded up,
of those there are. -/
def ReportsPause (s : Paced) : Prop :=
  s.phase = .Pausing → ∀ now, s.clock ≤ now → now ≤ s.clock + MAX_GAP →
    let status := s.runtimeStatus (Ticks.tick now)
    status.pause_remaining = ((s.pause - (now - s.ended) + 999) / 1000 : Nat) ∧
      status.pause_total = ((s.pause + 999) / 1000 : Nat) ∧
      0 ≤ status.pause_remaining ∧ status.pause_remaining ≤ status.pause_total

/-- What the polls keep of the times and of the pause they began. -/
structure Inv (s : Paced) : Prop where
  ov_pause : s.ov_pause ≤ 86400
  req_ov_pause : s.req_ov_pause ≤ 86400
  drawing : s.phase = .RunPattern → s.pattern_start_ms = Ticks.tick s.drawn_from ∧ s.drawn_from ≤ s.clock
  pausing : s.phase = .Pausing →
    (s.ended ≤ s.clock ∧ s.clock < s.ended + s.pause ∧ s.pause ≤ 86400000) ∧
    s.pause_until_ms = Ticks.tick (s.ended + s.pause) ∧ s.pause_total_ms = Ticks.tick s.pause ∧
    s.pub_pausing = true ∧ s.pub_pause_until_ms = s.pause_until_ms ∧
    s.pub_pause_total_ms = s.pause_total_ms

theorem Inv.reportsPause {s : Paced} (h : s.Inv) : s.ReportsPause := by
  intro hphase now hafter hsoon
  obtain ⟨⟨hended, hclock, hlength⟩, huntil, htotal, hpausing, hpubUntil, hpubTotal⟩ := h.pausing hphase
  have hgap : MAX_GAP = 2 ^ 30 := rfl
  have hleft : (s.pub_pause_until_ms - Ticks.tick now).toInt32.toInt = (s.ended + s.pause : Nat) - (now : Int) := by
    rw [hpubUntil, huntil]
    exact Ticks.signed_difference (by omega) (by omega)
  have hwhole : ((s.pub_pause_total_ms + 999) / 1000).toNat = (s.pause + 999) / 1000 := by
    rw [hpubTotal, htotal, UInt32.toNat_div, UInt32.toNat_add, Ticks.tick_toNat]
    change (s.pause % 2 ^ 32 + 999) % 2 ^ 32 / 1000 = _
    omega
  intro status
  have hremaining : status.pause_remaining = ((s.pause - (now - s.ended) + 999) / 1000 : Nat) := by
    change (if s.pub_pausing then _ else _) = _
    rw [hpausing, if_pos rfl, hleft]
    split_ifs <;> omega
  have hall : status.pause_total = ((s.pause + 999) / 1000 : Nat) := by
    change (if s.pub_pausing then _ else _) = _
    rw [hpausing, if_pos rfl, hwhole]
  refine ⟨hremaining, hall, ?_, ?_⟩
  · rw [hremaining]
    exact Int.natCast_nonneg _
  · rw [hremaining, hall]
    have hless : (s.pause - (now - s.ended) + 999) / 1000 ≤ (s.pause + 999) / 1000 :=
      Nat.div_le_div_right (by omega)
    exact_mod_cast hless

/-- A run request stages no pause of its own. -/
theorem request_req_ov_pause (p : Playlist) (r : Request) :
    (p.request r).req_ov_pause = p.req_ov_pause ∨ (p.request r).req_ov_pause = -1 := by
  cases r <;>
    simp only [Playlist.request, Playlist.requestRun, Playlist.requestSingle, Playlist.requestStop,
      Playlist.stopActive, Playlist.requestSkip] <;>
    (repeat' split) <;> first | exact .inl rfl | exact .inr rfl

/-- The auto-play stages its own pause setting. -/
theorem begun_req_ov_pause (env : Env) (p : Playlist) :
    (p.begun env).req_ov_pause = p.req_ov_pause ∨ (p.begun env).req_ov_pause = env.settings.autostart_pause := by
  have hheld : (((Tick.mk p [] none).ledOff env).midRunHold env).req_ov_pause = p.req_ov_pause := by
    unfold Tick.midRunHold Tick.ledOff
    dsimp only
    split_ifs <;> rfl
  change (Tick.autostart env (((Tick.mk p [] none).ledOff env).midRunHold env)).req_ov_pause = _ ∨
    (Tick.autostart env (((Tick.mk p [] none).ledOff env).midRunHold env)).req_ov_pause = _
  rw [← hheld]
  generalize ((Tick.mk p [] none).ledOff env).midRunHold env = t
  unfold Tick.autostart
  dsimp only
  split_ifs
  all_goals first
    | exact .inl rfl
    | exact .inr rfl

theorem consumeStop_keepsPauses (env : Env) (t : Tick) : Tick.KeepsPauses t (t.consumeStop env) := by
  unfold Tick.consumeStop
  dsimp only
  split_ifs
  · have hkept := Tick.finish_keepsPauses env { t with req_stop := false, req_skip := false }
    rw [Tick.stopJob_eq]
    exact hkept
  · exact ⟨rfl, rfl⟩

/-- A consumed run request starts with the pause staged for it. -/
theorem consumeRun_pauses (env : Env) (t : Tick) :
    (t.consumeRun env).ov_pause = t.req_ov_pause ∧ (t.consumeRun env).req_ov_pause = t.req_ov_pause ∧
      ((t.consumeRun env).phase = .NextItem ∨ (t.consumeRun env).phase = .Off) := by
  obtain ⟨cursor, since_home, hload, _⟩ := Tick.loadPlaylist_frame env t.req_name (t.takeRequest env)
  obtain ⟨_, hconsumed⟩ | ⟨_, _, hconsumed⟩ | ⟨_, _, hconsumed⟩ := Tick.consumeRun_cases env t
  · rw [hconsumed, Tick.takeRequest_eq]
    exact ⟨rfl, rfl, .inl rfl⟩
  · rw [hconsumed, hload, Tick.takeRequest_eq]
    exact ⟨rfl, rfl, .inl rfl⟩
  · obtain ⟨hparams, hstaged⟩ := Tick.finish_keepsPauses env ((t.takeRequest env).loadPlaylist env t.req_name).1
    rw [hload, Tick.takeRequest_eq] at hparams hstaged
    rw [hconsumed, hload, Tick.takeRequest_eq]
    exact ⟨congrArg RunParams.ov_pause hparams, hstaged, .inr (Tick.finish_phase _ _)⟩

/-- A poll leaves the two phases alone, or makes a turn. -/
theorem pollLine_pauses (env : Env) (p : Playlist) :
    ((pollLine env p).phase ≠ .RunPattern ∧ (pollLine env p).phase ≠ .Pausing ∧
      ((pollLine env p).ov_pause = p.ov_pause ∨ (pollLine env p).ov_pause = (p.begun env).req_ov_pause) ∧
      (pollLine env p).req_ov_pause = (p.begun env).req_ov_pause) ∨
    ((p.begun env).req_stop = false ∧ (p.begun env).req_run = false ∧ ∃ u, (p.begun env).phaseStep env = u ∧
      Tick.Turn env (p.begun env) u ∧ pollLine env p = if u.injected = none then u.publish else u) := by
  have hparams : (p.begun env).toRunParams = p.toRunParams := Tick.prelude_toRunParams env _
  have hov : (p.begun env).ov_pause = p.ov_pause := congrArg RunParams.ov_pause hparams
  rw [pollLine_eq]
  obtain ⟨hoff, _, _, hdone⟩ | ⟨_, hdone⟩ | ⟨_, _, hdone⟩ | ⟨hstop, hrun, _, u, hstep, hturn, hdone⟩ :=
    Tick.dispatch_cases env (p.begun env)
  · left
    rw [hdone]
    exact ⟨by simp [hoff], by simp [hoff], .inl hov, rfl⟩
  · left
    have hphase := Tick.consumeStop_phase env (p.begun env)
    obtain ⟨hkept, hstaged⟩ := consumeStop_keepsPauses env (p.begun env)
    rw [hdone]
    exact ⟨by simp [hphase], by simp [hphase], .inl ((congrArg RunParams.ov_pause hkept).trans hov), hstaged⟩
  · left
    obtain ⟨hstarts, hstaged, hphase⟩ := consumeRun_pauses env (p.begun env)
    rw [hdone]
    refine ⟨?_, ?_, .inr hstarts, hstaged⟩
    · rcases hphase with h | h <;> simp [h]
    · rcases hphase with h | h <;> simp [h]
  · exact .inr ⟨hstop, hrun, u, hstep, hturn, hdone⟩

/-- The deadline of a pause compares right while the polls come in time. -/
theorem deadline_passed_iff {ended pause clock time : Nat} (hended : ended ≤ clock) (hclock : clock < ended + pause)
    (hlength : pause ≤ 86400000) (hafter : clock ≤ time) (hsoon : time ≤ clock + MAX_GAP) :
    (Ticks.tick time - Ticks.tick (ended + pause)).toInt32 ≥ 0 ↔ pause ≤ time - ended := by
  have hgap : MAX_GAP = 2 ^ 30 := rfl
  have hsigned := @Ticks.signed_difference time (ended + pause) (by omega) (by omega)
  rw [ge_iff_le, Int32.le_iff_toInt_le, hsigned]
  change (0 : Int) ≤ _ ↔ _
  omega

/-- The pause behind a pattern is the one that is due. -/
theorem pauseMs_due {s : Paced} (h : s.Inv) (hphase : s.phase = .RunPattern) {time : Nat} {env : Env}
    (hm : s.OnTime (.poll time env)) (hpositive : 0 < (s.begun (env.at time)).pauseMs (env.at time)) :
    (s.begun (env.at time)).pauseMs (env.at time) = Ticks.tick (s.due time env) ∧ 0 < s.due time env ∧
      s.due time env ≤ 86400000 := by
  obtain ⟨hafter, -, hlow, hhigh, -⟩ := hm
  obtain ⟨hstart, hdrawn⟩ := h.drawing hphase
  have hparams : (s.begun (env.at time)).toRunParams = s.toRunParams := Tick.prelude_toRunParams _ _
  have hbegan : (s.begun (env.at time)).pattern_start_ms = Ticks.tick s.drawn_from :=
    (congrArg Progress.pattern_start_ms (Tick.prelude_toProgress _ _)).trans hstart
  have hpause : (s.begun (env.at time)).runPause (env.at time) = Tick.runPause env { toPlaylist := s.toPlaylist } := by
    unfold Tick.runPause
    rw [hparams]
    rfl
  have hfromStart : (s.begun (env.at time)).runPauseFromStart (env.at time) =
      Tick.runPauseFromStart env { toPlaylist := s.toPlaylist } := by
    unfold Tick.runPauseFromStart
    rw [hparams]
    rfl
  have hbounds : 0 ≤ Tick.runPause env { toPlaylist := s.toPlaylist } ∧
      Tick.runPause env { toPlaylist := s.toPlaylist } ≤ 86400 := by
    have hov := h.ov_pause
    unfold Tick.runPause
    dsimp only
    split_ifs with hset
    · exact ⟨hset, hov⟩
    · exact ⟨hlow, hhigh⟩
  have hlength := Tick.pauseMs_toNat (hpause ▸ hbounds.1) (hpause ▸ hbounds.2)
  have helapsed : ((env.at time).now - (s.begun (env.at time)).pattern_start_ms).toNat =
      (time - s.drawn_from) % 2 ^ 32 := by
    rw [hbegan]
    exact Ticks.elapsed_toNat (by omega)
  have hsome : 0 < ((s.begun (env.at time)).pauseMs (env.at time)).toNat := UInt32.lt_iff_toNat_lt.mp hpositive
  rw [hpause, hfromStart, helapsed] at hlength
  split_ifs at hlength with hskip hstarted
  · omega
  all_goals
    have hdue : ((s.begun (env.at time)).pauseMs (env.at time)).toNat = s.due time env := by
      rw [hlength]
      unfold due
      dsimp only
      first
        | rw [if_pos hstarted]
        | rw [if_neg hstarted]
    refine ⟨?_, by omega, by omega⟩
    apply UInt32.toNat_inj.mp
    rw [Ticks.tick_toNat, hdue, Nat.mod_eq_of_lt (by omega)]

theorem step_ended_of_pausing {s : Paced} (hphase : s.phase = .Pausing) (time : Nat) (env : Env) :
    (s.step (.poll time env)).ended = s.ended ∧ (s.step (.poll time env)).pause = s.pause := by
  simp [step, hphase]

theorem step_ended_of_drawn {s : Paced} {time : Nat} {env : Env} (hphase : s.phase = .RunPattern)
    (hafter : (s.step (.poll time env)).phase = .Pausing) :
    (s.step (.poll time env)).ended = time ∧ (s.step (.poll time env)).pause = s.due time env := by
  change (pollLine (env.at time) s.toPlaylist).phase = .Pausing at hafter
  simp [step, hphase, hafter]

/-- What a poll makes of the drawing and of the pause. -/
theorem Inv.poll {s : Paced} (h : s.Inv) {time : Nat} {env : Env} (hm : s.OnTime (.poll time env)) :
    (s.step (.poll time env)).Inv := by
  have hstaged : (s.begun (env.at time)).req_ov_pause ≤ 86400 := by
    rcases begun_req_ov_pause (env.at time) s.toPlaylist with hkept | hauto
    · exact hkept ▸ h.req_ov_pause
    · exact hauto ▸ hm.2.2.2.2
  have hphase : (s.begun (env.at time)).phase = s.phase := Tick.prelude_phase _ _
  have hparams : (s.begun (env.at time)).toRunParams = s.toRunParams := Tick.prelude_toRunParams _ _
  have hnone : (s.begun (env.at time)).injected = none := Tick.prelude_injected _ _
  have hprogress : (s.begun (env.at time)).toProgress = s.toProgress := Tick.prelude_toProgress _ _
  obtain ⟨hdraw, hpause, hov, hkept⟩ | ⟨hstop, hrun, u, hstep, hturn, hdone⟩ :=
    pollLine_pauses (env.at time) s.toPlaylist
  · refine ⟨?_, hkept.trans_le hstaged, fun h => absurd h hdraw, fun h => absurd h hpause⟩
    rcases hov with hov | hov
    · exact hov.trans_le h.ov_pause
    · exact hov.trans_le hstaged
  · obtain ⟨⟨hkeeps, hkept⟩, hdrawing, hpausing⟩ := hturn.paces
    obtain ⟨published, hclosed⟩ := Tick.turn_closed u
    have hpoll := hdone.trans hclosed
    refine ⟨?_, ?_, ?_, ?_⟩
    · change (pollLine (env.at time) s.toPlaylist).ov_pause ≤ _
      rw [hpoll]
      exact (congrArg RunParams.ov_pause (hkeeps.trans hparams)).trans_le h.ov_pause
    · change (pollLine (env.at time) s.toPlaylist).req_ov_pause ≤ _
      rw [hpoll]
      exact hkept.trans_le hstaged
    · change (pollLine (env.at time) s.toPlaylist).phase = .RunPattern →
        (pollLine (env.at time) s.toPlaylist).pattern_start_ms = Ticks.tick (if _ then _ else _) ∧
          (if _ then _ else _) ≤ time
      intro hrunning
      rw [hpoll] at hrunning ⊢
      obtain ⟨hinjected, hstart⟩ | ⟨hbefore, hstart, hsilent⟩ := hdrawing hrunning
      · rw [if_pos ⟨hinjected, hrunning⟩]
        exact ⟨hstart, le_rfl⟩
      · have hnothing : u.injected = none := hsilent.trans hnone
        rw [if_neg (fun hboth => hboth.1 hnothing)]
        obtain ⟨hbegan, hclock⟩ := h.drawing (hphase.symm.trans hbefore)
        refine ⟨hstart.trans ?_, hclock.trans hm.1⟩
        rw [hprogress]
        exact hbegan
    · intro hafter
      have hpaused : u.phase = .Pausing := by
        change (pollLine (env.at time) s.toPlaylist).phase = .Pausing at hafter
        rw [hpoll] at hafter
        exact hafter
      obtain ⟨hsilent, hcases⟩ := hpausing hpaused
      have hpublished : pollLine (env.at time) s.toPlaylist = u.publish := by
        rw [hdone, if_pos (hsilent.trans hnone)]
      have hlist : (s.step (.poll time env)).toPlaylist = u.publish.toPlaylist := congrArg Tick.toPlaylist hpublished
      have hshown : u.publish.pub_pausing = true := decide_eq_true hpaused
      rw [hlist]
      obtain ⟨hbefore, hsame⟩ | ⟨hbefore, hdrawn⟩ := hcases
      · have hwaits := hphase.symm.trans hbefore
        obtain ⟨⟨hended, hclock, hlength⟩, huntil, htotal, -⟩ := h.pausing hwaits
        obtain ⟨hstepEnded, hstepPause⟩ := step_ended_of_pausing hwaits time env
        have hkeptUntil : u.pause_until_ms = s.pause_until_ms := by rw [hsame, hprogress]
        have hkeptTotal : u.pause_total_ms = s.pause_total_ms := by rw [hsame, hprogress]
        have hnotOver : ¬ s.pause ≤ time - s.ended := by
          rw [← deadline_passed_iff hended hclock hlength hm.1 hm.2.1, ← huntil]
          intro hover
          have hnext := @Tick.phaseStep_pausing (env.at time) _ hbefore
          rw [hstep, hpaused, hprogress, if_pos (.inr hover)] at hnext
          cases hnext
        rw [hstepEnded, hstepPause]
        exact ⟨⟨hended.trans hm.1, by change time < _; omega, hlength⟩, hkeptUntil.trans huntil,
          hkeptTotal.trans htotal, hshown, rfl, rfl⟩
      · have hdrawing := hphase.symm.trans hbefore
        have hpausing : ((s.begun (env.at time)).patternDone (env.at time)).phase = .Pausing := hdrawn ▸ hpaused
        obtain ⟨huntil, htotal, hpositive⟩ := Tick.patternDone_pausing hpausing
        obtain ⟨hdue, hsome, hlength⟩ := pauseMs_due h hdrawing hm hpositive
        obtain ⟨hstepEnded, hstepPause⟩ := step_ended_of_drawn hdrawing hafter
        rw [← hdrawn, hdue] at huntil htotal
        rw [hstepEnded, hstepPause, ← Ticks.tick_add]
        exact ⟨⟨le_rfl, by change time < _; omega, hlength⟩, huntil, htotal, hshown, rfl, rfl⟩

theorem Inv.step {s : Paced} (h : s.Inv) {m : Moment} (hm : s.OnTime m) : (s.step m).Inv := by
  cases m with
  | poll time env => exact h.poll hm
  | request r =>
    have hstaged : (s.toPlaylist.request r).req_ov_pause ≤ 86400 := by
      rcases request_req_ov_pause s.toPlaylist r with hkept | hnone
      · exact hkept ▸ h.req_ov_pause
      · omega
    have hsame := Playlist.request_eq s.toPlaylist r
    generalize hafter : s.toPlaylist.request r = p at hstaged hsame
    have hstep : s.step (.request r) = { s with toPlaylist := p } := by rw [← hafter]; rfl
    rw [hstep]
    rw [hsame] at hstaged ⊢
    exact ⟨h.ov_pause, hstaged, h.drawing, h.pausing⟩

/-- A pause that no stop and no run request ends goes by its deadline. -/
theorem Inv.endsOnTime {s : Paced} (h : s.Inv) {m : Moment} (hm : s.OnTime m) : s.EndsOnTime m := by
  cases m with
  | request r =>
    change (s.toPlaylist.request r).phase = _
    rw [Playlist.request_eq]
  | poll time env =>
    intro hwaits
    have hphase : (s.begun (env.at time)).phase = .Pausing := (Tick.prelude_phase _ _).trans hwaits
    have hrequests : (s.begun (env.at time)).toRequests = s.toRequests :=
      Playlist.prelude_toRequests (.inl (by simp [hwaits]))
    have hprogress : (s.begun (env.at time)).toProgress = s.toProgress := Tick.prelude_toProgress _ _
    change (_ → (pollLine (env.at time) s.toPlaylist).phase ≠ _) ∧
      (_ → _ → (pollLine (env.at time) s.toPlaylist).phase = _)
    rw [pollLine_eq]
    obtain ⟨hoff, -⟩ | ⟨hstop, hdone⟩ | ⟨hstop, hrun, hdone⟩ | ⟨hstop, hrun, -, u, hstep, -, hdone⟩ :=
      Tick.dispatch_cases (env.at time) (s.begun (env.at time))
    · simp [hphase] at hoff
    · rw [hrequests] at hstop
      rw [hdone, Tick.consumeStop_phase]
      exact ⟨fun _ => by decide, fun hnone => by simp [hstop] at hnone⟩
    · rw [hrequests] at hrun
      obtain ⟨-, -, hafter⟩ := consumeRun_pauses (env.at time) (s.begun (env.at time))
      rw [hdone]
      refine ⟨fun _ => ?_, fun _ hnone => by simp [hrun] at hnone⟩
      rcases hafter with hafter | hafter <;> simp [hafter]
    · rw [hrequests] at hstop hrun
      refine ⟨fun hwaiting => by simp [hstop, hrun] at hwaiting, fun _ _ => ?_⟩
      obtain ⟨⟨hended, hclock, hlength⟩, huntil, -⟩ := h.pausing hwaits
      obtain ⟨published, hclosed⟩ := Tick.turn_closed u
      have hnext := @Tick.phaseStep_pausing (env.at time) _ hphase
      rw [hrequests, hprogress, huntil] at hnext
      have hover := deadline_passed_iff hended hclock hlength hm.1 hm.2.1
      rw [hdone, hclosed]
      change u.phase = _
      rw [← hstep, hnext]
      exact if_congr (or_congr Iff.rfl hover) rfl rfl

/-- The machine at boot, on a clock that shows any time. -/
def boot (feed_setting : Option Int) (clock : Nat) : Paced :=
  { toPlaylist := Playlist.boot feed_setting, clock := clock }

theorem boot_inv (feed_setting : Option Int) (clock : Nat) : (boot feed_setting clock).Inv :=
  ⟨(by decide : (-1 : Int) ≤ 86400), (by decide : (-1 : Int) ≤ 86400),
    fun h => absurd h (by decide : Phase.Off ≠ .RunPattern),
    fun h => absurd h (by decide : Phase.Off ≠ .Pausing)⟩

/-- In every run whose polls come in time, a pause ends with its time or with a
skip, unless a stop or a run request ends it, and what is reported of it lies within it. -/
theorem pauses_end_on_time (feed_setting : Option Int) (clock : Nat) (moments : List Moment)
    (hmoments : Transition.Throughout step OnTime (boot feed_setting clock) moments) :
    Transition.Throughout step EndsOnTime (boot feed_setting clock) moments ∧
      Transition.Always step ReportsPause (boot feed_setting clock) moments := by
  have hstep : ∀ s m, Inv s → OnTime s m → (s.step m).Inv := fun _ _ h hm => h.step hm
  constructor
  · exact Transition.throughout_of_invariant hstep (fun _ _ h hm => h.endsOnTime hm) (boot_inv _ _) hmoments
  · have hinv := Transition.always_of_invariant hstep (boot_inv feed_setting clock) hmoments
    exact hinv.mono fun _ h => h.reportsPause

/-- A table with a playlist of one pattern that is played over and over, with
ten seconds in between. -/
private def loopTable (line job_active : Bool) : Env where
  line := line
  job_active := job_active
  settings := { mode := MODE_LOOP, pause_time := 10 }
  files path := if path = bytes "/playlists/a.txt" then some (bytes "/x.thr") else none

/-- The playlist up to its first pause, across a wrap of the clock. -/
private def toPause : List Moment :=
  [.request (.run (bytes "a") .Idle), .poll 4294967000 (loopTable false false), .poll 4294967100 (loopTable true false),
    .poll 4294967200 (loopTable false true), .poll 4294967300 (loopTable false false)]

theorem pauses_end_on_time_across_wrap :
    Transition.Throughout step EndsOnTime (boot none 4294966900)
      (toPause ++ [.poll 4294977300 (loopTable false false)]) ∧
      Transition.Always step ReportsPause (boot none 4294966900)
        (toPause ++ [.poll 4294977300 (loopTable false false)]) :=
  pauses_end_on_time none 4294966900 _ (by decide)

/-- A stop ends a pause before its time. -/
theorem stop_ends_pause_early :
    ¬ ∀ (feed_setting : Option Int) (clock : Nat) (moments : List Moment) (time : Nat) (env : Env),
      Transition.Throughout step OnTime (boot feed_setting clock) (moments ++ [.poll time env]) →
        let s := Transition.run step (boot feed_setting clock) moments
        s.phase = .Pausing → ((s.step (.poll time env)).phase ≠ .Pausing ↔
          s.req_skip = true ∨ s.pause ≤ time - s.ended) := by
  intro h
  have hearly := (h none 4294966900 (toPause ++ [.request .stop]) 4294967400 (loopTable false false) (by decide)
    (by decide)).mp (by decide)
  exact absurd hearly (by decide)

end Paced

end DuneWeaver
