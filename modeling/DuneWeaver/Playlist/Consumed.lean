import DuneWeaver.Playlist.Alike
import DuneWeaver.Playlist.Turn

namespace DuneWeaver

/-- The call consumes a stop that ends a run. -/
def Playlist.TakesStop (env : Env) (p : Playlist) : Prop := (p.begun env).req_stop ∧ p.phase ≠ .Off

instance (env : Env) (p : Playlist) : Decidable (p.TakesStop env) := inferInstanceAs (Decidable (_ ∧ _))

/-- The call consumes the skip of a clear or of a pattern. -/
structure Playlist.TakesSkip (env : Env) (p : Playlist) : Prop where
  undisturbed : p.Undisturbed env
  safe : inAlarmState env.state = false
  phase : p.phase = .RunClear ∨ p.phase = .RunPattern
  skip : (p.begun env).req_skip = true

/-- The request for which a call aborts the job that is active. The boot
auto-play aborts none. -/
def Playlist.Aborts (env : Env) (p : Playlist) : Prop :=
  p.TakesStop env ∨ p.TakesRun env ∧ (p.begun env).req_no_abort = false ∨ p.TakesSkip env

namespace Tick

variable {env : Env} {t : Tick}

/-- The prelude posts no stop. -/
private theorem prelude_posts_no_stop (h : .send .stopJob ∉ t.sent) : .send .stopJob ∉ (t.prelude env).sent := by
  have hled : .send .stopJob ∉ (t.ledOff env).sent := by
    unfold ledOff
    dsimp only
    split_ifs
    · simpa using h
    · exact h
  have hhold : .send .stopJob ∉ ((t.ledOff env).midRunHold env).sent := by
    unfold midRunHold
    split_ifs
    · simpa using hled
    · simpa using hled
    · exact hled
  unfold prelude autostart
  dsimp only
  split_ifs
  all_goals first
    | exact hhold
    | simpa using hhold

private theorem answer_posts_no_stop (held : Bool) :
    Effect.send .stopJob ∉ if held then [Effect.send .cycleStart] else [] := by
  split_ifs <;> simp

/-- A running job is skipped as `running` says. -/
private theorem phaseStep_skip (hphase : t.phase = .RunClear ∨ t.phase = .RunPattern)
    (hsafe : inAlarmState env.state = false) (hskip : t.req_skip = true) :
    t.phaseStep env = stopJob env { t with req_skip := false, skip_active := true } := by
  have hrunning : t.phaseStep env = t.running env := by
    unfold phaseStep
    obtain h | h := hphase <;> rw [h]
  rw [hrunning, running, if_neg (by simp [hsafe]), if_pos hskip]

end Tick

variable {env : Env} {p : Playlist}

theorem Playlist.TakesStop.done (h : p.TakesStop env) : pollLine env p = (p.begun env).consumeStop env := by
  obtain ⟨hstop, hon⟩ := h
  rw [pollLine_eq]
  obtain ⟨_, _, hnoStop, _⟩ | ⟨_, hdone⟩ | ⟨hnoStop, _⟩ | ⟨hnoStop, _⟩ := Tick.dispatch_cases env (p.begun env)
  · simp [hstop] at hnoStop
  · exact hdone
  · simp [hstop] at hnoStop
  · simp [hstop] at hnoStop

theorem Playlist.TakesRun.done (h : p.TakesRun env) : pollLine env p = (p.begun env).consumeRun env := by
  obtain ⟨hrun, hstop⟩ := h
  rw [pollLine_eq]
  obtain ⟨_, hnoRun, _⟩ | ⟨hstop', _⟩ | ⟨_, _, hdone⟩ | ⟨_, hnoRun, _⟩ := Tick.dispatch_cases env (p.begun env)
  · simp [hrun] at hnoRun
  · exact absurd hstop' hstop
  · exact hdone
  · simp [hrun] at hnoRun

/-- A call that consumes the skip of a job flags it, and aborts the job if it is
active. -/
theorem Playlist.TakesSkip.done (h : p.TakesSkip env) : ∃ published, pollLine env p =
    { Tick.stopJob env { p.begun env with req_skip := false, skip_active := true } with
      toPublished := published } := by
  obtain ⟨⟨hstop, hrun⟩, hsafe, hphase, hskip⟩ := h
  have hbegun : (p.begun env).phase = .RunClear ∨ (p.begun env).phase = .RunPattern := by
    rwa [Playlist.begun, Tick.prelude_phase]
  rw [pollLine_eq]
  obtain ⟨hoff, _⟩ | ⟨hstop', _⟩ | ⟨_, hrun', _⟩ | ⟨_, _, _, u, hstep, _, hdone⟩ :=
    Tick.dispatch_cases env (p.begun env)
  · simp [hoff] at hbegun
  · simp [hstop] at hstop'
  · simp [hrun] at hrun'
  · rw [Tick.phaseStep_skip hbegun hsafe hskip] at hstep
    obtain ⟨published, hclosed⟩ := Tick.turn_closed u
    rw [hdone, hclosed, ← hstep]
    exact ⟨published, rfl⟩

/-- A call posts a stop exactly when it consumes a request that aborts the job,
and a job is active. -/
theorem stopJob_mem_iff (env : Env) (p : Playlist) :
    .stopJob ∈ (pollLine env p).events ↔ env.job_active = true ∧ p.Aborts env := by
  have hevent : .stopJob ∈ (pollLine env p).events ↔ .send .stopJob ∈ (pollLine env p).sent := by
    unfold Tick.events
    simp only [List.mem_filterMap]
    constructor
    · rintro ⟨effect, hmem, heq⟩
      cases effect <;> simp_all [Effect.event]
    · exact fun hmem => ⟨_, hmem, rfl⟩
  have hbegun : .send .stopJob ∉ (p.begun env).sent := Tick.prelude_posts_no_stop List.not_mem_nil
  have hphase : (p.begun env).phase = p.phase := Tick.prelude_phase env _
  have hposted {b : Prop} [Decidable b] : .send .stopJob ∈ (if b then [Effect.send .stopJob] else []) ↔ b := by
    split_ifs with h <;> simp [h]
  rw [hevent]
  by_cases hstop : p.TakesStop env
  · have hon : (p.begun env).phase ≠ .Off := hphase.symm ▸ hstop.2
    rw [hstop.done, Tick.consumeStop]
    dsimp only
    rw [if_pos hon, Tick.stopJob_eq, Tick.finish_eq]
    simp only [Tick.publish, List.mem_append, hbegun, Tick.answer_posts_no_stop, hposted, false_or,
      Playlist.Aborts, hstop, true_or, and_true]
  by_cases hrun : p.TakesRun env
  · have hsent : .send .stopJob ∈ ((p.begun env).consumeRun env).sent ↔
        .send .stopJob ∈ ((p.begun env).takeRequest env).sent := by
      obtain ⟨cursor, since_home, hload, _⟩ :=
        Tick.loadPlaylist_frame env (p.begun env).req_name ((p.begun env).takeRequest env)
      obtain ⟨_, hconsumed⟩ | ⟨_, _, hconsumed⟩ | ⟨_, _, hconsumed⟩ := Tick.consumeRun_cases env (p.begun env)
      · rw [hconsumed]
        rfl
      · rw [hconsumed, hload]
      · rw [hconsumed, hload]
        simp
    have hskip : ¬ p.TakesSkip env := fun h => by simp [h.undisturbed.2, Playlist.TakesRun] at hrun
    rw [hrun.done, hsent, Tick.takeRequest_eq]
    simp [hbegun, hposted, Playlist.Aborts, hstop, hrun, hskip]
  by_cases hskip : p.TakesSkip env
  · obtain ⟨published, hdone⟩ := hskip.done
    rw [hdone, Tick.stopJob_eq]
    simp [hbegun, hposted, Playlist.Aborts, hskip]
  refine iff_of_false ?_ fun h => ?_
  · rw [pollLine_eq]
    obtain ⟨_, _, _, hdone⟩ | ⟨hreq, hdone⟩ | ⟨hreq, hreq', _⟩ | ⟨hreq, hreq', hon, u, _, hturn, hdone⟩ :=
      Tick.dispatch_cases env (p.begun env)
    · rw [hdone]
      exact hbegun
    · have hoff : ¬ (p.begun env).phase ≠ .Off := fun hon => hstop ⟨hreq, hphase ▸ hon⟩
      rw [hdone, Tick.consumeStop]
      dsimp only
      rw [if_neg hoff]
      exact hbegun
    · exact absurd ⟨hreq', by simp [hreq]⟩ hrun
    · obtain ⟨published, hclosed⟩ := Tick.turn_closed u
      rw [hdone, hclosed]
      obtain hout | hout | ⟨_, _, _, hsent⟩ | ⟨hrunning, hsafe, hreqSkip, _⟩ := hturn.outcome
      · rw [hout.sent]
        exact hbegun
      · rw [hout.sent]
        simp [hbegun]
      · rw [hsent]
        simp [hbegun]
      · exact absurd ⟨⟨hreq, hreq'⟩, hsafe, hphase ▸ hrunning, hreqSkip⟩ hskip
  · obtain ⟨_, habort | ⟨habort, _⟩ | habort⟩ := h
    · exact hstop habort
    · exact hrun habort
    · exact hskip habort

/-- A call that consumes a stop ends Off and hands over no line. -/
theorem Playlist.TakesStop.off (h : p.TakesStop env) :
    (pollLine env p).phase = .Off ∧ (pollLine env p).injected = none := by
  rw [h.done, Tick.consumeStop_injected]
  exact ⟨Tick.consumeStop_phase env _, Tick.prelude_injected env _⟩

/-- An Off machine stays so until a run request is consumed. -/
theorem pollLine_off (hoff : p.phase = .Off) (hrun : ¬ p.TakesRun env) :
    (pollLine env p).phase = .Off ∧ (pollLine env p).injected = none := by
  have hphase : (p.begun env).phase = .Off := (Tick.prelude_phase env _).trans hoff
  have hnone : (p.begun env).injected = none := Tick.prelude_injected env _
  rw [pollLine_eq]
  obtain ⟨_, _, _, hdone⟩ | ⟨_, hdone⟩ | ⟨hstop, hreq, _⟩ | ⟨_, _, hon, _⟩ := Tick.dispatch_cases env (p.begun env)
  · rw [hdone]
    exact ⟨hphase, hnone⟩
  · rw [hdone, Tick.consumeStop_injected]
    exact ⟨Tick.consumeStop_phase env _, hnone⟩
  · exact absurd ⟨hreq, by simp [hstop]⟩ hrun
  · exact absurd hphase hon

end DuneWeaver
