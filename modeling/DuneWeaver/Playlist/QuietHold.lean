import DuneWeaver.Playlist.Turn
import DuneWeaver.Transition.Run

namespace DuneWeaver

/-- Follow the playlist's hold through what it sends: `none` when a hold is
placed on top of another, or a resume has no hold to answer. -/
def follow : Bool → List Effect → Option Bool
  | held, [] => some held
  | held, .send .feedHold :: sent => if held then none else follow true sent
  | held, .send .cycleStart :: sent => if held then follow false sent else none
  | held, _ :: sent => follow held sent

/-- Nothing sent places or answers a hold. -/
def Silent (sent : List Effect) : Prop := .send .feedHold ∉ sent ∧ .send .cycleStart ∉ sent

theorem follow_append (held : Bool) (first second : List Effect) :
    follow held (first ++ second) = (follow held first).bind fun held => follow held second := by
  fun_induction follow held first with
  | case1 => rfl
  | case2 sent => rfl
  | case3 held sent hfree ih => simpa [follow, hfree] using ih
  | case4 sent ih => simpa [follow] using ih
  | case5 held sent hfree => simp [follow, hfree]
  | case6 held effect sent hhold hresume ih => simpa [follow] using ih

theorem follow_silent {sent : List Effect} (h : Silent sent) (held : Bool) : follow held sent = some held := by
  fun_induction follow held sent with
  | case1 => rfl
  | case2 | case3 | case4 | case5 => simp [Silent] at h
  | case6 held effect sent _ _ ih =>
    exact ih ⟨fun hmem => h.1 (List.mem_cons_of_mem _ hmem), fun hmem => h.2 (List.mem_cons_of_mem _ hmem)⟩

theorem silent_nil : Silent [] := ⟨List.not_mem_nil, List.not_mem_nil⟩

theorem silent_stopJob (b : Prop) [Decidable b] : Silent (if b then [.send .stopJob] else []) := by
  split_ifs <;> simp [Silent]

namespace Tick

variable {env : Env} {t : Tick}

theorem ledOff_sent (env : Env) (t : Tick) : ∃ extra led, Silent extra ∧
    t.ledOff env = { t with led_off_active := led, sent := t.sent ++ extra } := by
  unfold ledOff
  dsimp only
  split_ifs
  · exact ⟨_, _, by simp [Silent], rfl⟩
  · exact ⟨[], t.led_off_active, silent_nil, by rw [List.append_nil]⟩

theorem autostart_sent (env : Env) (t : Tick) : ∃ extra, Silent extra ∧
    (t.autostart env).sent = t.sent ++ extra ∧ (t.autostart env).quiet_held = t.quiet_held := by
  unfold autostart
  dsimp only
  split_ifs
  all_goals first
    | exact ⟨[], silent_nil, (List.append_nil _).symm, rfl⟩
    | exact ⟨[.start_home], by simp [Silent], rfl, rfl⟩

end Tick

/-- The tests under which a call places a hold. -/
def Playlist.PlacesHold (env : Env) (p : Playlist) : Prop :=
  env.holdNow = true ∧ p.quiet_held = false ∧ p.phase = .RunPattern ∧ env.state = .Cycle

/-- The tests under which a call answers the hold that is placed. -/
def Playlist.AnswersHold (env : Env) (p : Playlist) : Prop := p.quiet_held = true ∧ env.holdNow = false

/-- What the prelude sends and where it leaves the hold. -/
inductive HoldMove (env : Env) (p : Playlist) : List Effect → Bool → Prop
  | placed (hplaces : p.PlacesHold env) : HoldMove env p [.send .feedHold] true
  | answered (hanswers : p.AnswersHold env) : HoldMove env p [.send .cycleStart] false
  | kept (hplaces : ¬ p.PlacesHold env) (hanswers : ¬ p.AnswersHold env) :
      HoldMove env p [] p.quiet_held

theorem midRunHold_move (env : Env) (t : Tick) : ∃ move held, HoldMove env t.toPlaylist move held ∧
    t.midRunHold env = { t with quiet_held := held, sent := t.sent ++ move } := by
  unfold Tick.midRunHold
  by_cases hplaces : env.holdNow ∧ ¬ t.quiet_held ∧ t.phase = .RunPattern ∧ env.state = .Cycle
  · rw [if_pos hplaces]
    obtain ⟨hnow, hfree, hphase, hstate⟩ := hplaces
    exact ⟨_, _, .placed ⟨hnow, eq_false_of_ne_true hfree, hphase, hstate⟩, rfl⟩
  · rw [if_neg hplaces]
    have hnot : ¬ Playlist.PlacesHold env t.toPlaylist := fun h => hplaces ⟨h.1, by simp [h.2.1], h.2.2⟩
    by_cases hanswers : t.quiet_held ∧ ¬ env.holdNow
    · rw [if_pos hanswers]
      exact ⟨_, _, .answered ⟨hanswers.1, eq_false_of_ne_true hanswers.2⟩, rfl⟩
    · rw [if_neg hanswers]
      refine ⟨_, _, .kept hnot fun h => hanswers ⟨h.1, by simp [h.2]⟩, ?_⟩
      rw [List.append_nil]

/-- The prelude sends one hold or resume at most. -/
theorem begun_move (env : Env) (p : Playlist) : ∃ before move after held, Silent before ∧
    HoldMove env p move held ∧ Silent after ∧
    (p.begun env).sent = before ++ move ++ after ∧ (p.begun env).quiet_held = held := by
  obtain ⟨before, led, hbefore, hled⟩ := Tick.ledOff_sent env { toPlaylist := p }
  obtain ⟨move, held, hmove, hhold⟩ := midRunHold_move env (Tick.ledOff env { toPlaylist := p })
  obtain ⟨after, hafter, hsent, hheld⟩ :=
    Tick.autostart_sent env ((Tick.ledOff env { toPlaylist := p }).midRunHold env)
  refine ⟨before, move, after, held, hbefore, ?_, hafter, ?_, ?_⟩
  · rw [hled] at hmove
    cases hmove with
    | placed hplaces => exact .placed hplaces
    | answered hanswers => exact .answered hanswers
    | kept hplaces hanswers => exact .kept hplaces hanswers
  · unfold Playlist.begun Tick.prelude
    rw [hsent, hhold, hled]
    rfl
  · unfold Playlist.begun Tick.prelude
    rw [hheld, hhold]

/-- After the prelude a call leaves the hold alone, unless it ends the run: then
it answers the hold that is placed. -/
theorem dispatch_move (env : Env) (t : Tick) :
    (∃ extra, Silent extra ∧ (t.dispatch env).sent = t.sent ++ extra ∧
      (t.dispatch env).quiet_held = t.quiet_held ∧
      ((t.dispatch env).phase = .Off → t.phase = .Off)) ∨
    (∃ before after, Silent before ∧ Silent after ∧ (t.dispatch env).phase = .Off ∧
      (t.dispatch env).quiet_held = false ∧
      (t.dispatch env).sent =
        t.sent ++ before ++ (if t.quiet_held then [.send .cycleStart] else []) ++ after) := by
  obtain ⟨hoff, _, _, hdone⟩ | ⟨_, hdone⟩ | ⟨_, _, hdone⟩ | ⟨_, _, _, u, _, hturn, hdone⟩ :=
    Tick.dispatch_cases env t
  · rw [hdone]
    exact .inl ⟨[], silent_nil, (List.append_nil _).symm, rfl, fun _ => hoff⟩
  · rw [hdone]
    unfold Tick.consumeStop
    dsimp only
    by_cases hon : t.phase ≠ .Off
    · rw [if_pos hon]
      right
      refine ⟨[], if env.job_active then [.send .stopJob] else [], silent_nil, silent_stopJob _, ?_⟩
      rw [Tick.stopJob_eq, Tick.finish_eq]
      exact ⟨rfl, rfl, by simp [Tick.publish]⟩
    · rw [if_neg hon]
      exact .inl ⟨[], silent_nil, (List.append_nil _).symm, rfl, fun _ => not_not.mp hon⟩
  · rw [hdone]
    obtain ⟨_, hconsumed⟩ | ⟨_, hok, hconsumed⟩ | ⟨_, hok, hconsumed⟩ := Tick.consumeRun_cases env t
    all_goals
      obtain ⟨cursor, since_home, hload, _⟩ :=
        Tick.loadPlaylist_frame env t.req_name (t.takeRequest env)
      have hsilent := silent_stopJob (env.job_active = true ∧ ¬ t.req_no_abort = true)
    · left
      rw [hconsumed, Tick.takeRequest_eq]
      exact ⟨_, hsilent, rfl, rfl, fun h => absurd h (by decide : Phase.NextItem ≠ .Off)⟩
    · left
      rw [hconsumed, hload, Tick.takeRequest_eq]
      exact ⟨_, hsilent, rfl, rfl, fun h => absurd h (by decide : Phase.NextItem ≠ .Off)⟩
    · right
      refine ⟨_, [], hsilent, silent_nil, ?_⟩
      rw [hconsumed, hload, Tick.takeRequest_eq, Tick.finish_eq]
      exact ⟨rfl, rfl, by simp⟩
  · obtain ⟨published, hclosed⟩ := Tick.turn_closed u
    rw [hdone, hclosed]
    obtain hout | hout | ⟨hhoming, _, hheld, hsent⟩ | ⟨hphase, _, _, rfl⟩ := hturn.outcome
    · exact .inl ⟨[], silent_nil, by simpa using hout.sent, hout.held, fun h => absurd h hout.on⟩
    · exact .inr ⟨[], [], silent_nil, silent_nil, hout.off, hout.held, by simpa using hout.sent⟩
    · exact .inl ⟨[.start_home], by simp [Silent], hsent, hheld, fun h => absurd (hhoming.symm.trans h) (by decide)⟩
    · left
      refine ⟨if env.job_active then [.send .stopJob] else [], silent_stopJob _, ?_⟩
      rw [Tick.stopJob_eq]
      refine ⟨rfl, rfl, fun h => ?_⟩
      exact h

/-- A table under watch: the machine, whether a hold of its own is unanswered by
what it has sent, and whether the pattern it draws was handed over in quiet
hours. -/
structure Watched extends Playlist where
  outstanding : Bool := false
  released : Bool := false

namespace Watched

def step (w : Watched) : Action → Watched
  | .poll env =>
    let t := pollLine env w.toPlaylist
    { toPlaylist := t.toPlaylist
      outstanding := (follow w.outstanding t.sent).getD w.outstanding
      released := if t.injected ≠ none ∧ t.phase = .RunPattern then env.quietNow else w.released }
  | .request r => { w with toPlaylist := w.request r }

/-- The job that draws was started deliberately: by a single run, or in quiet
hours, where a playlist draws what a skip has released only. -/
def Deliberate (w : Watched) : Prop := w.phase = .RunPattern ∧ (w.single = true ∨ w.released = true)

/-- What is asked of one call. It brackets holds and resumes, spares a deliberate
job, and leaves no hold outstanding once quiet hours no longer apply, or its run
has ended or been replaced. -/
structure HoldDiscipline (w : Watched) (env : Env) : Prop where
  bracketed : follow w.outstanding (pollLine env w.toPlaylist).sent ≠ none
  spared : .send .feedHold ∈ (pollLine env w.toPlaylist).sent → ¬ w.Deliberate
  resumed : env.holdNow = false → (w.step (.poll env)).outstanding = false
  ended : (pollLine env w.toPlaylist).phase = .Off ∨ w.TakesRun env →
    (w.step (.poll env)).outstanding = false

def KeepsDiscipline (w : Watched) : Action → Prop
  | .poll env => w.HoldDiscipline env
  | .request _ => True

/-- The call places a hold on a deliberate job: the test looks neither at the
kind of the run nor at the override. -/
def HoldsDeliberate (w : Watched) : Action → Prop
  | .poll env => w.PlacesHold env ∧ w.Deliberate
  | .request _ => False

/-- The call starts a run over one that is held, in quiet hours that still
apply: the restart does not go through `finish`, which would resume. -/
def RestartsHeld (w : Watched) : Action → Prop
  | .poll env => w.TakesRun env ∧ w.RunLoads env ∧ env.holdNow = true ∧
      (w.quiet_held = true ∨ w.phase = .RunPattern ∧ env.state = .Cycle)
  | .request _ => False

/-- What holds between two calls: the flag of the machine is the hold that is
outstanding, and an Off machine has none. -/
structure HoldInv (w : Watched) : Prop where
  tracked : w.outstanding = w.quiet_held
  off : w.phase = .Off → w.quiet_held = false

end Watched

/-- The flag follows what a call sends, and the call ends Off without a hold. -/
theorem pollLine_follow {env : Env} {p : Playlist} (hoff : p.phase = .Off → p.quiet_held = false) :
    follow p.quiet_held (pollLine env p).sent = some (pollLine env p).quiet_held ∧
      ((pollLine env p).phase = .Off → (pollLine env p).quiet_held = false) := by
  obtain ⟨before, move, after, held, hbefore, hmove, hafter, hsent, hheld⟩ := begun_move env p
  have hbegun : follow p.quiet_held (p.begun env).sent = some (p.begun env).quiet_held := by
    rw [hsent, hheld, follow_append, follow_append, follow_silent hbefore]
    cases hmove with
    | placed hplaces => simp [hplaces.2.1, follow, follow_silent hafter]
    | answered hanswers => simp [hanswers.1, follow, follow_silent hafter]
    | kept => simp [follow, follow_silent hafter]
  have hphase : (p.begun env).phase = p.phase := Tick.prelude_phase env _
  have hbegunOff : (p.begun env).phase = .Off → (p.begun env).quiet_held = false := by
    intro h
    rw [hheld]
    cases hmove with
    | placed hplaces => exact absurd (hphase.symm.trans h) (by simp [hplaces.2.2.1])
    | answered => rfl
    | kept => exact hoff (hphase.symm.trans h)
  rw [pollLine_eq]
  obtain ⟨extra, hsilent, hadded, hkept, hstill⟩ | ⟨pre, post, hpre, hpost, hended, hfree, hadded⟩ :=
    dispatch_move env (p.begun env)
  · rw [hadded, hkept, follow_append, hbegun]
    exact ⟨follow_silent hsilent _, fun h => hbegunOff (hstill h)⟩
  · rw [hadded, hfree, follow_append, follow_append, follow_append, hbegun]
    refine ⟨?_, fun _ => rfl⟩
    cases (p.begun env).quiet_held <;> simp [follow_silent hpre, follow_silent hpost, follow]

/-- Only the prelude places a hold. -/
theorem feedHold_mem_iff (env : Env) (p : Playlist) :
    .send .feedHold ∈ (pollLine env p).sent ↔ p.PlacesHold env := by
  obtain ⟨before, move, after, held, hbefore, hmove, hafter, hsent, _⟩ := begun_move env p
  have hbegun : .send .feedHold ∈ (p.begun env).sent ↔ p.PlacesHold env := by
    rw [hsent]
    simp only [List.mem_append, hbefore.1, hafter.1, false_or, or_false]
    cases hmove with
    | placed hplaces => simpa using hplaces
    | answered hanswers =>
      refine iff_of_false (by simp) fun hplaces => ?_
      exact absurd (hplaces.1.symm.trans hanswers.2) (by decide)
    | kept hplaces => exact iff_of_false List.not_mem_nil hplaces
  rw [pollLine_eq]
  obtain ⟨extra, hsilent, hadded, _⟩ | ⟨pre, post, hpre, hpost, _, _, hadded⟩ :=
    dispatch_move env (p.begun env)
  · rw [hadded, List.mem_append, hbegun]
    simp [hsilent.1]
  · have hanswer : Effect.send .feedHold ∉ if (p.begun env).quiet_held then [Effect.send .cycleStart] else [] := by
      split_ifs <;> simp
    rw [hadded]
    simp only [List.mem_append, hbegun, hpre.1, hpost.1, hanswer, or_false]

/-- Where the prelude leaves the hold. -/
theorem begun_held_iff (env : Env) (p : Playlist) : (p.begun env).quiet_held = true ↔
    env.holdNow = true ∧ (p.quiet_held = true ∨ p.phase = .RunPattern ∧ env.state = .Cycle) := by
  obtain ⟨_, _, _, held, _, hmove, _, _, hheld⟩ := begun_move env p
  rw [hheld]
  cases hmove with
  | placed hplaces => simp [hplaces.1, hplaces.2.2.1, hplaces.2.2.2]
  | answered hanswers => simp [hanswers.2]
  | kept hplaces hanswers =>
    unfold Playlist.PlacesHold at hplaces
    unfold Playlist.AnswersHold at hanswers
    cases hnow : env.holdNow <;> cases hfree : p.quiet_held <;> simp_all

/-- A hold outlives a call that consumes a run request exactly when it is placed
as the call reaches the request, and the run starts. -/
theorem consumeRun_held {env : Env} {p : Playlist} (htakes : p.TakesRun env) :
    (pollLine env p).quiet_held = true ↔ p.RunLoads env ∧ (p.begun env).quiet_held = true := by
  obtain ⟨hrun, hstop⟩ := htakes
  have hdone : pollLine env p = (p.begun env).consumeRun env := by
    rw [pollLine_eq]
    obtain ⟨_, hnoRun, _⟩ | ⟨hstop', _⟩ | ⟨_, _, hdone⟩ | ⟨_, hnoRun, _⟩ :=
      Tick.dispatch_cases env (p.begun env)
    · exact absurd (hrun.symm.trans hnoRun) (by decide)
    · exact absurd hstop' hstop
    · exact hdone
    · exact absurd (hrun.symm.trans hnoRun) (by decide)
  obtain ⟨cursor, since_home, hload, _⟩ :=
    Tick.loadPlaylist_frame env (p.begun env).req_name ((p.begun env).takeRequest env)
  have hheld : ((p.begun env).takeRequest env).quiet_held = (p.begun env).quiet_held := by
    rw [Tick.takeRequest_eq]
  rw [hdone]
  obtain ⟨hsingle, hconsumed⟩ | ⟨_, hok, hconsumed⟩ | ⟨hsingle, hok, hconsumed⟩ :=
    Tick.consumeRun_cases env (p.begun env)
  · have hloads : p.RunLoads env := .inl hsingle
    rw [hconsumed]
    simp [hloads, Tick.loadSingle, hheld]
  · have hloads : p.RunLoads env := .inr hok
    rw [hconsumed, hload]
    simp [hloads, hheld]
  · have hloads : ¬ p.RunLoads env := by simp [Playlist.RunLoads, hsingle, hok]
    rw [hconsumed]
    simp [hloads]

/-- Once quiet hours no longer apply, no call leaves a hold. -/
theorem pollLine_resumed {env : Env} {p : Playlist} (hnow : env.holdNow = false) :
    (pollLine env p).quiet_held = false := by
  have hbegun : (p.begun env).quiet_held = false := by
    by_contra hheld
    have happlies := ((begun_held_iff env p).mp (by simpa using hheld)).1
    exact absurd (happlies.symm.trans hnow) (by decide)
  obtain ⟨_, _, _, hkept, _⟩ | ⟨_, _, _, _, _, hfree, _⟩ := dispatch_move env (p.begun env)
  · exact hkept.trans hbegun
  · exact hfree

namespace Watched

theorem HoldInv.step {w : Watched} (h : w.HoldInv) (a : Action) : (w.step a).HoldInv := by
  cases a with
  | request r =>
    refine ⟨?_, ?_⟩
    · change w.outstanding = (w.toPlaylist.request r).quiet_held
      rw [Playlist.request_eq]
      exact h.tracked
    · change (w.toPlaylist.request r).phase = .Off → (w.toPlaylist.request r).quiet_held = false
      rw [Playlist.request_eq]
      exact h.off
  | poll env =>
    obtain ⟨hfollow, hoff⟩ := @pollLine_follow env _ h.off
    refine ⟨?_, hoff⟩
    change (follow w.outstanding (pollLine env w.toPlaylist).sent).getD w.outstanding = _
    rw [h.tracked, hfollow]
    rfl

/-- One call keeps the discipline exactly when it neither holds a deliberate job
nor starts a run over a held one. -/
theorem keepsDiscipline_iff {w : Watched} (h : w.HoldInv) (a : Action) :
    w.KeepsDiscipline a ↔ ¬ w.HoldsDeliberate a ∧ ¬ w.RestartsHeld a := by
  cases a with
  | request r => exact iff_of_true trivial ⟨not_false, not_false⟩
  | poll env =>
    have hnext := (h.step (.poll env)).tracked
    obtain ⟨hfollow, hoff⟩ := @pollLine_follow env _ h.off
    constructor
    · intro hkeeps
      refine ⟨fun ⟨hplaces, hdeliberate⟩ => ?_, fun ⟨htakes, hloads, hheld⟩ => ?_⟩
      · exact hkeeps.spared ((feedHold_mem_iff env _).mpr hplaces) hdeliberate
      · have hstays := (consumeRun_held htakes).mpr ⟨hloads, (begun_held_iff env _).mpr hheld⟩
        have hfree := hnext.symm.trans (hkeeps.ended (.inr htakes))
        exact absurd (hstays.symm.trans hfree) (by decide)
    · rintro ⟨hspares, hreplaces⟩
      refine ⟨?_, fun hmem hdeliberate => ?_, fun hnow => ?_, fun hends => ?_⟩
      · rw [h.tracked, hfollow]
        exact Option.some_ne_none _
      · exact hspares ⟨(feedHold_mem_iff env _).mp hmem, hdeliberate⟩
      · exact hnext.trans (pollLine_resumed hnow)
      · rcases hends with hended | htakes
        · exact hnext.trans (hoff hended)
        · by_contra hheld
          have hstays : (pollLine env w.toPlaylist).quiet_held = true := by
            by_contra hfree
            exact hheld (hnext.trans (eq_false_of_ne_true hfree))
          obtain ⟨hloads, hbegun⟩ := (consumeRun_held htakes).mp hstays
          exact hreplaces ⟨htakes, hloads, (begun_held_iff env _).mp hbegun⟩

/-- From boot, every call of a run keeps the discipline exactly when none holds a
deliberate job and none starts a run over a held one. -/
theorem hold_discipline_iff (feed_setting : Option Int) (actions : List Action) :
    Transition.Throughout step KeepsDiscipline { toPlaylist := .boot feed_setting } actions ↔
      Transition.Throughout step (fun w a => ¬ w.HoldsDeliberate a ∧ ¬ w.RestartsHeld a)
        { toPlaylist := .boot feed_setting } actions :=
  Transition.throughout_iff_of_invariant (I := HoldInv) (fun _ a h _ => h.step a)
    (fun _ a h => keepsDiscipline_iff h a) ⟨rfl, fun _ => rfl⟩ actions

/-- A table in quiet hours that holds patterns rather than finish them. -/
private def quietEnv (state : State) : Env where
  line := true
  state := state
  job_active := state = .Cycle
  quiet_slot := true
  settings := { sands_enabled := true, sands_finish := false }

/-- A single run that `runs now` in quiet hours is held as soon as it moves. -/
theorem single_run_held_in_quiet_hours :
    ¬ ∀ (feed_setting : Option Int) (actions : List Action),
      Transition.Throughout step KeepsDiscipline { toPlaylist := .boot feed_setting } actions := by
  intro h
  obtain ⟨_, _, _, hkeeps, _⟩ := h none [.request (.single (bytes "/a.thr") [] .Idle),
    .poll (quietEnv .Idle), .poll (quietEnv .Idle), .poll (quietEnv .Cycle)]
  exact hkeeps.spared (by decide) ⟨by decide, .inl (by decide)⟩

end Watched

end DuneWeaver
