import DuneWeaver.Playlist.Turn
import DuneWeaver.Transition.Run

namespace DuneWeaver

/-- The clear feed is armed only while a clear runs. -/
def Playlist.ClearFeedAgrees (p : Playlist) : Prop := 0 ≤ p.clear_feed → p.phase = .RunClear

/-- Outside RunClear the agreement means that the override is off. -/
theorem Playlist.ClearFeedAgrees.disarmed {p : Playlist} (h : p.ClearFeedAgrees)
    (hphase : p.phase ≠ .RunClear) : p.clear_feed < 0 := by
  by_contra hnot
  exact hphase (h (by omega))

theorem Playlist.ClearFeedAgrees.of_disarmed {p : Playlist} (h : p.clear_feed < 0) :
    p.ClearFeedAgrees := fun harmed => by omega

namespace Tick

variable {env : Env} {t : Tick}

theorem advanceIndex_disarmed (h : t.clear_feed < 0) : (t.advanceIndex env).1.clear_feed < 0 := by
  obtain ⟨u, hslot, hadvance⟩ | ⟨u, _, hadvance⟩ := t.advanceIndex_cases env
  · rw [hadvance]
    cases hslot with
    | next => exact h
    | wrap => exact h
  · rw [hadvance]
    simp

theorem nextSlot_disarmed (h : t.clear_feed < 0) : (t.nextSlot env).clear_feed < 0 := by
  have hadvance := @advanceIndex_disarmed env _ h
  unfold nextSlot
  split <;> simp_all

/-- A start failure leaves RunClear disarmed: the branch for the clear drops
its feed. -/
theorem startFailed_disarmed (h : t.ClearFeedAgrees) : (t.startFailed env).clear_feed < 0 := by
  unfold startFailed
  dsimp only
  by_cases hclear : t.phase = .RunClear
  · rw [if_pos hclear]
    split_ifs
    · simp
    · simp
    · exact nextSlot_disarmed (by simp)
  · have hoff : t.clear_feed < 0 := by
      by_contra hnot
      exact hclear (h (by omega))
    rw [if_neg hclear]
    split_ifs
    · simp
    · simp
    · exact nextSlot_disarmed hoff

theorem clearDone_disarmed : (t.clearDone env).clear_feed < 0 := by
  unfold clearDone
  dsimp only
  split_ifs
  · exact nextSlot_disarmed (by simp)
  · simp

theorem patternDone_disarmed (h : t.clear_feed < 0) : (t.patternDone env).clear_feed < 0 := by
  unfold patternDone
  dsimp only
  generalize hbase : (Tick.mk _ _ _ : Tick).advanceIndex env = advanced
  have hadvanced : advanced.1.clear_feed < 0 := by
    rw [← hbase]
    exact advanceIndex_disarmed h
  obtain ⟨u, ok⟩ := advanced
  cases ok with
  | false => exact hadvanced
  | true =>
    dsimp only
    split_ifs <;> exact hadvanced

theorem Resolved.disarmed {u : Tick} (h : Resolved env t u) (hoff : t.clear_feed < 0) :
    u.clear_feed < 0 := by
  cases h with
  | cached => exact hoff
  | read _ hread =>
    rw [resolveCurrent_eq hread]
    exact hoff

/-- Every branch of the switch keeps the agreement: the clear is the only one
to arm the feed, and each way out of RunClear disarms it. -/
theorem Turn.clearFeedAgrees {u : Tick} (h : Turn env t u) (hagree : t.ClearFeedAgrees) :
    u.ClearFeedAgrees := by
  have hgated {w : Tick} {ok : Bool} (hgate : AtGate env t w ok) : w.clear_feed < 0 := by
    have hoff := hagree.disarmed (by simp [hgate.phase])
    obtain ⟨_, _, _, rfl⟩ := quietGate_frame hgate.gate
    exact hoff
  cases h with
  | canceled | unreadableEnd => exact .of_disarmed (by simp)
  | waited => exact hagree
  | gated hgate => exact .of_disarmed (hgated hgate)
  | deferred hgate => exact .of_disarmed (hgated hgate)
  | skipped hgate =>
    have hoff := hgated hgate
    exact .of_disarmed (advanceIndex_disarmed hoff)
  | home hgate =>
    have hoff := hgated hgate
    exact .of_disarmed hoff
  | unreadable hgate =>
    have hoff := hgated hgate
    exact .of_disarmed (advanceIndex_disarmed hoff)
  | clear => exact fun _ => rfl
  | pattern hgate _ hresolved =>
    exact .of_disarmed (hresolved.disarmed (hgated hgate))
  | homeSeen => exact hagree
  | homed hphase => exact .of_disarmed (hagree.disarmed (by simp [hphase]))
  | skipRun =>
    unfold Playlist.ClearFeedAgrees
    rw [stopJob_toPlaylist]
    exact hagree
  | jobSeen => exact hagree
  | notStarted => exact .of_disarmed (startFailed_disarmed hagree)
  | cleared => exact .of_disarmed clearDone_disarmed
  | drawn hphase => exact .of_disarmed (patternDone_disarmed (hagree.disarmed (by simp [hphase])))
  | pauseSkipped hphase => exact .of_disarmed (hagree.disarmed (by simp [hphase]))
  | paused hphase => exact .of_disarmed (hagree.disarmed (by simp [hphase]))

end Tick

namespace Playlist

/-- The call consumes a run request that starts while the clear feed is still
armed: `loadPlaylist`, `loadSingle` and the branch that calls them leave the
override alone. -/
def RestartsArmed (p : Playlist) : Action → Prop
  | .poll env => p.TakesRun env ∧ p.RunLoads env ∧ 0 ≤ p.clear_feed
  | .request _ => False

theorem begun_clearFeedAgrees {env : Env} {p : Playlist} :
    (p.begun env).ClearFeedAgrees ↔ p.ClearFeedAgrees := by
  unfold ClearFeedAgrees begun
  rw [Tick.prelude_toThetaRho, Tick.prelude_phase]

/-- A consumed run request leaves the override as it is when the run starts, and
in NextItem; otherwise the run has ended and the override is off. -/
theorem consumeRun_clearFeedAgrees {env : Env} {p : Playlist} :
    ((p.begun env).consumeRun env).ClearFeedAgrees ↔ ¬ (p.RunLoads env ∧ 0 ≤ p.clear_feed) := by
  have hfeed : ((p.begun env).takeRequest env).clear_feed = p.clear_feed := by
    rw [Tick.takeRequest_eq]
    exact congrArg ThetaRho.clear_feed (Tick.prelude_toThetaRho env _)
  obtain ⟨cursor, since_home, hload, _⟩ :=
    Tick.loadPlaylist_frame env (p.begun env).req_name ((p.begun env).takeRequest env)
  obtain ⟨hsingle, hrun⟩ | ⟨hsingle, hok, hrun⟩ | ⟨hsingle, hok, hrun⟩ :=
    Tick.consumeRun_cases env (p.begun env)
  · have hloads : p.RunLoads env := .inl hsingle
    rw [hrun]
    simp only [ClearFeedAgrees, Tick.loadSingle, hfeed, hloads, true_and]
    simp
  · have hloads : p.RunLoads env := .inr hok
    rw [hrun, hload]
    simp only [ClearFeedAgrees, hfeed, hloads, true_and]
    simp
  · have hloads : ¬ p.RunLoads env := by
      simp [RunLoads, hsingle, hok]
    rw [hrun]
    simp [ClearFeedAgrees, hloads]

/-- One step keeps the agreement exactly when it is not a restart with the
override armed. -/
theorem step_clearFeedAgrees_iff {p : Playlist} {a : Action} (hagree : p.ClearFeedAgrees) :
    (p.step a).ClearFeedAgrees ↔ ¬ p.RestartsArmed a := by
  cases a with
  | request r =>
    change (p.request r).ClearFeedAgrees ↔ _
    rw [request_eq]
    exact iff_of_true hagree not_false
  | poll env =>
    have hbegun : (p.begun env).ClearFeedAgrees := begun_clearFeedAgrees.mpr hagree
    have hnoRun (h : (p.begun env).req_run = false ∨ (p.begun env).req_stop = true) :
        ¬ p.RestartsArmed (.poll env) := by
      rintro ⟨⟨hrun, hstop⟩, _⟩
      simp_all
    simp only [step, pollLine_eq]
    obtain ⟨hoff, hrun, _, hdone⟩ | ⟨hstop, hdone⟩ | ⟨hstop, hrun, hdone⟩ | ⟨_, hrun, _, u, _, hturn, hdone⟩ :=
      Tick.dispatch_cases env (p.begun env)
    · rw [hdone]
      refine iff_of_true (.of_disarmed ?_) (hnoRun (.inl hrun))
      simpa using hbegun.disarmed (by simp [hoff])
    · rw [hdone]
      refine iff_of_true ?_ (hnoRun (.inr hstop))
      unfold Tick.consumeStop
      dsimp only
      split_ifs with hon
      · exact .of_disarmed (by simp [Tick.publish])
      · exact .of_disarmed (hbegun.disarmed (by simp_all))
    · rw [hdone, consumeRun_clearFeedAgrees]
      simp [RestartsArmed, TakesRun, hrun, hstop]
    · obtain ⟨published, hclosed⟩ := Tick.turn_closed u
      rw [hdone, hclosed]
      exact iff_of_true (hturn.clearFeedAgrees hbegun) (hnoRun (.inl hrun))

/-- The agreement as the machine relies on it: the override is armed only while
a clear runs, and a pattern that has been handed over draws at the live feed or
at `$THR/Feed`. -/
def ClearFeedArmedOnlyInClear (p : Playlist) : Prop :=
  p.ClearFeedAgrees ∧ (p.phase = .RunPattern → p.effectiveFeed =
    if p.feed_setting = none then -1
    else if p.live_feed ≥ 0 then p.live_feed else p.feed_setting.getD (-1))

theorem clearFeedArmedOnlyInClear_iff {p : Playlist} :
    p.ClearFeedArmedOnlyInClear ↔ p.ClearFeedAgrees := by
  refine ⟨fun h => h.1, fun h => ⟨h, fun hphase => ?_⟩⟩
  exact ThetaRho.effectiveFeed_of_disarmed (h.disarmed (by simp [hphase]))

/-- From boot, the override is armed only while a clear runs in every state of a
run exactly when no run request is consumed, and started, while it is armed. -/
theorem clear_feed_armed_only_in_clear_iff (feed_setting : Option Int) (actions : List Action) :
    Transition.Always step ClearFeedArmedOnlyInClear (boot feed_setting) actions ↔
      Transition.Throughout step (fun p a => ¬ p.RestartsArmed a) (boot feed_setting) actions := by
  refine Transition.always_iff_of_step_iff (fun p a hp => ?_) ?_ actions
  · rw [clearFeedArmedOnlyInClear_iff] at hp ⊢
    exact step_clearFeedAgrees_iff hp
  · rw [clearFeedArmedOnlyInClear_iff]
    exact .of_disarmed (show (-1 : Int) < 0 by decide)

/-- A table whose clears have a feed of their own, idle or drawing. -/
private def clearSpeedEnv (state : State) : Env where
  line := true
  state := state
  job_active := state = .Cycle
  settings := { clear_speed := 500 }

/-- A run that replaces a clear draws its pattern at the clear's feed: the
override of 500 is still armed when the second pattern is handed over. -/
theorem clear_feed_survives_restart :
    ¬ ∀ (feed_setting : Option Int) (actions : List Action),
      Transition.Always step ClearFeedArmedOnlyInClear (boot feed_setting) actions := by
  intro h
  have hlast := (h (some 1000) [.request (.single (bytes "/a.thr") (bytes "in") .Idle),
    .poll (clearSpeedEnv .Idle), .poll (clearSpeedEnv .Idle),
    .request (.single (bytes "/b.thr") [] .Cycle),
    .poll (clearSpeedEnv .Cycle), .poll (clearSpeedEnv .Idle)]).last
  exact absurd (hlast.2 (by decide)) (by decide)

end Playlist

end DuneWeaver
