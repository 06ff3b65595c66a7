import DuneWeaver.Playlist.Consumed
import DuneWeaver.Playlist.Pause

namespace DuneWeaver

namespace Tick

/-- The run is over, or stands between two items with its counter at `since_home`. -/
def Between (since_home : Int) (t : Tick) : Prop :=
  t.phase = .Off ∨ (t.phase = .NextItem ∨ t.phase = .Pausing) ∧ t.since_home = since_home

variable {env : Env} {t : Tick}

theorem NextSlot.since_home {u : Tick} (h : NextSlot env t u) : u.since_home = t.since_home := by
  cases h with
  | next => rfl
  | wrap => rfl

theorem finish_between (env : Env) (since_home : Int) (t : Tick) : Between since_home (t.finish env) :=
  .inl (finish_phase env t)

theorem advanceIndex_between (env : Env) (hphase : t.phase = .NextItem) :
    Between t.since_home (t.advanceIndex env).1 := by
  obtain ⟨u, hslot, hadvance⟩ | ⟨u, _, hadvance⟩ := t.advanceIndex_cases env
  · rw [hadvance]
    exact .inr ⟨.inl (hslot.phase_eq.trans hphase), hslot.since_home⟩
  · rw [hadvance]
    exact finish_between env _ u

theorem nextSlot_between (env : Env) (t : Tick) : Between t.since_home (t.nextSlot env) := by
  obtain ⟨u, hslot, hnext⟩ | ⟨u, _, hnext⟩ := t.nextSlot_cases env
  · rw [hnext]
    exact .inr ⟨.inl rfl, hslot.since_home⟩
  · rw [hnext]
    exact finish_between env _ u

/-- A job that does not start counts as an item. -/
theorem startFailed_between (env : Env) (t : Tick) : Between (t.since_home + 1) (t.startFailed env) := by
  unfold startFailed
  dsimp only
  split_ifs
  · exact finish_between env _ _
  · exact finish_between env _ _
  · exact nextSlot_between env _
  · exact finish_between env _ _
  · exact nextSlot_between env _

/-- So does an item that is skipped while its clear is drawn. -/
theorem clearDone_between (env : Env) (t : Tick) :
    ∃ since_home, t.since_home ≤ since_home ∧ Between since_home (t.clearDone env) := by
  unfold clearDone
  dsimp only
  split_ifs
  · exact ⟨t.since_home + 1, by omega, nextSlot_between env _⟩
  · exact ⟨t.since_home, Int.le_refl _, .inr ⟨.inl rfl, rfl⟩⟩

theorem patternDone_between (env : Env) (t : Tick) : Between (t.since_home + 1) (t.patternDone env) := by
  obtain ⟨u, hslot, _, ⟨_, hdone⟩ | hdone⟩ | ⟨u, _, _, hdone⟩ := t.patternDone_forms env
  · rw [hdone]
    exact .inr ⟨.inr rfl, hslot.since_home⟩
  · rw [hdone]
    exact .inr ⟨.inl rfl, hslot.since_home⟩
  · rw [hdone]
    exact finish_between env _ u

/-- No pattern goes out while a home is due. -/
theorem nextItem_not_due (hphase : t.phase = .NextItem) (hsingle : t.single = false)
    (hpos : 0 < env.settings.auto_home) (hpattern : (t.nextItem env).phase = .RunPattern) :
    t.since_home < env.settings.auto_home := by
  unfold nextItem at hpattern
  by_cases halarm : inAlarmState env.state
  · rw [if_pos halarm, finish_phase] at hpattern
    cases hpattern
  rw [if_neg halarm] at hpattern
  cases hgate : t.quietGate env with
  | mk u ok =>
    rw [hgate] at hpattern
    obtain ⟨_, _, _, hframe⟩ := quietGate_frame hgate
    have hnext : u.phase = .NextItem := by rw [hframe]; exact hphase
    have hlist : u.single = false := by rw [hframe]; exact hsingle
    have hcount : u.since_home = t.since_home := by rw [hframe]
    cases ok with
    | false =>
      cases hnext.symm.trans hpattern
    | true =>
      dsimp only at hpattern
      by_cases hskip : u.req_skip
      · rw [if_pos hskip] at hpattern
        obtain hoff | ⟨hwaits, _⟩ := advanceIndex_between env
          (t := { u with req_skip := false, since_home := u.since_home + 1 }) hnext
        · cases hoff.symm.trans hpattern
        · rw [hpattern] at hwaits
          cases hwaits <;> contradiction
      rw [if_neg hskip] at hpattern
      by_cases hbusy : ¬ env.line ∨ env.state ≠ .Idle ∨ env.job_active
      · rw [if_pos hbusy] at hpattern
        cases hnext.symm.trans hpattern
      rw [if_neg hbusy] at hpattern
      by_cases hdue : u.since_home ≥ env.settings.auto_home
      · rw [if_pos ⟨by simp [hlist], hpos, hdue⟩] at hpattern
        cases hpattern
      · rw [hcount] at hdue
        exact Int.not_le.mp hdue

end Tick

open Tick

namespace Playlist

/-- How many pattern lines may still go out before the next home, when one is due every
`N` items. -/
def budget (N : Int) (p : Playlist) : Nat :=
  match p.phase with
  | .Off => 0
  | .NextItem => (N - p.since_home).toNat
  | .Homing => N.toNat
  | .RunClear => (N - p.since_home).toNat
  | .RunPattern => (N - (p.since_home + 1)).toNat
  | .Pausing => (N - p.since_home).toNat

/-- The pattern line that the action hands over, if it hands one over. -/
def patternLine (p : Playlist) : Action → List Bytes
  | .poll env => if (pollLine env p).phase = .RunPattern then (pollLine env p).injected.toList else []
  | .request _ => []

/-- The poll requests a home. -/
def RequestsHome (p : Playlist) : Action → Prop
  | .poll env => .start_home ∈ (pollLine env p).sent
  | .request _ => False

/-- The poll starts a run. -/
def StartsRun (p : Playlist) : Action → Prop
  | .poll env => p.TakesRun env
  | .request _ => False

instance (p : Playlist) : (a : Action) → Decidable (p.RequestsHome a)
  | .poll _ => inferInstanceAs (Decidable (_ ∈ _))
  | .request _ => inferInstanceAs (Decidable False)

instance (p : Playlist) : (a : Action) → Decidable (p.StartsRun a)
  | .poll env => inferInstanceAs (Decidable (p.TakesRun env))
  | .request _ => inferInstanceAs (Decidable False)

end Playlist

/-- The action finds `$Playlist/AutoHome` at `N`. -/
def Action.AutoHome (N : Int) : Action → Prop
  | .poll env => env.settings.auto_home = N
  | .request _ => True

instance (N : Int) : (a : Action) → Decidable (a.AutoHome N)
  | .poll env => inferInstanceAs (Decidable (env.settings.auto_home = N))
  | .request _ => inferInstanceAs (Decidable True)

namespace Tick

variable {env : Env} {t : Tick} {N : Int}

theorem Between.budget_le {since_home : Int} (h : Between since_home t) :
    t.budget N ≤ (N - since_home).toNat := by
  unfold Playlist.budget
  obtain hoff | ⟨hphase | hphase, hcount⟩ := h
  · rw [hoff]
    exact Nat.zero_le _
  · rw [hphase, hcount]
  · rw [hphase, hcount]

theorem budget_nextItem (hphase : t.phase = .NextItem) : t.budget N = (N - t.since_home).toNat := by
  unfold Playlist.budget
  rw [hphase]

/-- While an item is drawn there is room for the items after it. -/
theorem le_budget_running (hphase : t.phase = .RunClear ∨ t.phase = .RunPattern) :
    (N - (t.since_home + 1)).toNat ≤ t.budget N := by
  unfold Playlist.budget
  obtain hphase | hphase := hphase
  · rw [hphase]
    exact Int.toNat_le_toNat (by omega)
  · rw [hphase]

theorem AtGate.since_home {u : Tick} {ok : Bool} (h : AtGate env t u ok) :
    u.phase = .NextItem ∧ u.single = t.single ∧ u.since_home = t.since_home ∧ u.injected = t.injected := by
  obtain ⟨_, _, _, hframe⟩ := quietGate_frame h.gate
  rw [hframe]
  exact ⟨h.phase, rfl, rfl, rfl⟩

theorem Resolved.since_home {u : Tick} (h : Resolved env t u) : u.since_home = t.since_home := by
  cases h with
  | cached => rfl
  | read _ hread => rw [resolveCurrent_eq hread]

/-- A turn that requests no home and hands over no line leaves the budget. -/
theorem Turn.budget_le {u : Tick} (h : Turn env t u) (hhome : .start_home ∉ u.sent)
    (hline : u.injected = none) : u.budget N ≤ t.budget N := by
  cases h with
  | canceled => exact Nat.zero_le _
  | waited => exact Nat.le_refl _
  | gated hgate =>
    obtain ⟨hnext, _, hcount, _⟩ := hgate.since_home
    rw [budget_nextItem hnext, budget_nextItem hgate.phase, hcount]
  | deferred hgate =>
    obtain ⟨hnext, _, hcount, _⟩ := hgate.since_home
    rw [budget_nextItem hnext, budget_nextItem hgate.phase, hcount]
  | @skipped v hgate =>
    obtain ⟨hnext, _, hcount, _⟩ := hgate.since_home
    have hbetween := advanceIndex_between env
      (t := { v with req_skip := false, since_home := v.since_home + 1 }) hnext
    refine (hbetween.budget_le).trans ?_
    rw [budget_nextItem hgate.phase]
    exact Int.toNat_le_toNat (by dsimp only; omega)
  | home => simp at hhome
  | unreadableEnd => exact Nat.zero_le _
  | @unreadable v hgate =>
    obtain ⟨hnext, _, hcount, _⟩ := hgate.since_home
    have hbetween := advanceIndex_between env (t := { v with consec_fail := v.consec_fail + 1 }) hnext
    refine (hbetween.budget_le).trans ?_
    rw [budget_nextItem hgate.phase, ← hcount]
  | clear => cases hline
  | pattern => cases hline
  | homeSeen hphase =>
    unfold Playlist.budget
    simp only [hphase, Nat.le_refl]
  | homed hphase =>
    unfold Playlist.budget
    simp only [hphase, Int.sub_zero, Nat.le_refl]
  | skipRun =>
    rw [stopJob_eq]
    exact Nat.le_refl _
  | jobSeen => exact Nat.le_refl _
  | notStarted hphase => exact (startFailed_between env t).budget_le.trans (le_budget_running hphase)
  | cleared hphase =>
    obtain ⟨since_home, hle, hbetween⟩ := clearDone_between env t
    refine hbetween.budget_le.trans ?_
    unfold Playlist.budget
    rw [hphase]
    exact Int.toNat_le_toNat (by omega)
  | drawn hphase => exact (patternDone_between env t).budget_le.trans (le_budget_running (.inr hphase))
  | pauseSkipped hphase =>
    unfold Playlist.budget
    simp only [hphase, Nat.le_refl]
  | paused hphase =>
    unfold Playlist.budget
    simp only [hphase, Nat.le_refl]

/-- Every turn pays for the pattern line it hands over. -/
theorem Turn.pays {u : Tick} (h : Turn env t u) (hstep : t.phaseStep env = u)
    (hN : env.settings.auto_home = N) (hpos : 0 < N) (hsingle : t.single = false) (hnone : t.injected = none)
    (hhome : .start_home ∉ u.sent) :
    (if u.phase = .RunPattern then u.injected.toList else []).length + u.budget N ≤ t.budget N := by
  obtain hsame | ⟨v, w, hgate, _, hresolved, hclear | ⟨pending_clear, hpattern⟩⟩ := h.injected_cases
  · have hline := hsame.trans hnone
    rw [hline]
    simpa using h.budget_le hhome hline
  · have hcount : w.since_home = t.since_home := hresolved.since_home.trans hgate.since_home.2.2.1
    have hphase : u.phase = .RunClear := by rw [hclear]; rfl
    have hbudget : u.budget N = (N - w.since_home).toNat := by rw [hclear]; rfl
    rw [hphase, hbudget, hcount, budget_nextItem hgate.phase]
    simp
  · have hcount : w.since_home = t.since_home := hresolved.since_home.trans hgate.since_home.2.2.1
    have hphase : u.phase = .RunPattern := by rw [hpattern]; rfl
    have hline : u.injected.toList.length = 1 := by rw [hpattern]; rfl
    have hbudget : u.budget N = (N - (w.since_home + 1)).toNat := by rw [hpattern]; rfl
    have hnext : t.nextItem env = u := by
      rw [← hstep, phaseStep, hgate.phase]
    have hdue := nextItem_not_due hgate.phase hsingle (hN ▸ hpos) (hnext ▸ hphase)
    rw [if_pos hphase, hline, hbudget, hcount, budget_nextItem hgate.phase]
    omega

/-- Only an Off machine without a run request asks for a home at the start of a call. -/
theorem prelude_requests_no_home (hbusy : t.phase ≠ .Off ∨ (t.prelude env).req_run = true)
    (hsilent : .start_home ∉ t.sent) : .start_home ∉ (t.prelude env).sent := by
  have hhold : .start_home ∉ ((t.ledOff env).midRunHold env).sent ∧
      ((t.ledOff env).midRunHold env).phase = t.phase := by
    unfold midRunHold ledOff
    dsimp only
    split_ifs <;> simp [hsilent]
  obtain ⟨hquiet, hphase⟩ := hhold
  unfold prelude at hbusy ⊢
  generalize (t.ledOff env).midRunHold env = u at hquiet hphase hbusy ⊢
  rw [← hphase] at hbusy
  unfold autostart at hbusy ⊢
  dsimp only at hbusy ⊢
  by_cases hidle : u.autostart_pending ∧ u.phase = .Off ∧ ¬ u.req_run ∧ ¬ u.req_stop ∧ env.state = .Idle
  · rw [if_pos hidle] at hbusy ⊢
    obtain hon | hrun := hbusy
    · exact absurd hidle.2.1 hon
    · have hnoRun := hidle.2.2.1
      split_ifs at hrun ⊢
      all_goals first
        | exact absurd hrun hnoRun
        | exact hquiet
  · rw [if_neg hidle]
    split_ifs
    · exact hquiet
    · exact hquiet

/-- A turn that requests a home waits for it, in a run of a playlist. -/
theorem Turn.requestsHome {u : Tick} (h : Turn env t u) (hsilent : .start_home ∉ t.sent)
    (hhome : .start_home ∈ u.sent) : u.phase = .Homing ∧ u.single = false := by
  obtain hout | hout | ⟨hphase, hsingle, _⟩ | ⟨_, _, _, rfl⟩ := h.outcome
  · rw [hout.sent] at hhome
    exact absurd hhome hsilent
  · rw [hout.sent] at hhome
    split_ifs at hhome <;> simp [hsilent] at hhome
  · exact ⟨hphase, hsingle⟩
  · rw [stopJob_eq] at hhome
    dsimp only at hhome
    split_ifs at hhome <;> simp [hsilent] at hhome

end Tick

namespace Playlist

variable {env : Env} {p : Playlist} {N : Int}

/-- A run that goes on is a run of a playlist. -/
def Listed (p : Playlist) : Prop := p.phase ≠ .Off → p.single = false

theorem listed_of_off (hoff : p.phase = .Off) : p.Listed := fun hon => absurd hoff hon

theorem budget_off (hoff : p.phase = .Off) : p.budget N = 0 := by
  unfold budget
  rw [hoff]

/-- A leg of a run starts where its playlist is started, and where a home is requested. -/
def OpensLeg (env : Env) (p : Playlist) : Prop :=
  p.TakesRun env ∧ (p.begun env).req_single = false ∨ p.RequestsHome (.poll env)

/-- The action goes on with a leg: it finds the setting unchanged, requests no home and
starts no run. -/
structure KeepsLeg (N : Int) (p : Playlist) (a : Action) : Prop where
  auto_home : a.AutoHome N
  home : ¬ p.RequestsHome a
  run : ¬ p.StartsRun a

/-- A call that is neither a stop nor a start makes a turn, or finds the machine Off. -/
theorem pollLine_turn (hrun : ¬ p.TakesRun env) : (pollLine env p).phase = .Off ∨
    p.phase ≠ .Off ∧ ∃ u published, Turn env (p.begun env) u ∧ (p.begun env).phaseStep env = u ∧
      pollLine env p = { u with toPublished := published } := by
  have hphase : (p.begun env).phase = p.phase := prelude_phase env _
  rw [pollLine_eq]
  obtain ⟨hoff, _, _, hdone⟩ | ⟨_, hdone⟩ | ⟨hstop, hreq, _⟩ | ⟨_, _, hon, u, hstep, hturn, hdone⟩ :=
    dispatch_cases env (p.begun env)
  · rw [hdone]
    exact .inl hoff
  · rw [hdone]
    exact .inl (consumeStop_phase env _)
  · exact absurd ⟨hreq, by simp [hstop]⟩ hrun
  · obtain ⟨published, hclosed⟩ := turn_closed u
    exact .inr ⟨hphase ▸ hon, u, published, hturn, hstep, hdone.trans hclosed⟩

/-- A leg starts with at most the full budget. -/
theorem OpensLeg.budget_le (h : p.OpensLeg env) :
    (pollLine env p).Listed ∧ (pollLine env p).budget N ≤ N.toNat := by
  by_cases hrun : p.TakesRun env
  · obtain ⟨_, hoff⟩ | ⟨cursor, _, hstarted⟩ := hrun.started
    · exact ⟨listed_of_off hoff, (budget_off hoff).le.trans (Nat.zero_le _)⟩
    · have hsingle : (p.begun env).req_single = false := by
        obtain ⟨_, hsingle⟩ | hhome := h
        · exact hsingle
        · have hsilent : .start_home ∉ (p.begun env).sent :=
            prelude_requests_no_home (.inr hrun.1) List.not_mem_nil
          have hhome : .start_home ∈ (pollLine env p).sent := hhome
          rw [hstarted, takeRequest_eq] at hhome
          dsimp only at hhome
          split_ifs at hhome <;> simp [hsilent] at hhome
      rw [hstarted, takeRequest_eq]
      refine ⟨fun _ => hsingle, ?_⟩
      unfold budget
      dsimp only
      rw [Int.sub_zero]
  · have hhome : .start_home ∈ (pollLine env p).sent := by
      obtain ⟨hrun', _⟩ | hhome := h
      · exact absurd hrun' hrun
      · exact hhome
    obtain hoff | ⟨hon, u, published, hturn, _, hdone⟩ := pollLine_turn hrun
    · exact ⟨listed_of_off hoff, (budget_off hoff).le.trans (Nat.zero_le _)⟩
    · rw [hdone] at hhome ⊢
      have hsilent : .start_home ∉ (p.begun env).sent := prelude_requests_no_home (.inl hon) List.not_mem_nil
      obtain ⟨hphase, hsingle⟩ := hturn.requestsHome hsilent hhome
      refine ⟨fun _ => hsingle, ?_⟩
      unfold budget
      dsimp only
      rw [hphase]

/-- An action that goes on with a leg pays for the pattern line it hands over. -/
theorem KeepsLeg.pays {a : Action} (h : p.KeepsLeg N a) (hpos : 0 < N) (hlisted : p.Listed) :
    (p.step a).Listed ∧ (p.patternLine a).length + (p.step a).budget N ≤ p.budget N := by
  cases a with
  | request r =>
    unfold Playlist.step
    dsimp only
    rw [Playlist.request_eq]
    exact ⟨hlisted, (Nat.zero_add _).le⟩
  | poll env =>
    have hrun : ¬ p.TakesRun env := h.run
    have hbegun : (p.begun env).budget N = p.budget N := by
      obtain ⟨_, _, _, _, _, hframe⟩ := prelude_frame env { toPlaylist := p }
      unfold begun
      rw [hframe]
      rfl
    unfold Playlist.step patternLine
    dsimp only
    obtain hoff | ⟨hon, u, published, hturn, hstep, hdone⟩ := pollLine_turn hrun
    · have hline : (pollLine env p).phase ≠ .RunPattern := by rw [hoff]; decide
      rw [if_neg hline, budget_off hoff]
      exact ⟨listed_of_off hoff, Nat.zero_le _⟩
    · have hsingle : (p.begun env).single = false :=
        (congrArg RunParams.single (prelude_toRunParams env _)).trans (hlisted hon)
      have hnone : (p.begun env).injected = none := prelude_injected env _
      have hhome : .start_home ∉ u.sent := by
        have hhome : .start_home ∉ (pollLine env p).sent := h.home
        rw [hdone] at hhome
        exact hhome
      have hpays := hturn.pays hstep h.auto_home hpos hsingle hnone hhome
      rw [hdone, ← hbegun]
      exact ⟨fun _ => (congrArg RunParams.single hturn.paces.keeps.1).trans hsingle, hpays⟩

/-- Between two homes, and from the start of a playlist to its first home, no more pattern
lines go out than the setting has items between homes. -/
theorem patternLines_le (hpos : 0 < N) (hopens : p.OpensLeg env) {actions : List Action}
    (hkeeps : Transition.Throughout step (KeepsLeg N) (p.step (.poll env)) actions) :
    (Transition.trace step patternLine (p.step (.poll env)) actions).length ≤ N := by
  obtain ⟨hlisted, hfull⟩ := @OpensLeg.budget_le env p N hopens
  have hspent := Transition.length_trace_le_of_budget (budget N)
    (fun q a hq (h : q.KeepsLeg N a) => (h.pays hpos hq).1)
    (fun q a hq (h : q.KeepsLeg N a) => (h.pays hpos hq).2) hlisted hkeeps
  have hbound : (Transition.trace step patternLine (p.step (.poll env)) actions).length ≤ N.toNat :=
    hspent.trans hfull
  omega

end Playlist

end DuneWeaver
