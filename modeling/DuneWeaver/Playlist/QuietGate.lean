import DuneWeaver.Playlist.Turn
import DuneWeaver.Transition.Run

namespace DuneWeaver

namespace Tick

variable {env : Env} {t : Tick}

/-- A skip is consumed in `NextItem` in quiet hours: it overrides them. -/
def SkipsGate (env : Env) (t : Tick) : Prop :=
  t.phase = .NextItem ∧ inAlarmState env.state = false ∧ t.single = false ∧ env.quietNow = true ∧
    t.req_skip = true

/-- The pattern that draws has ended, by itself or by a skip. -/
def Completes (env : Env) (t : Tick) : Prop :=
  t.phase = .RunPattern ∧ t.req_skip = false ∧ t.job_seen = true ∧ env.job_active = false ∧
    env.state = .Idle

instance (env : Env) (t : Tick) : Decidable (SkipsGate env t) := inferInstanceAs (Decidable (_ ∧ _))

instance (env : Env) (t : Tick) : Decidable (Completes env t) := inferInstanceAs (Decidable (_ ∧ _))

/-- The call comes to the quiet-hours gate. -/
def ReachesGate (env : Env) (t : Tick) : Prop := t.phase = .NextItem ∧ inAlarmState env.state = false

instance (env : Env) (t : Tick) : Decidable (ReachesGate env t) :=
  inferInstanceAs (Decidable (_ ∧ _))

/-- Neither flag of the quiet-hours gate is touched. -/
structure KeepsQuiet (t u : Tick) : Prop where
  quiet_override : u.quiet_override = t.quiet_override
  in_quiet : u.in_quiet = t.in_quiet

theorem KeepsQuiet.refl (t : Tick) : KeepsQuiet t t := ⟨rfl, rfl⟩

theorem KeepsQuiet.trans {u v : Tick} (h : KeepsQuiet t u) (h' : KeepsQuiet u v) : KeepsQuiet t v :=
  ⟨h'.quiet_override.trans h.quiet_override, h'.in_quiet.trans h.in_quiet⟩

theorem Kin.keepsQuiet {u : Tick} (h : Kin t u) : KeepsQuiet t u :=
  ⟨congrArg StillSands.quiet_override h.toStillSands, congrArg StillSands.in_quiet h.toStillSands⟩

theorem finish_keepsQuiet : KeepsQuiet t (t.finish env) :=
  ⟨finish_quiet_override env t, finish_in_quiet env t⟩

theorem advanceIndex_keepsQuiet : KeepsQuiet t (t.advanceIndex env).1 := by
  obtain ⟨u, hslot, hadvance⟩ | ⟨u, hkin, hadvance⟩ := t.advanceIndex_cases env
  · rw [hadvance]
    exact hslot.kin.keepsQuiet
  · rw [hadvance]
    exact hkin.keepsQuiet.trans finish_keepsQuiet

theorem nextSlot_keepsQuiet : KeepsQuiet t (t.nextSlot env) := by
  obtain ⟨u, hslot, hnext⟩ | ⟨u, hkin, hnext⟩ := t.nextSlot_cases env
  · rw [hnext]
    have hkept := hslot.kin.keepsQuiet
    exact ⟨hkept.quiet_override, hkept.in_quiet⟩
  · rw [hnext]
    exact hkin.keepsQuiet.trans finish_keepsQuiet

/-- An override is good for one pattern. -/
theorem patternDone_quiet_override : (t.patternDone env).quiet_override = false := by
  obtain ⟨u, v, hslot, hkin, _, _, hdone⟩ | ⟨u, hkin, hdone⟩ := patternDone_cases env t
  · rw [hdone]
    exact (hslot.kin.keepsQuiet.trans hkin.keepsQuiet).quiet_override
  · rw [hdone, finish_quiet_override]
    exact hkin.keepsQuiet.quiet_override

theorem consumeRun_keepsQuiet (env : Env) (t : Tick) : KeepsQuiet t (t.consumeRun env) := by
  obtain ⟨cursor, since_home, hload, _⟩ := loadPlaylist_frame env t.req_name (t.takeRequest env)
  obtain ⟨_, hconsumed⟩ | ⟨_, _, hconsumed⟩ | ⟨_, _, hconsumed⟩ := consumeRun_cases env t
  · rw [hconsumed, takeRequest_eq]
    exact ⟨rfl, rfl⟩
  · rw [hconsumed, hload, takeRequest_eq]
    exact ⟨rfl, rfl⟩
  · rw [hconsumed, hload, takeRequest_eq]
    exact ⟨finish_quiet_override env _, finish_in_quiet env _⟩

theorem consumeStop_keepsQuiet (env : Env) (t : Tick) : KeepsQuiet t (t.consumeStop env) := by
  unfold consumeStop
  dsimp only
  split_ifs
  · rw [stopJob_eq]
    exact ⟨finish_quiet_override env _, finish_in_quiet env _⟩
  · exact ⟨rfl, rfl⟩

theorem Resolved.keepsQuiet {u : Tick} (h : Resolved env t u) : KeepsQuiet t u := by
  cases h with
  | cached => exact .refl t
  | read _ hread =>
    rw [resolveCurrent_eq hread]
    exact ⟨rfl, rfl⟩

/-- The gate keeps an override only if it was set, or a skip sets it. -/
theorem AtGate.quiet_override {u : Tick} {ok : Bool} (h : AtGate env t u ok)
    (hset : u.quiet_override = true) : t.quiet_override = true ∨ SkipsGate env t := by
  obtain ⟨hsingle, hquiet, hskip, _⟩ | ⟨_, _, _, hgate⟩ | ⟨_, _, hgate⟩ | ⟨_, _, hgate⟩ :=
    quietGate_cases env t
  · exact .inr ⟨h.phase, h.safe, hsingle, hquiet, hskip⟩
  · cases hgate.symm.trans h.gate
    exact .inl hset
  · cases hgate.symm.trans h.gate
    exact absurd hset Bool.false_ne_true
  · cases hgate.symm.trans h.gate
    exact .inl hset

/-- A turn that comes to the gate leaves the flags as the gate does, and any
other leaves them as they were, unless it completes a pattern. -/
theorem Turn.quiet_cases {u : Tick} (h : Turn env t u) :
    (¬ ReachesGate env t ∧ KeepsQuiet t u) ∨ (∃ v ok, AtGate env t v ok ∧ KeepsQuiet v u) ∨
      u.quiet_override = false := by
  have hother {v : Tick} (hphase : t.phase ≠ .NextItem) (hkept : KeepsQuiet t v) :
      (¬ ReachesGate env t ∧ KeepsQuiet t v) ∨ (∃ w ok, AtGate env t w ok ∧ KeepsQuiet w v) ∨
        v.quiet_override = false := .inl ⟨fun hreach => hphase hreach.1, hkept⟩
  have hrunning (hphase : t.phase = .RunClear ∨ t.phase = .RunPattern) : t.phase ≠ .NextItem := by
    rcases hphase with hphase | hphase <;> simp [hphase]
  cases h with
  | canceled _ halarm =>
    refine .inl ⟨fun hreach => ?_, finish_keepsQuiet⟩
    exact absurd ((halarm hreach.1).symm.trans hreach.2) (by decide)
  | waited _ hphase => exact hother hphase (.refl t)
  | gated hgate => exact .inr (.inl ⟨_, _, hgate, .refl _⟩)
  | deferred hgate => exact .inr (.inl ⟨_, _, hgate, .refl _⟩)
  | skipped hgate =>
    have hkept := @advanceIndex_keepsQuiet env
    exact .inr (.inl ⟨_, _, hgate, hkept.quiet_override, hkept.in_quiet⟩)
  | home hgate => exact .inr (.inl ⟨_, _, hgate, rfl, rfl⟩)
  | unreadableEnd hgate =>
    exact .inr (.inl ⟨_, _, hgate, finish_quiet_override env _, finish_in_quiet env _⟩)
  | unreadable hgate =>
    have hkept := @advanceIndex_keepsQuiet env
    exact .inr (.inl ⟨_, _, hgate, hkept.quiet_override, hkept.in_quiet⟩)
  | clear hgate _ hresolved =>
    have hkept := hresolved.keepsQuiet
    exact .inr (.inl ⟨_, _, hgate, hkept.quiet_override, hkept.in_quiet⟩)
  | pattern hgate _ hresolved =>
    have hkept := hresolved.keepsQuiet
    exact .inr (.inl ⟨_, _, hgate, hkept.quiet_override, hkept.in_quiet⟩)
  | homeSeen hphase => exact hother (by simp [hphase]) ⟨rfl, rfl⟩
  | homed hphase => exact hother (by simp [hphase]) ⟨rfl, rfl⟩
  | skipRun hphase =>
    rw [stopJob_eq]
    exact hother (hrunning hphase) ⟨rfl, rfl⟩
  | jobSeen hphase => exact hother (hrunning hphase) ⟨rfl, rfl⟩
  | notStarted hphase =>
    obtain ⟨v, hkin, _, hfailed | hfailed⟩ := startFailed_cases env t
    · rw [hfailed]
      exact hother (hrunning hphase) (hkin.keepsQuiet.trans finish_keepsQuiet)
    · rw [hfailed]
      exact hother (hrunning hphase) (hkin.keepsQuiet.trans nextSlot_keepsQuiet)
  | cleared hphase =>
    obtain ⟨v, hkin, _, ⟨hdone, _⟩ | ⟨_, hdone⟩⟩ := clearDone_cases env t
    · rw [hdone]
      exact hother (hrunning (.inl hphase)) hkin.keepsQuiet
    · rw [hdone]
      exact hother (hrunning (.inl hphase)) (hkin.keepsQuiet.trans nextSlot_keepsQuiet)
  | drawn => exact .inr (.inr patternDone_quiet_override)
  | pauseSkipped hphase => exact hother (by simp [hphase]) ⟨rfl, rfl⟩
  | paused hphase => exact hother (by simp [hphase]) ⟨rfl, rfl⟩

/-- A turn leaves an override only if it was set, or a skip sets it. -/
theorem Turn.quiet_override {u : Tick} (h : Turn env t u) (hset : u.quiet_override = true) :
    t.quiet_override = true ∨ SkipsGate env t := by
  obtain ⟨_, hkept⟩ | ⟨v, ok, hgate, hkept⟩ | hdropped := h.quiet_cases
  · exact .inl (hkept.quiet_override.symm.trans hset)
  · exact hgate.quiet_override (hkept.quiet_override.symm.trans hset)
  · exact absurd (hdropped.symm.trans hset) (by decide)

theorem phaseStep_completes (h : Completes env t) : t.phaseStep env = t.patternDone env := by
  obtain ⟨hphase, hskip, hseen, hjob, hidle⟩ := h
  unfold phaseStep running
  simp [hphase, hskip, hseen, hjob, hidle, inAlarmState]

end Tick

/-- The machine with the history that permits a playlist to draw in quiet hours:
a skip was consumed at the gate in this run and no pattern has completed since;
as far as it goes back, quiet hours have been over at a call since; and the last
call at which they were over did not come to the gate. -/
structure Gated extends Playlist where
  skipped : Bool := false
  lapsed : Bool := false
  unseen : Bool := false

namespace Gated

/-- The call comes to the quiet-hours gate. -/
def ReachesGate (g : Gated) (env : Env) : Prop :=
  g.Undisturbed env ∧ Tick.ReachesGate env (g.begun env)

/-- The call consumes a skip at the quiet-hours gate. -/
def Overrides (g : Gated) (env : Env) : Prop :=
  g.Undisturbed env ∧ Tick.SkipsGate env (g.begun env)

/-- The call finds the pattern completed. -/
def Completes (g : Gated) (env : Env) : Prop :=
  g.Undisturbed env ∧ Tick.Completes env (g.begun env)

instance (g : Gated) (env : Env) : Decidable (g.ReachesGate env) :=
  inferInstanceAs (Decidable ((_ ∧ _) ∧ _))

instance (g : Gated) (env : Env) : Decidable (g.Overrides env) :=
  inferInstanceAs (Decidable ((_ ∧ _) ∧ _))

instance (g : Gated) (env : Env) : Decidable (g.Completes env) :=
  inferInstanceAs (Decidable ((_ ∧ _) ∧ _))

def step (g : Gated) : Action → Gated
  | .poll env =>
    { toPlaylist := (pollLine env g.toPlaylist).toPlaylist
      skipped :=
        if g.TakesRun env then false
        else if g.Overrides env then true
        else if g.Completes env then false
        else g.skipped
      lapsed := if ¬ env.quietNow then true else if g.Overrides env then false else g.lapsed
      unseen :=
        if ¬ env.quietNow then ¬ g.ReachesGate env else if g.Overrides env then false else g.unseen }
  | .request r => { g with toPlaylist := g.request r }

/-- A playlist hands over a line in quiet hours only on the strength of a skip of
this run and of this quiet interval, with no pattern completed since. -/
def KeepsGate (g : Gated) : Action → Prop
  | .poll env =>
    let t := pollLine env g.toPlaylist
    t.injected ≠ none → t.single = false → env.quietNow = true →
      (g.step (.poll env)).skipped = true ∧ (g.step (.poll env)).lapsed = false
  | .request _ => True

/-- The call consumes a run request while an override is set, which neither
`finish` nor the restart drops. -/
def StartsOverridden (g : Gated) : Action → Prop
  | .poll env => g.TakesRun env ∧ g.quiet_override = true
  | .request _ => False

/-- The call comes to the gate of `NextItem` in quiet hours with an override set,
and no call has come to that gate since quiet hours were last over. -/
def ReturnsOverridden (g : Gated) : Action → Prop
  | .poll env => g.phase = .NextItem ∧ g.single = false ∧ env.quietNow = true ∧
      g.quiet_override = true ∧ g.unseen = true ∧ (g.begun env).req_skip = false
  | .request _ => False

instance (g : Gated) : (a : Action) → Decidable (g.StartsOverridden a)
  | .poll _ => inferInstanceAs (Decidable (_ ∧ _))
  | .request _ => .isFalse not_false

instance (g : Gated) : (a : Action) → Decidable (g.ReturnsOverridden a)
  | .poll _ => inferInstanceAs (Decidable (_ ∧ _))
  | .request _ => .isFalse not_false

/-- In a run, the override stands for a skip of this run. -/
def OverrideInv (g : Gated) : Prop := g.phase ≠ .Off → g.quiet_override = true → g.skipped = true

/-- An override lives inside quiet hours that `NextItem` has seen begin, and if
they have been over since, it was away from the gate. -/
def IntervalInv (g : Gated) : Prop :=
  g.quiet_override = true → g.in_quiet = true ∧ (g.lapsed = true → g.unseen = true)

theorem begun_quiet_override (env : Env) (p : Playlist) :
    (p.begun env).quiet_override = p.quiet_override := Tick.prelude_quiet_override env _

theorem begun_in_quiet (env : Env) (p : Playlist) : (p.begun env).in_quiet = p.in_quiet :=
  Tick.prelude_in_quiet env _

theorem OverrideInv.step {g : Gated} (h : g.OverrideInv) {a : Action} (hstart : ¬ g.StartsOverridden a) :
    (g.step a).OverrideInv := by
  cases a with
  | request r =>
    intro hon hset
    change (g.toPlaylist.request r).phase ≠ .Off at hon
    change (g.toPlaylist.request r).quiet_override = true at hset
    rw [Playlist.request_eq] at hon hset
    exact h hon hset
  | poll env =>
    intro hon hset
    change (pollLine env g.toPlaylist).phase ≠ .Off at hon
    change (pollLine env g.toPlaylist).quiet_override = true at hset
    have hphase : (g.begun env).phase = g.phase := Tick.prelude_phase env _
    have hkept := begun_quiet_override env g.toPlaylist
    rw [pollLine_eq] at hon hset
    obtain ⟨hoff, _, _, hdone⟩ | ⟨_, hdone⟩ | ⟨hstop, hrun, hdone⟩ | ⟨hstop, hrun, hbegun, u, hu, hturn, hdone⟩ :=
      Tick.dispatch_cases env (g.begun env)
    · rw [hdone] at hon
      exact absurd hoff hon
    · rw [hdone] at hon
      exact absurd (Tick.consumeStop_phase env _) hon
    · refine absurd ⟨⟨hrun, by simp [hstop]⟩, ?_⟩ hstart
      rw [← hkept, ← (Tick.consumeRun_keepsQuiet env _).quiet_override, ← hdone]
      exact hset
    · obtain ⟨published, hclosed⟩ := Tick.turn_closed u
      rw [hdone, hclosed] at hset
      have hnoRun : ¬ g.TakesRun env := fun htakes => absurd (htakes.1.symm.trans hrun) (by decide)
      simp only [Gated.step]
      rw [if_neg hnoRun]
      by_cases hskips : g.Overrides env
      · rw [if_pos hskips]
      · rw [if_neg hskips]
        have hbefore : g.quiet_override = true := by
          obtain hbefore | hgate := hturn.quiet_override hset
          · exact hkept.symm.trans hbefore
          · exact absurd ⟨⟨hstop, hrun⟩, hgate⟩ hskips
        by_cases hends : g.Completes env
        · rw [← hu, Tick.phaseStep_completes hends.2] at hset
          exact absurd (Tick.patternDone_quiet_override.symm.trans hset) Bool.false_ne_true
        · rw [if_neg hends]
          exact h (hphase ▸ hbegun) hbefore

/-- A call at which quiet hours are over is missed only away from the gate. -/
theorem step_unseen {g : Gated} {env : Env} (haway : env.quietNow = false → ¬ g.ReachesGate env)
    (h : ¬ g.Overrides env → g.lapsed = true → g.unseen = true)
    (hlapsed : (g.step (.poll env)).lapsed = true) : (g.step (.poll env)).unseen = true := by
  simp only [Gated.step] at hlapsed ⊢
  cases hquiet : env.quietNow with
  | false => simp [haway hquiet]
  | true =>
    by_cases hskips : g.Overrides env
    · simp [hquiet, hskips] at hlapsed
    · simp only [hquiet, not_true_eq_false, if_false, if_neg hskips] at hlapsed ⊢
      exact h hskips hlapsed

theorem IntervalInv.step {g : Gated} (h : g.IntervalInv) (a : Action) : (g.step a).IntervalInv := by
  cases a with
  | request r =>
    intro hset
    change (g.toPlaylist.request r).quiet_override = true at hset
    change (g.toPlaylist.request r).in_quiet = true ∧ _
    rw [Playlist.request_eq] at hset ⊢
    exact h hset
  | poll env =>
    intro hset
    change (pollLine env g.toPlaylist).quiet_override = true at hset
    change (pollLine env g.toPlaylist).in_quiet = true ∧ _
    have hbegun : Tick.KeepsQuiet ⟨g.toPlaylist, [], none⟩ (g.begun env) :=
      ⟨begun_quiet_override env _, begun_in_quiet env _⟩
    have hkeep {u : Tick} (hkept : Tick.KeepsQuiet (g.begun env) u) (hset : u.quiet_override = true)
        (haway : ¬ g.ReachesGate env) : u.in_quiet = true ∧
          ((g.step (.poll env)).lapsed = true → (g.step (.poll env)).unseen = true) := by
      have hsame := hbegun.trans hkept
      obtain ⟨hin, hunseen⟩ := h (hsame.quiet_override.symm.trans hset)
      exact ⟨hsame.in_quiet.trans hin, step_unseen (fun _ => haway) fun _ => hunseen⟩
    rw [pollLine_eq] at hset ⊢
    obtain ⟨hoff, _, _, hdone⟩ | ⟨hstop, hdone⟩ | ⟨_, hrun, hdone⟩ | ⟨hstop, hrun, _, u, _, hturn, hdone⟩ :=
      Tick.dispatch_cases env (g.begun env)
    · rw [hdone] at hset ⊢
      refine hkeep ⟨rfl, rfl⟩ hset fun hreach => ?_
      exact absurd (hoff.symm.trans hreach.2.1) (by decide)
    · rw [hdone] at hset ⊢
      refine hkeep (Tick.consumeStop_keepsQuiet env _) hset fun hreach => ?_
      exact absurd (hstop.symm.trans hreach.1.1) (by decide)
    · rw [hdone] at hset ⊢
      refine hkeep (Tick.consumeRun_keepsQuiet env _) hset fun hreach => ?_
      exact absurd (hrun.symm.trans hreach.1.2) (by decide)
    · obtain ⟨published, hclosed⟩ := Tick.turn_closed u
      rw [hdone, hclosed] at hset ⊢
      change u.quiet_override = true at hset
      change u.in_quiet = true ∧ _
      obtain ⟨haway, hkept⟩ | ⟨v, ok, hgate, hkept⟩ | hdropped := hturn.quiet_cases
      · exact hkeep hkept hset fun hreach => haway hreach.2
      · rw [hkept.in_quiet]
        rw [hkept.quiet_override] at hset
        obtain ⟨hsingle, hquiet, hskip, hopen⟩ | ⟨_, hquiet, _, hopen⟩ | ⟨_, _, hopen⟩ | ⟨_, hout, hopen⟩ :=
          Tick.quietGate_cases env (g.begun env)
        · have hskips : g.Overrides env :=
            ⟨⟨hstop, hrun⟩, hgate.phase, hgate.safe, hsingle, hquiet, hskip⟩
          cases hopen.symm.trans hgate.gate
          refine ⟨rfl, step_unseen (fun hover => ?_) fun hnoSkip => absurd hskips hnoSkip⟩
          exact absurd (hover.symm.trans hquiet) (by decide)
        · cases hopen.symm.trans hgate.gate
          obtain ⟨_, hunseen⟩ := h (hbegun.quiet_override.symm.trans hset)
          refine ⟨rfl, step_unseen (fun hover => ?_) fun _ => hunseen⟩
          exact absurd (hover.symm.trans hquiet) (by decide)
        -- `NextItem` sees the end of quiet hours: the override goes with them.
        · cases hopen.symm.trans hgate.gate
          exact absurd hset Bool.false_ne_true
        · cases hopen.symm.trans hgate.gate
          obtain ⟨hin, _⟩ := h (hbegun.quiet_override.symm.trans hset)
          exact absurd ((hbegun.in_quiet.trans hin).symm.trans hout) (by decide)
      · exact absurd (hdropped.symm.trans hset) (by decide)

/-- An open gate in quiet hours is the work of a skip consumed now, or of an
override that is still set. -/
theorem keepsGate_of_good {g : Gated} (h : g.OverrideInv) (hinterval : g.IntervalInv) {a : Action}
    (hreturn : ¬ g.ReturnsOverridden a) : g.KeepsGate a := by
  cases a with
  | request r => trivial
  | poll env =>
    intro hline hplaylist hquiet
    obtain ⟨⟨hstop, hrun⟩, v, w, hgate, hready, hresolved, hinject⟩ := pollLine_injected hline
    have hnoRun : ¬ g.TakesRun env := fun htakes => absurd (htakes.1.symm.trans hrun) (by decide)
    have hparams : w.toRunParams = v.toRunParams := by
      cases hresolved with
      | cached => rfl
      | read _ hread => rw [Tick.resolveCurrent_eq hread]
    have hsingle : (g.begun env).single = false := by
      have hw : w.single = false := by
        obtain hclear | ⟨_, hpattern⟩ := hinject
        · rw [hclear] at hplaylist
          exact hplaylist
        · rw [hpattern] at hplaylist
          exact hplaylist
      obtain ⟨_, _, _, rfl⟩ := Tick.quietGate_frame hgate.gate
      exact (congrArg RunParams.single hparams).symm.trans hw
    simp only [Gated.step]
    rw [if_neg hnoRun, if_neg (not_not.mpr hquiet)]
    obtain ⟨_, _, hskip, _⟩ | ⟨_, _, hskip, hopen⟩ | ⟨hnot, _⟩ | ⟨hnot, _⟩ :=
      Tick.quietGate_cases env (g.begun env)
    · have hoverrides : g.Overrides env :=
        ⟨⟨hstop, hrun⟩, hgate.phase, hgate.safe, hsingle, hquiet, hskip⟩
      rw [if_pos hoverrides, if_pos hoverrides]
      exact ⟨rfl, rfl⟩
    · have hset : g.quiet_override = true := by
        have hok := congrArg Prod.snd (hopen.symm.trans hgate.gate)
        exact (begun_quiet_override env g.toPlaylist).symm.trans hok
      have hphase : g.phase = .NextItem := (Tick.prelude_phase env _).symm.trans hgate.phase
      have hparam : g.single = false :=
        (congrArg RunParams.single (Tick.prelude_toRunParams env _)).symm.trans hsingle
      have hnoSkip : ¬ g.Overrides env := fun hoverrides => by
        obtain ⟨_, _, _, _, _, hskip'⟩ := hoverrides
        exact absurd (hskip'.symm.trans hskip) (by decide)
      have hnoEnd : ¬ g.Completes env := fun hends =>
        absurd (hgate.phase.symm.trans hends.2.1) (by decide)
      rw [if_neg hnoSkip, if_neg hnoEnd, if_neg hnoSkip]
      refine ⟨h (by simp [hphase]) hset, ?_⟩
      by_contra hlapsed
      have hunseen := (hinterval hset).2 (by simpa using hlapsed)
      exact hreturn ⟨hphase, hparam, hquiet, hset, hunseen, hskip⟩
    · rcases hnot with hnot | hnot
      · exact absurd (hsingle.symm.trans hnot) (by decide)
      · exact absurd (hquiet.symm.trans hnot) (by decide)
    · rcases hnot with hnot | hnot
      · exact absurd (hsingle.symm.trans hnot) (by decide)
      · exact absurd (hquiet.symm.trans hnot) (by decide)

/-- In every run from boot in which no run request is consumed with an override
left over, and no override comes back to the gate in quiet hours that ended and
began again away from it, a playlist draws in quiet hours only what a skip of
this run and of this quiet interval has released. -/
theorem quiet_gate_kept (feed_setting : Option Int) (actions : List Action)
    (hgood : Transition.Throughout step (fun g a => ¬ g.StartsOverridden a ∧ ¬ g.ReturnsOverridden a)
      { toPlaylist := .boot feed_setting } actions) :
    Transition.Throughout step KeepsGate { toPlaylist := .boot feed_setting } actions :=
  Transition.throughout_of_invariant (I := fun g => g.OverrideInv ∧ g.IntervalInv)
    (fun _ a h hgood => ⟨h.1.step hgood.1, h.2.step a⟩)
    (fun _ _ h hgood => keepsGate_of_good h.1 h.2 hgood.2)
    ⟨fun hon => absurd rfl hon, fun hset => absurd hset Bool.false_ne_true⟩ hgood

/-- A table in quiet hours, with or without a line to hand over, and the one
playlist `a` on its card. -/
private def quietTable (line : Bool) : Env where
  line := line
  quiet_slot := true
  settings := { sands_enabled := true }
  files path := if path = bytes "/playlists/a.txt" then some (bytes "/x.thr") else none

theorem quiet_gate_kept_by_skip :
    Transition.Throughout step KeepsGate { toPlaylist := .boot none }
      [.request (.run (bytes "a") .Idle), .poll (quietTable true), .request .skip,
        .poll (quietTable true)] :=
  quiet_gate_kept none _ (by decide)

/-- The skip of a run that was stopped before it drew lets a pattern of the next
run through. -/
theorem quiet_gate_passed_by_earlier_skip :
    ¬ ∀ (feed_setting : Option Int) (actions : List Action),
      Transition.Throughout step KeepsGate { toPlaylist := .boot feed_setting } actions := by
  intro h
  obtain ⟨_, _, _, _, _, _, _, _, hkeeps, _⟩ := h none [.request (.run (bytes "a") .Idle),
    .poll (quietTable true), .request .skip, .poll (quietTable false), .request .stop,
    .poll (quietTable false), .request (.run (bytes "a") .Idle), .poll (quietTable false),
    .poll (quietTable true)]
  exact absurd (hkeeps (by decide) (by decide) (by decide)).1 (by decide)

end Gated

end DuneWeaver
