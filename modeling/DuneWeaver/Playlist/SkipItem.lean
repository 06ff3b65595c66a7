import DuneWeaver.Playlist.Consumed

namespace DuneWeaver

/-- The machine does not go on with the item whose line it has handed over last:
it watches its pattern, or watches its clear and is to skip it, or has ended, or
has come to an item whose clear has not been decided on. -/
def Playlist.PastItem (p : Playlist) : Prop :=
  p.phase = .RunPattern ∨ p.phase = .RunClear ∧ p.skip_active = true ∨ p.phase = .Off ∨ p.clear_done = false

namespace Tick

variable {env : Env} {t u : Tick}

private theorem pastItem_of_decided (h : u.clear_done = false) : u.PastItem := .inr (.inr (.inr h))

private theorem finish_pastItem : (t.finish env).PastItem := .inr (.inr (.inl rfl))

theorem NextSlot.clear_done (h : NextSlot env t u) : u.clear_done = false := by
  cases h with
  | next => rfl
  | wrap => rfl

private theorem advanceIndex_pastItem : (t.advanceIndex env).1.PastItem := by
  obtain ⟨u, hslot, hadvance⟩ | ⟨u, _, hadvance⟩ := t.advanceIndex_cases env
  · rw [hadvance]
    exact pastItem_of_decided hslot.clear_done
  · rw [hadvance]
    exact finish_pastItem

private theorem nextSlot_pastItem : (t.nextSlot env).PastItem := by
  obtain ⟨u, hslot, hnext⟩ | ⟨u, _, hnext⟩ := t.nextSlot_cases env
  · rw [hnext]
    exact pastItem_of_decided hslot.clear_done
  · rw [hnext]
    exact finish_pastItem

/-- A skipped clear is followed by the next slot, not by its pattern. -/
private theorem clearDone_pastItem (hskip : t.skip_active = true ∨ t.clear_done = false) :
    (t.clearDone env).PastItem := by
  unfold clearDone
  dsimp only
  split_ifs with hactive
  · exact nextSlot_pastItem
  · exact pastItem_of_decided (hskip.resolve_left hactive)

private theorem gate_clear_done {ok : Bool} (hgate : AtGate env t u ok) :
    u.phase = .NextItem ∧ u.clear_done = t.clear_done := by
  obtain ⟨_, _, _, rfl⟩ := quietGate_frame hgate.gate
  exact ⟨hgate.phase, rfl⟩

/-- A turn that hands over no line leaves a past item past. -/
theorem Turn.pastItem (h : Turn env t u) (hpast : t.PastItem) (hnone : u.injected = none) :
    u.PastItem := by
  have hdecided (hphase : t.phase ≠ .RunPattern) (hclear : t.phase ≠ .RunClear) (hon : t.phase ≠ .Off) :
      t.clear_done = false := by
    obtain hpattern | ⟨hrun, _⟩ | hoff | hdone := hpast
    · exact absurd hpattern hphase
    · exact absurd hrun hclear
    · exact absurd hoff hon
    · exact hdone
  have hgated {v : Tick} {ok : Bool} (hgate : AtGate env t v ok) : v.clear_done = false := by
    rw [(gate_clear_done hgate).2]
    exact hdecided (by simp [hgate.phase]) (by simp [hgate.phase]) (by simp [hgate.phase])
  cases h with
  | canceled => exact finish_pastItem
  | waited => exact hpast
  | gated hgate => exact pastItem_of_decided (hgated hgate)
  | deferred hgate => exact pastItem_of_decided (hgated hgate)
  | skipped => exact advanceIndex_pastItem
  | home hgate =>
    have hdone := hgated hgate
    exact pastItem_of_decided hdone
  | unreadableEnd => exact finish_pastItem
  | unreadable => exact advanceIndex_pastItem
  | clear => simp [injectClear, inject] at hnone
  | pattern => simp [injectPattern, inject] at hnone
  | homeSeen hphase =>
    exact pastItem_of_decided (hdecided (by simp [hphase]) (by simp [hphase]) (by simp [hphase]))
  | homed hphase =>
    exact pastItem_of_decided (hdecided (by simp [hphase]) (by simp [hphase]) (by simp [hphase]))
  | skipRun hphase =>
    rw [stopJob_eq]
    obtain hclear | hpattern := hphase
    · exact .inr (.inl ⟨hclear, rfl⟩)
    · exact .inl hpattern
  | jobSeen => exact hpast
  | notStarted =>
    obtain ⟨v, _, _, hfailed | hfailed⟩ := startFailed_cases env t
    · rw [hfailed]
      exact finish_pastItem
    · rw [hfailed]
      exact nextSlot_pastItem
  | cleared hphase =>
    refine clearDone_pastItem ?_
    obtain hpattern | ⟨_, hskip⟩ | hoff | hdone := hpast
    · simp [hphase] at hpattern
    · exact .inl hskip
    · simp [hphase] at hoff
    · exact .inr hdone
  | drawn =>
    obtain ⟨v, w, hslot, _, hcursor, _, hdone⟩ | ⟨v, _, hdone⟩ := patternDone_cases env t
    · rw [hdone]
      have hclear : w.clear_done = v.clear_done := congrArg Cursor.clear_done hcursor
      exact pastItem_of_decided (hclear.trans hslot.clear_done)
    · rw [hdone]
      exact finish_pastItem
  | pauseSkipped hphase =>
    exact pastItem_of_decided (hdecided (by simp [hphase]) (by simp [hphase]) (by simp [hphase]))
  | paused hphase =>
    exact pastItem_of_decided (hdecided (by simp [hphase]) (by simp [hphase]) (by simp [hphase]))

/-- The machine watches neither a clear nor a pattern. -/
private def Unwatched (p : Playlist) : Prop := p.phase ≠ .RunClear ∧ p.phase ≠ .RunPattern

private theorem finish_unwatched : Unwatched (t.finish env).toPlaylist := ⟨nofun, nofun⟩

private theorem nextSlot_unwatched : Unwatched (t.nextSlot env).toPlaylist := by
  obtain ⟨u, _, hnext⟩ | ⟨u, _, hnext⟩ := t.nextSlot_cases env
  · rw [hnext]
    exact ⟨nofun, nofun⟩
  · rw [hnext]
    exact finish_unwatched

private theorem advanceIndex_unwatched (h : Unwatched t.toPlaylist) : Unwatched (t.advanceIndex env).1.toPlaylist := by
  obtain ⟨u, hslot, hadvance⟩ | ⟨u, _, hadvance⟩ := t.advanceIndex_cases env
  · rw [hadvance]
    unfold Unwatched
    rw [hslot.phase_eq]
    exact h
  · rw [hadvance]
    exact finish_unwatched

/-- A turn that hands over no line comes to no clear and no pattern. -/
theorem Turn.run_phase (h : Turn env t u) (hnone : u.injected = none)
    (hrun : u.phase = .RunClear ∨ u.phase = .RunPattern) : u.phase = t.phase := by
  have hnot (hunwatched : Unwatched u.toPlaylist) : u.phase = t.phase :=
    (hrun.elim hunwatched.1 hunwatched.2).elim
  have hgated {v : Tick} {ok : Bool} (hgate : AtGate env t v ok) : Unwatched v.toPlaylist := by
    unfold Unwatched
    rw [(gate_clear_done hgate).1]
    exact ⟨nofun, nofun⟩
  cases h with
  | canceled => exact hnot finish_unwatched
  | gated hgate => exact hnot (hgated hgate)
  | deferred hgate => exact hnot (hgated hgate)
  | skipped hgate =>
    have hbefore := hgated hgate
    exact hnot (advanceIndex_unwatched hbefore)
  | home => exact hnot ⟨nofun, nofun⟩
  | unreadableEnd => exact hnot finish_unwatched
  | unreadable hgate =>
    have hbefore := hgated hgate
    exact hnot (advanceIndex_unwatched hbefore)
  | clear => simp [injectClear, inject] at hnone
  | pattern => simp [injectPattern, inject] at hnone
  | homed => exact hnot ⟨nofun, nofun⟩
  | skipRun =>
    rw [stopJob_eq]
  | notStarted =>
    obtain ⟨v, _, _, hfailed | hfailed⟩ := startFailed_cases env t
    · exact hnot (hfailed ▸ finish_unwatched)
    · exact hnot (hfailed ▸ nextSlot_unwatched)
  | cleared =>
    obtain ⟨v, _, _, ⟨hdone, hon⟩ | ⟨_, hdone⟩⟩ := clearDone_cases env t
    · refine hnot ?_
      rw [hdone]
      unfold Unwatched
      rw [hon]
      exact ⟨nofun, nofun⟩
    · exact hnot (hdone ▸ nextSlot_unwatched)
  | drawn =>
    obtain ⟨v, w, _, _, _, hon, hdone⟩ | ⟨v, _, hdone⟩ := patternDone_cases env t
    · refine hnot ?_
      rw [hdone]
      unfold Unwatched
      obtain hon | hon := hon <;> rw [hon] <;> exact ⟨nofun, nofun⟩
    · exact hnot (hdone ▸ finish_unwatched)
  | pauseSkipped => exact hnot ⟨nofun, nofun⟩
  | paused => exact hnot ⟨nofun, nofun⟩
  | _ => rfl

theorem loadPlaylist_clear_done {name : Bytes} (hok : (t.loadPlaylist env name).2 = true) :
    (t.loadPlaylist env name).1.clear_done = false := by
  revert hok
  unfold loadPlaylist
  cases env.read 0 (playlistFile env name) with
  | none => exact nofun
  | some content =>
    dsimp only
    by_cases hempty : scanValidLines (fun count _ _ => (count + 1, true)) 0 content = 0
    · rw [if_pos hempty]
      exact nofun
    · rw [if_neg hempty]
      split
      · exact nofun
      · rename_i u hresolve
        rw [resolveCurrent_eq hresolve]
        exact fun _ => rfl

/-- A consumed run request puts an end to the item. -/
private theorem consumeRun_pastItem (env : Env) (t : Tick) :
    (t.consumeRun env).PastItem ∧ Unwatched (t.consumeRun env).toPlaylist := by
  obtain ⟨_, hconsumed⟩ | ⟨_, hok, hconsumed⟩ | ⟨_, _, hconsumed⟩ := consumeRun_cases env t
  · rw [hconsumed]
    exact ⟨pastItem_of_decided rfl, nofun, nofun⟩
  · rw [hconsumed]
    exact ⟨pastItem_of_decided (loadPlaylist_clear_done hok), nofun, nofun⟩
  · rw [hconsumed]
    exact ⟨finish_pastItem, finish_unwatched⟩

end Tick

variable {env : Env} {p : Playlist}

private theorem Playlist.PastItem.begun (h : p.PastItem) : (p.begun env).PastItem := by
  obtain ⟨_, _, _, _, _, hframe⟩ := Tick.prelude_frame env { toPlaylist := p }
  unfold Playlist.begun
  rw [hframe]
  exact h

/-- A call that hands over no line leaves a past item past, and comes to no clear
and no pattern. -/
theorem pollLine_pastItem (hnone : (pollLine env p).injected = none) :
    (p.PastItem → (pollLine env p).PastItem) ∧
      ((pollLine env p).phase = .RunClear ∨ (pollLine env p).phase = .RunPattern →
        (pollLine env p).phase = p.phase) := by
  have hphase : (p.begun env).phase = p.phase := Tick.prelude_phase env _
  rw [pollLine_eq] at hnone ⊢
  obtain ⟨_, _, _, hdone⟩ | ⟨_, hdone⟩ | ⟨_, _, hdone⟩ | ⟨_, _, _, u, _, hturn, hdone⟩ :=
    Tick.dispatch_cases env (p.begun env)
  · rw [hdone]
    refine ⟨fun h => ?_, fun _ => hphase⟩
    have hbegun := @Playlist.PastItem.begun env _ h
    exact hbegun
  · rw [hdone]
    have hoff := Tick.consumeStop_phase env (p.begun env)
    exact ⟨fun _ => .inr (.inr (.inl hoff)), fun h => by simp [hoff] at h⟩
  · rw [hdone]
    obtain ⟨hpast, hclear, hpattern⟩ := Tick.consumeRun_pastItem env (p.begun env)
    exact ⟨fun _ => hpast, fun h => (h.elim hclear hpattern).elim⟩
  · obtain ⟨published, hclosed⟩ := Tick.turn_closed u
    rw [hdone, hclosed] at hnone ⊢
    exact ⟨fun h => hturn.pastItem h.begun hnone, fun h => (hturn.run_phase hnone h).trans hphase⟩

/-- After a skip was consumed the item of the last line is past. -/
theorem Playlist.TakesSkip.pastItem (h : p.TakesSkip env) : (pollLine env p).PastItem := by
  obtain ⟨published, hdone⟩ := h.done
  have hphase : (p.begun env).phase = p.phase := Tick.prelude_phase env _
  rw [hdone, Tick.stopJob_eq]
  obtain hclear | hpattern := h.phase
  · exact .inr (.inl ⟨hphase.trans hclear, rfl⟩)
  · exact .inl (hphase.trans hpattern)

/-- The line of a past item is followed by a line of another item, and a call that
hands over a line comes to its clear or its pattern. -/
theorem pollLine_injected_item (hline : (pollLine env p).injected ≠ none) :
    (p.PastItem → p.clear_done = false) ∧
      ((pollLine env p).phase = .RunClear ∨ (pollLine env p).phase = .RunPattern) := by
  have hphase : (p.begun env).phase = p.phase := Tick.prelude_phase env _
  obtain ⟨_, v, w, hgate, _, _, hinject⟩ := pollLine_injected hline
  have hnext : p.phase = .NextItem := hphase.symm.trans hgate.phase
  refine ⟨fun hpast => ?_, ?_⟩
  · obtain h | ⟨h, _⟩ | h | hdone := hpast
    · simp [hnext] at h
    · simp [hnext] at h
    · simp [hnext] at h
    · exact hdone
  · obtain hinject | ⟨_, hinject⟩ := hinject
    · rw [hinject]
      exact .inl rfl
    · rw [hinject]
      exact .inr rfl

end DuneWeaver
