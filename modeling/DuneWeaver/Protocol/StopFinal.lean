import DuneWeaver.Protocol.Tidy
import DuneWeaver.Transition.Run

namespace DuneWeaver

/-- A job of the playlist goes on: the poller unwinds it neither for an alarm nor
for a stop, and asks it for lines. -/
def View.Drawing (v : View) : Prop := v.playing ∧ v.unwind_cause = none ∧ inAlarmState v.state = false

instance (v : View) : Decidable v.Drawing := inferInstanceAs (Decidable (_ ∧ _ ∧ _))

/-- A system under watch for a consumed stop: whether one has ended a run with no
run request consumed since, and how many of the events queued by then are left. -/
structure StopWatch extends System where
  stopped : Bool := false
  pending : Nat := 0

namespace StopWatch

def step (w : StopWatch) (a : Move) : StopWatch :=
  let s := w.toSystem.step a
  match w.calls a with
  | some env =>
    if w.playlist.TakesStop env then
      { toSystem := s, stopped := true, pending := s.event_queue.length }
    else if w.playlist.TakesRun env then { toSystem := s, stopped := false, pending := w.pending }
    else { toSystem := s, stopped := w.stopped, pending := w.pending }
  | none =>
    { toSystem := s, stopped := w.stopped, pending := w.pending - if (w.handles a).isSome then 1 else 0 }

/-- Once the events of its moment are handled, a stop is final: no job of the
playlist goes on. -/
def StopIsFinal (w : StopWatch) : Prop := w.stopped → w.pending = 0 → ¬ w.view.Drawing

instance (w : StopWatch) : Decidable w.StopIsFinal := inferInstanceAs (Decidable (_ → _ → _))

/-- One of the events left is a stop. -/
def StopPending (w : StopWatch) : Prop := ∃ item ∈ w.event_queue.take w.pending, item.event = .stopJob

instance (w : StopWatch) : Decidable w.StopPending := inferInstanceAs (Decidable (∃ _ ∈ _, _))

/-- What it takes. A stop is not consumed between the hand-over of a line and the
nesting of its job, finds room in the queue when there is a job to abort, and is
handled in a state in which `protocol_do_stop_job` acts; and no alarm, which ends
the job as well, is cleared before the poller has seen it. -/
structure Reached (w : StopWatch) (a : Move) : Prop where
  consumed : ∀ env ∈ w.calls a, w.playlist.TakesStop env →
    ¬ w.view.Handed ∧ (w.view.playing → w.Room env)
  handled : ∀ item ∈ w.handles a, item.event = .stopJob → w.stopped → w.view.Drawing → w.state.stoppable
  alarmed : w.stopped → w.view.playing → w.unwind_cause = none → inAlarmState w.state →
    inAlarmState (w.toSystem.step a).state ∨ w.StopPending

instance (w : StopWatch) (a : Move) : Decidable (w.Reached a) :=
  decidable_of_iff
    ((∀ env ∈ w.calls a, w.playlist.TakesStop env → ¬ w.view.Handed ∧ (w.view.playing → w.Room env)) ∧
      (∀ item ∈ w.handles a, item.event = .stopJob → w.stopped → w.view.Drawing → w.state.stoppable) ∧
      (w.stopped → w.view.playing → w.unwind_cause = none → inAlarmState w.state →
        inAlarmState (w.toSystem.step a).state ∨ w.StopPending))
    ⟨fun h => ⟨h.1, h.2.1, h.2.2⟩, fun h => ⟨h.1, h.2, h.3⟩⟩

/-- What holds after a stop: the machine is Off, no line of the playlist is about
to nest a job, and the jobs it has nested are being unwound, are about to be for
an alarm, or still have the stop ahead of them. -/
structure Inv (w : StopWatch) : Prop where
  tidy : w.Tidy
  off : w.stopped → w.playlist.phase = .Off
  unhanded : w.stopped → ¬ w.view.Handed
  condemned : w.stopped → w.view.playing →
    w.unwind_cause ≠ none ∨ inAlarmState w.state ∨ w.StopPending

theorem Inv.final {w : StopWatch} (h : w.Inv) : w.StopIsFinal := by
  rintro hstopped hpending ⟨hplaying, hcause, hsafe⟩
  obtain hunwinds | halarm | ⟨item, hmem, _⟩ := h.condemned hstopped hplaying
  · exact hunwinds hcause
  · exact absurd (halarm.symm.trans hsafe) (by decide)
  · simp [hpending] at hmem

section Step

variable {w : StopWatch} {a : Move}

private theorem step_of_went (hcalls : w.calls a = none) (hhandles : w.handles a = none) :
    w.step a = { w with toSystem := w.toSystem.step a } := by
  unfold step
  rw [hcalls, hhandles]
  rfl

private theorem step_of_handled {item : EventItem} (hcalls : w.calls a = none) (hhandles : w.handles a = some item) :
    w.step a = { w with toSystem := w.toSystem.step a, pending := w.pending - 1 } := by
  unfold step
  rw [hcalls, hhandles]
  rfl

private theorem mem_take_append {items extra : List EventItem} {count : Nat} {item : EventItem}
    (h : item ∈ items.take count) : item ∈ (items ++ extra).take count := by
  rw [List.take_append]
  exact List.mem_append_left _ h

/-- Moves without a call and without an event keep the jobs condemned. -/
private theorem went_condemned (hinv : w.Inv) (hgood : w.Reached a) {v : View} (hview : (w.toSystem.step a).view = v)
    (hgoes : Goes w.toSystem a v) (hdid : Did w.toSystem a v) (hstopped : w.stopped) (hplaying : v.playing) :
    v.unwind_cause ≠ none ∨ inAlarmState v.state ∨
      ∃ item ∈ v.event_queue.take w.pending, item.event = .stopJob := by
  have hbefore := playing_before hinv.tidy.view hdid hplaying (hinv.unhanded hstopped)
  have hsame := hinv.condemned hstopped hbefore
  cases hgoes with
  | posted event =>
    obtain hunwinds | halarm | ⟨item, hmem, hevent⟩ := hsame
    · exact .inl hunwinds
    · exact .inr (.inl halarm)
    · exact .inr (.inr ⟨item, mem_take_append hmem, hevent⟩)
  | outside state hcause =>
    by_cases hnone : w.unwind_cause = none
    · obtain hunwinds | halarm | hpending := hsame
      · exact absurd hnone hunwinds
      · obtain hstays | hpending := hgood.alarmed hstopped hbefore hnone halarm
        · have hstate : (w.toSystem.step a).state = state := congrArg View.state hview
          exact .inr (.inl (hstate ▸ hstays))
        · exact .inr (.inr hpending)
      · exact .inr (.inr hpending)
    · obtain hunwinds | hempty := unwinding_did hdid hnone
      · exact .inl hunwinds
      · exact absurd hplaying (View.not_playing_of_empty hempty)
  | looked hlooked =>
    cases hlooked with
    | no => exact hsame
    | yes _ hjobs _ => exact absurd hbefore (View.not_playing_of_empty hjobs)
  | aborted => exact absurd hplaying (View.not_playing_of_empty rfl)
  | _ => exact hsame

/-- Handling an event keeps them condemned: the stop itself unwinds them. -/
private theorem handled_condemned (hinv : w.Inv) (hgood : w.Reached a) {item : EventItem} {rest : List EventItem}
    {state : State} (hview : (w.toSystem.step a).view = w.view.handle item rest state)
    (hhandles : w.handles a = some item) (hqueue : w.event_queue = item :: rest)
    (hignored : item.event = .stopJob → w.state.stoppable = false → state = w.state)
    (hdid : Did w.toSystem a (w.view.handle item rest state)) (hstopped : w.stopped)
    (hplaying : (w.view.handle item rest state).playing) :
    (w.view.handle item rest state).unwind_cause ≠ none ∨ inAlarmState state ∨
      ∃ item ∈ rest.take (w.pending - 1), item.event = .stopJob := by
  have hbefore := playing_before hinv.tidy.view hdid hplaying (hinv.unhanded hstopped)
  by_cases hunwinds : w.unwind_cause = none
  swap
  · obtain hunwinds | hempty := unwinding_did hdid hunwinds
    · exact .inl hunwinds
    · exact absurd hplaying (View.not_playing_of_empty hempty)
  by_cases hstop : item.event = .stopJob
  · by_cases hacts : w.state.stoppable
    · left
      have hjobs : w.jobs ≠ [] := fun hempty => View.not_playing_of_empty hempty hbefore
      unfold View.handle
      dsimp only
      rw [if_pos ⟨hstop, hacts, hjobs⟩]
      simp
    · have halarm : inAlarmState w.state := by
        by_contra hsafe
        exact hacts (hgood.handled item hhandles hstop hstopped ⟨hbefore, hunwinds, by simpa using hsafe⟩)
      rw [hignored hstop (by simpa using hacts)]
      exact .inr (.inl halarm)
  · have hlater (hpending : w.StopPending) : ∃ item ∈ rest.take (w.pending - 1), item.event = .stopJob := by
      obtain ⟨posted, hmem, hevent⟩ := hpending
      rw [hqueue] at hmem
      cases hcount : w.pending with
      | zero => simp [hcount] at hmem
      | succ count =>
        rw [hcount, List.take_succ_cons] at hmem
        obtain rfl | hmem := List.mem_cons.mp hmem
        · exact absurd hevent hstop
        · exact ⟨posted, hmem, hevent⟩
    obtain hcause | halarm | hpending := hinv.condemned hstopped hbefore
    · exact absurd hunwinds hcause
    · obtain hstays | hpending := hgood.alarmed hstopped hbefore hunwinds halarm
      · have hstate : (w.toSystem.step a).state = state := congrArg View.state hview
        exact .inr (.inl (hstate ▸ hstays))
      · exact .inr (.inr (hlater hpending))
    · exact .inr (.inr (hlater hpending))

theorem step_toSystem (w : StopWatch) (a : Move) : (w.step a).toSystem = w.toSystem.step a := by
  unfold step
  dsimp only
  split
  · split_ifs <;> rfl
  · rfl

private theorem Inv.of_view {w : StopWatch} {v : View} (hview : w.view = v) (htidy : w.Tidy)
    (hoff : w.stopped → v.playlist.phase = .Off) (hunhanded : w.stopped → ¬ v.Handed)
    (hcondemned : w.stopped → v.playing → v.unwind_cause ≠ none ∨ inAlarmState v.state ∨
      ∃ item ∈ v.event_queue.take w.pending, item.event = .stopJob) : w.Inv := by
  subst hview
  exact ⟨htidy, hoff, hunhanded, hcondemned⟩

/-- A poll that consumes a stop aborts what it finds, and one that consumes
nothing leaves the stop as it is. -/
private theorem called_inv (hinv : w.Inv) (hgood : w.Reached a) (htidy : (w.step a).Tidy) {env : Env}
    (hcalls : w.calls a = some env) {extra : List EventItem} {hand : Option Line} {cause : Option Cause}
    (hposts : Posts w.toSystem env extra) (hlooked : Looked w.toSystem hand cause) {v : View}
    (hview : (w.step a).view = v) (hv : v = { w.view with
      playlist := (pollLine env w.playlist).toPlaylist, event_queue := w.event_queue ++ extra
      hand := hand, unwind_cause := cause }) (hdid : Did w.toSystem a v)
        (hline : (pollLine env w.playlist).injected = none) :
    (w.step a).Inv := by
  have hkept (hhanded : v.Handed) : w.view.Handed := by
    obtain hbefore | ⟨env', hcalls', hline', _⟩ := handed_did hdid hhanded
    · exact hbefore
    · obtain rfl := Option.some.inj (hcalls.symm.trans hcalls')
      exact absurd hline hline'
  have hqueue : v.event_queue = w.event_queue ++ extra := by rw [hv]
  have hphase : v.playlist.phase = (pollLine env w.playlist).phase := by rw [hv]
  by_cases hstop : w.playlist.TakesStop env
  · obtain ⟨hunhanded, hroom⟩ := hgood.consumed env hcalls hstop
    have hwatch : w.step a =
        { toSystem := w.toSystem.step a, stopped := true, pending := (w.toSystem.step a).event_queue.length } := by
      unfold step
      rw [hcalls]
      exact if_pos hstop
    have hlength : (w.step a).pending = v.event_queue.length := by
      rw [← hview, hwatch]
      rfl
    refine .of_view hview htidy (fun _ => hphase.trans hstop.off.1) (fun _ => mt hkept hunhanded) fun _ hplaying => ?_
    have hbefore := playing_before hinv.tidy.view hdid hplaying hunhanded
    have hactive : env.job_active = true :=
      (System.calls_job_active hcalls).mpr fun hempty => View.not_playing_of_empty hempty hbefore
    have hmem := (stopJob_mem_iff env w.playlist).mpr ⟨hactive, .inl hstop⟩
    obtain ⟨item, hitem, hevent⟩ := hposts.room (hroom hbefore) _ hmem
    refine .inr (.inr ⟨item, ?_, hevent⟩)
    rw [hlength, List.take_length, hqueue]
    exact List.mem_append_right _ hitem
  by_cases hrun : w.playlist.TakesRun env
  · have hwatch : (w.step a).stopped = false := by
      unfold step
      rw [hcalls]
      dsimp only
      rw [if_neg hstop, if_pos hrun]
    have hnot : ¬ (w.step a).stopped := by simp [hwatch]
    exact .of_view hview htidy (absurd · hnot) (absurd · hnot) (absurd · hnot)
  · have hwatch : w.step a = { w with toSystem := w.toSystem.step a } := by
      unfold step
      rw [hcalls]
      dsimp only
      rw [if_neg hstop, if_neg hrun]
    have hstopped (h : (w.step a).stopped) : w.stopped := by rwa [hwatch] at h
    have hpending : (w.step a).pending = w.pending := by rw [hwatch]
    refine .of_view hview htidy ?_ ?_ ?_
    · intro h
      exact hphase.trans (pollLine_off (hinv.off (hstopped h)) hrun).1
    · exact fun h => mt hkept (hinv.unhanded (hstopped h))
    · intro h hplaying
      have hbefore := playing_before hinv.tidy.view hdid hplaying (hinv.unhanded (hstopped h))
      rw [hpending, hqueue]
      cases hlooked with
      | yes _ hjobs _ => exact absurd hbefore (View.not_playing_of_empty hjobs)
      | no =>
        rw [hv]
        obtain hunwinds | halarm | ⟨item, hmem, hevent⟩ := hinv.condemned (hstopped h) hbefore
        · exact .inl hunwinds
        · exact .inr (.inl halarm)
        · exact .inr (.inr ⟨item, mem_take_append hmem, hevent⟩)

/-- The step lemma. -/
theorem Inv.step (hinv : w.Inv) (hgood : w.Reached a) : (w.step a).Inv := by
  obtain ⟨htidy, v, hview, hdid⟩ := hinv.tidy.step_view (step_toSystem w a)
  have hview' : (w.toSystem.step a).view = v := step_toSystem w a ▸ hview
  have hall := hdid
  cases hdid with
  | went hcalls hhandles hgoes =>
    have hwatch := step_of_went hcalls hhandles
    have hstopped (h : (w.step a).stopped) : w.stopped := by rwa [hwatch] at h
    have hpending : (w.step a).pending = w.pending := by rw [hwatch]
    refine .of_view hview htidy (fun h => ?_) (fun h hhanded => ?_) (fun h hplaying => ?_)
    · have hoff := hinv.off (hstopped h)
      cases hgoes with
      | requested r =>
        dsimp only
        rw [Playlist.request_eq]
        exact hoff
      | _ => exact hoff
    · obtain hbefore | ⟨env, hcalls', _⟩ := handed_did hall hhanded
      · exact hinv.unhanded (hstopped h) hbefore
      · simp [hcalls] at hcalls'
    · rw [hpending]
      exact went_condemned hinv hgood hview' hgoes hall (hstopped h) hplaying
  | handled hcalls hhandles hqueue hignored =>
    have hwatch := step_of_handled hcalls hhandles
    have hstopped (h : (w.step a).stopped) : w.stopped := by rwa [hwatch] at h
    have hpending : (w.step a).pending = w.pending - 1 := by rw [hwatch]
    refine .of_view hview htidy (fun h => hinv.off (hstopped h)) (fun h => hinv.unhanded (hstopped h))
      fun h hplaying => ?_
    rw [hpending]
    exact handled_condemned hinv hgood hview' hhandles hqueue hignored hall (hstopped h) hplaying
  | called hcalls _ hline hposts hlooked =>
    exact called_inv hinv hgood htidy hcalls hposts hlooked hview rfl hall hline
  | @injected env extra line ops hcalls _ _ _ hline _ =>
    have hnoStop : ¬ w.playlist.TakesStop env := fun h => by simp [h.off.2] at hline
    have hnoRun : ¬ w.playlist.TakesRun env := fun h => by
      obtain ⟨⟨_, hrun⟩, _⟩ := @pollLine_injected env w.playlist (by simp [hline])
      simp [h.1] at hrun
    have hnot : ¬ w.stopped := fun h => by simp [(pollLine_off (hinv.off h) hnoRun).2] at hline
    have hwatch : ¬ (w.step a).stopped := by
      unfold StopWatch.step
      rw [hcalls]
      dsimp only
      rw [if_neg hnoStop, if_neg hnoRun]
      exact hnot
    exact .of_view hview htidy (absurd · hwatch) (absurd · hwatch) (absurd · hwatch)

end Step

def boot (feed_setting : Option Int) (planner_blocks : Nat) : StopWatch :=
  { toSystem := System.boot feed_setting planner_blocks }

theorem boot_inv (feed_setting : Option Int) (planner_blocks : Nat) : (boot feed_setting planner_blocks).Inv := by
  refine ⟨System.boot_tidy feed_setting planner_blocks, ?_, ?_, ?_⟩ <;>
    exact fun h => absurd h Bool.false_ne_true

/-- In every run of the system whose stops reach the jobs they end, a consumed
stop is final. -/
theorem stop_is_final (feed_setting : Option Int) (planner_blocks : Nat) (moves : List Move)
    (hreached : Transition.Throughout step Reached (boot feed_setting planner_blocks) moves) :
    Transition.Always step StopIsFinal (boot feed_setting planner_blocks) moves :=
  (Transition.always_of_invariant (fun _ _ hinv hgood => hinv.step hgood)
    (boot_inv feed_setting planner_blocks) hreached).mono fun _ hinv => hinv.final

/-- The stop is consumed while the job runs, and its event handled; then the
poller aborts the job. -/
def stopRunningJob : List Move :=
  System.handOver ++ List.replicate 5 .main ++ [.request .stop] ++ List.replicate 101 (.poller {}) ++
    List.replicate 3 .main ++ [.poller {}]

set_option maxRecDepth 20000 in
theorem stop_of_running_job_is_final :
    Transition.Always step StopIsFinal (boot none 16) stopRunningJob ∧
      (Transition.run step (boot none 16) stopRunningJob).jobs = [] :=
  ⟨stop_is_final none 16 stopRunningJob (by decide), by decide⟩

/-- The main task lets the line wait until the stop is consumed, and nests its
job only then. -/
def stopBeforeNesting : List Move :=
  System.handOver ++ [.request .stop] ++ List.replicate 101 (.poller {}) ++ List.replicate 2 .main

set_option maxRecDepth 20000 in
/-- With no job active yet, the stop posts nothing: the job it should end starts
afterwards. -/
theorem stop_before_nesting_is_lost :
    ¬ ∀ moves, Transition.Always step StopIsFinal (boot none 16) moves :=
  fun h => absurd (h stopBeforeNesting).last (by decide)

end StopWatch

end DuneWeaver
