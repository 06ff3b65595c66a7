import DuneWeaver.Playlist.SkipItem
import DuneWeaver.Protocol.StaleStop

namespace DuneWeaver

/-- A system under watch for a consumed skip: whether the item of the last line
has been skipped, whether that line is the pattern of its item, and whether a stop
was posted for its job since it was handed over. A line goes on with the item of
the line before when the clear of that item has been decided on. -/
structure SkipWatch extends System where
  skipped : Bool := false
  drawing : Bool := false
  stopPosted : Bool := false

namespace SkipWatch

def step (w : SkipWatch) (a : Move) : SkipWatch :=
  let s := w.toSystem.step a
  match w.calls a with
  | some env =>
    let t := pollLine env w.playlist
    if t.injected ≠ none then
      { toSystem := s
        skipped := w.skipped && w.playlist.clear_done
        drawing := t.phase = .RunPattern
        stopPosted := false }
    else
      { toSystem := s
        skipped := w.skipped || w.playlist.TakesSkip env
        drawing := w.drawing
        stopPosted := w.stopPosted ||
          (w.view.playing && (s.event_queue.drop w.event_queue.length).any fun item => item.event = .stopJob) }
  | none => { w with toSystem := s }

/-- The pattern of a skipped item is not drawn to its end: when its job is active,
a stop has been posted for it. -/
def SkipKept (w : SkipWatch) : Prop := w.skipped → w.drawing → w.view.playing → w.stopPosted

instance (w : SkipWatch) : Decidable w.SkipKept := inferInstanceAs (Decidable (_ → _ → _ → _))

/-- The skip of a pattern is not consumed between the hand-over of its line and the
nesting of its job, and finds room in the queue when there is a job to abort. -/
def Reached (w : SkipWatch) (a : Move) : Prop :=
  ∀ env ∈ w.calls a, w.playlist.TakesSkip env → w.playlist.phase = .RunPattern →
    ¬ w.view.Handed ∧ (w.view.playing → w.Room env)

instance (w : SkipWatch) (a : Move) : Decidable (w.Reached a) := inferInstanceAs (Decidable (∀ _ ∈ _, _))

/-- Once skipped, an item is past; if it has come to its pattern, the pattern's
line has nested its job or never will, and the job's stop is posted. -/
structure Inv (w : SkipWatch) : Prop where
  tidy : w.Tidy
  pattern : w.playlist.phase = .RunPattern → w.drawing
  clear : w.playlist.phase = .RunClear → ¬ w.drawing
  past : w.skipped → w.playlist.PastItem
  unhanded : w.skipped → w.drawing → ¬ w.view.Handed
  kept : w.SkipKept

variable {w : SkipWatch} {a : Move}

theorem step_toSystem (w : SkipWatch) (a : Move) : (w.step a).toSystem = w.toSystem.step a := by
  unfold step
  dsimp only
  split
  · split_ifs <;> rfl
  · rfl

private theorem Inv.of_view {v : View} (hview : w.view = v) (htidy : w.Tidy)
    (hpattern : v.playlist.phase = .RunPattern → w.drawing) (hclear : v.playlist.phase = .RunClear → ¬ w.drawing)
    (hpast : w.skipped → v.playlist.PastItem) (hunhanded : w.skipped → w.drawing → ¬ v.Handed)
    (hkept : w.skipped → w.drawing → v.playing → w.stopPosted) : w.Inv := by
  subst hview
  exact ⟨htidy, hpattern, hclear, hpast, hunhanded, hkept⟩

/-- Moves without a call change neither the item nor what is posted for it. -/
private theorem quiet_inv (hinv : w.Inv) {v : View} (hview : (w.step a).view = v) (htidy : (w.step a).Tidy)
    (hdid : Did w.toSystem a v) (hcalls : w.calls a = none) (hphase : v.playlist.phase = w.playlist.phase)
    (hpast : w.playlist.PastItem → v.playlist.PastItem) : (w.step a).Inv := by
  have hwatch : w.step a = { w with toSystem := w.toSystem.step a } := by
    unfold step
    rw [hcalls]
  have hskipped : (w.step a).skipped = w.skipped := by rw [hwatch]
  have hdrawing : (w.step a).drawing = w.drawing := by rw [hwatch]
  have hposted : (w.step a).stopPosted = w.stopPosted := by rw [hwatch]
  have hunhanded (h : w.skipped) (h' : w.drawing) : ¬ v.Handed := by
    intro hhanded
    obtain hbefore | ⟨env, hcalls', _⟩ := handed_did hdid hhanded
    · exact hinv.unhanded h h' hbefore
    · simp [hcalls] at hcalls'
  refine .of_view hview htidy ?_ ?_ ?_ ?_ ?_
  · rw [hphase, hdrawing]
    exact hinv.pattern
  · rw [hphase, hdrawing]
    exact hinv.clear
  · rw [hskipped]
    exact fun h => hpast (hinv.past h)
  · rw [hskipped, hdrawing]
    exact hunhanded
  · rw [hskipped, hdrawing, hposted]
    intro h h' hplaying
    exact hinv.kept h h' (playing_before hinv.tidy.view hdid hplaying (hinv.unhanded h h'))

/-- A call that hands over no line keeps the item skipped, and one that consumes
the skip of an active pattern posts its stop. -/
private theorem called_inv (hinv : w.Inv) (hgood : w.Reached a) {v : View} (hview : (w.step a).view = v)
    (htidy : (w.step a).Tidy) (hdid : Did w.toSystem a v) {env : Env} (hcalls : w.calls a = some env)
    (hline : (pollLine env w.playlist).injected = none)
    (hplaylist : v.playlist = (pollLine env w.playlist).toPlaylist) {extra : List EventItem}
    (hqueue : v.event_queue = w.event_queue ++ extra) (hposts : Posts w.toSystem env extra) : (w.step a).Inv := by
  have hwatch : w.step a = { w with
      toSystem := w.toSystem.step a
      skipped := w.skipped || w.playlist.TakesSkip env
      stopPosted := w.stopPosted || (w.view.playing &&
        ((w.toSystem.step a).event_queue.drop w.event_queue.length).any fun item => item.event = .stopJob) } := by
    unfold step
    rw [hcalls]
    exact if_neg (not_not.mpr hline)
  have hafter : (w.toSystem.step a).event_queue = v.event_queue := by rw [← hview, ← step_toSystem]; rfl
  have hadded : (w.toSystem.step a).event_queue.drop w.event_queue.length = extra := by
    rw [hafter, hqueue, List.drop_left]
  rw [hadded] at hwatch
  have hskipped : (w.step a).skipped → w.skipped ∨ w.playlist.TakesSkip env := by simp [hwatch]
  have hdrawing : (w.step a).drawing = w.drawing := by rw [hwatch]
  obtain ⟨hpast, hphase⟩ := pollLine_pastItem hline
  -- a skip that is consumed with a pattern in hand or active is the skip of that pattern
  have hpattern (htakes : w.playlist.TakesSkip env) (hdraws : w.drawing) : w.playlist.phase = .RunPattern :=
    htakes.phase.resolve_left fun h => hinv.clear h hdraws
  have hfree (h : (w.step a).skipped) (hdraws : w.drawing) : ¬ w.view.Handed := by
    obtain hbefore | htakes := hskipped h
    · exact hinv.unhanded hbefore hdraws
    · exact (hgood env hcalls htakes (hpattern htakes hdraws)).1
  refine .of_view hview htidy ?_ ?_ ?_ ?_ ?_
  · rw [hplaylist, hdrawing]
    exact fun h => hinv.pattern ((hphase (.inr h)).symm.trans h)
  · rw [hplaylist, hdrawing]
    exact fun h => hinv.clear ((hphase (.inl h)).symm.trans h)
  · rw [hplaylist]
    intro h
    obtain hbefore | htakes := hskipped h
    · exact hpast (hinv.past hbefore)
    · exact htakes.pastItem
  · rw [hdrawing]
    intro h hdraws hhanded
    obtain hbefore | ⟨env', hcalls', hline', _⟩ := handed_did hdid hhanded
    · exact hfree h hdraws hbefore
    · obtain rfl := Option.some.inj (hcalls.symm.trans hcalls')
      exact hline' hline
  · rw [hdrawing]
    intro h hdraws hplaying
    have hbefore := playing_before hinv.tidy.view hdid hplaying (hfree h hdraws)
    obtain hskip | htakes := hskipped h
    · simp [hwatch, hinv.kept hskip hdraws hbefore]
    · have hactive : env.job_active = true :=
        (System.calls_job_active hcalls).mpr fun hempty => View.not_playing_of_empty hempty hbefore
      have hmem := (stopJob_mem_iff env w.playlist).mpr ⟨hactive, .inr (.inr htakes)⟩
      have hroom := (hgood env hcalls htakes (hpattern htakes hdraws)).2 hbefore
      obtain ⟨item, hitem, hevent⟩ := hposts.room hroom _ hmem
      have hany : (extra.any fun item => item.event = .stopJob) = true :=
        List.any_eq_true.mpr ⟨item, hitem, by simp [hevent]⟩
      simp [hwatch, hbefore, hany]

/-- The step lemma. -/
theorem Inv.step (hinv : w.Inv) (hgood : w.Reached a) : (w.step a).Inv := by
  obtain ⟨htidy, v, hview, hdid⟩ := hinv.tidy.step_view (step_toSystem w a)
  have hall := hdid
  cases hdid with
  | went hcalls _ hgoes =>
    cases hgoes with
    | requested r =>
      refine quiet_inv hinv hview htidy hall hcalls ?_ ?_
      · dsimp only
        rw [Playlist.request_eq]
      · intro h
        rw [Playlist.request_eq]
        exact h
    | _ => exact quiet_inv hinv hview htidy hall hcalls rfl id
  | handled hcalls => exact quiet_inv hinv hview htidy hall hcalls rfl id
  | called hcalls _ hline hposts _ => exact called_inv hinv hgood hview htidy hall hcalls hline rfl rfl hposts
  | @injected env extra line ops hcalls _ _ hjobs hline hposts =>
    have hline' : (pollLine env w.playlist).injected ≠ none := by simp [hline]
    obtain ⟨hother, hphase⟩ := pollLine_injected_item hline'
    have hwatch : w.step a =
        { toSystem := w.toSystem.step a
          skipped := w.skipped && w.playlist.clear_done
          drawing := (pollLine env w.playlist).phase = .RunPattern
          stopPosted := false } := by
      unfold SkipWatch.step
      rw [hcalls]
      exact if_pos hline'
    have hnot : ¬ (w.step a).skipped := by
      rw [hwatch]
      cases hskip : w.skipped with
      | false => simp
      | true => simp [hother (hinv.past hskip)]
    refine .of_view hview htidy (fun h => ?_) (fun h => ?_) (absurd · hnot) (absurd · hnot) (absurd · hnot)
    · rw [hwatch]
      exact decide_eq_true h
    · rw [hwatch]
      simp only [decide_eq_true_eq]
      rw [show (pollLine env w.playlist).phase = .RunClear from h]
      exact nofun

def boot (feed_setting : Option Int) (planner_blocks : Nat) : SkipWatch :=
  { toSystem := System.boot feed_setting planner_blocks }

theorem boot_inv (feed_setting : Option Int) (planner_blocks : Nat) : (boot feed_setting planner_blocks).Inv := by
  refine ⟨System.boot_tidy feed_setting planner_blocks, ?_, ?_, ?_, ?_, ?_⟩ <;>
    simp [boot, System.boot, Playlist.boot, SkipKept]

/-- In every run whose skips reach the pattern they are for, no consumed skip is
lost. -/
theorem skip_is_kept (feed_setting : Option Int) (planner_blocks : Nat) (moves : List Move)
    (hreached : Transition.Throughout step Reached (boot feed_setting planner_blocks) moves) :
    Transition.Always step SkipKept (boot feed_setting planner_blocks) moves :=
  (Transition.always_of_invariant (fun _ _ hinv hgood => hinv.step hgood)
    (boot_inv feed_setting planner_blocks) hreached).mono fun _ hinv => hinv.kept

/-- The skip is consumed while its pattern's job is active. -/
def skipRunningJob : List Move :=
  System.handOver ++ List.replicate 5 .main ++ [.request .skip] ++ List.replicate 101 (.poller {})

set_option maxRecDepth 20000 in
theorem skip_of_running_job_is_kept :
    Transition.Always step SkipKept (boot none 16) skipRunningJob ∧
      (Transition.run step (boot none 16) skipRunningJob).skipped ∧
      (Transition.run step (boot none 16) skipRunningJob).stopPosted :=
  ⟨skip_is_kept none 16 skipRunningJob (by decide), by decide, by decide⟩

/-- The main task lets the line wait until the skip is consumed, nests its job
only then, and the job is drawn to its end. -/
def skipBeforeNesting : List Move :=
  System.handOver ++ [.request .skip] ++ List.replicate 101 (.poller {}) ++ List.replicate 2 .main

/-- The job goes on until its file ends, and the machine takes the item for done. -/
def drawnToEnd : List Move :=
  skipBeforeNesting ++ List.replicate 3 .main ++ List.replicate 102 (.poller {}) ++ [.poller { job := .eof }] ++
    List.replicate 3 (.poller {})

set_option maxRecDepth 40000 in
/-- With no job active yet, the skip posts nothing, and nothing posts it later: the
pattern is drawn to its end. -/
theorem skip_before_nesting_is_lost :
    (¬ ∀ moves, Transition.Always step SkipKept (boot none 16) moves) ∧
      let w := Transition.run step (boot none 16) drawnToEnd
      w.skipped ∧ w.drawing ∧ w.jobs = [] ∧ w.playlist.phase = .Off ∧ ¬ w.stopPosted :=
  ⟨fun h => absurd (h skipBeforeNesting).last (by decide), by decide⟩

end SkipWatch

end DuneWeaver
