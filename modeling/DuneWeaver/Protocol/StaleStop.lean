import DuneWeaver.Protocol.Tidy
import DuneWeaver.Transition.Run

namespace DuneWeaver

/-- A stop the playlist posted before it handed over the line of this number. -/
def Cause.before (line : Nat) : Cause → Bool
  | .Stop (some number) => number < line
  | _ => false

/-- Such a stop, still in the queue. -/
def EventItem.before (line : Nat) (item : EventItem) : Bool :=
  item.event = .stopJob && item.posted.any (· < line)

namespace View

/-- What unwinds the jobs was not posted before the line was handed over that a
job on the stack goes back to. -/
def Spares (v : View) : Prop := ∀ cause ∈ v.unwind_cause, ∀ job ∈ v.jobs, ∀ line ∈ job.origin, ¬ cause.before line

instance (v : View) : Decidable v.Spares := inferInstanceAs (Decidable (∀ _ ∈ _, _))

/-- The jobs are unwound by a stop of the playlist. -/
def unwinding (v : View) : Bool :=
  match v.unwind_cause with
  | some (.Stop (some _)) => true
  | _ => false

end View

/-- Where the queued events and the cause of an unwinding come from, in one step:
from before, from elsewhere, or from a call of the playlist and from the queue. -/
structure Traced (s : System) (a : Move) (v : View) : Prop where
  queue : ∀ item ∈ v.event_queue, item ∈ s.event_queue ∨ item.posted = none ∨
    ∃ env, s.calls a = some env ∧ item.event ∈ (pollLine env s.playlist).events ∧ item.posted = some s.injected
  cause : ∀ posted, v.unwind_cause = some (.Stop posted) → s.unwind_cause = some (.Stop posted) ∨
    ∃ item ∈ s.event_queue, item.event = .stopJob ∧ item.posted = posted

theorem Looked.cause {s : System} {hand : Option Line} {cause : Option Cause} (h : Looked s hand cause)
    {posted : Option Nat}
    (heq : cause = some (.Stop posted)) : s.unwind_cause = some (.Stop posted) := by
  cases h with
  | no => exact heq
  | yes => simp at heq

theorem did_traced {s : System} {a : Move} {v : View} (hdid : Did s a v) : Traced s a v := by
  have hsame {item : EventItem} (hmem : item ∈ s.event_queue) {p : Prop} : item ∈ s.event_queue ∨ p := .inl hmem
  cases hdid with
  | went _ _ hgoes =>
    cases hgoes with
    | posted event =>
      refine ⟨fun item hmem => ?_, fun posted heq => .inl heq⟩
      obtain hmem | hmem := List.mem_append.mp hmem
      · exact .inl hmem
      · rw [List.mem_singleton.mp hmem]
        exact .inr (.inl rfl)
    | outside _ hcause =>
      refine ⟨fun item hmem => .inl hmem, fun posted heq => .inl ?_⟩
      obtain rfl | rfl := hcause
      · simp at heq
      · exact heq
    | looked hlooked => exact ⟨fun item hmem => .inl hmem, fun posted heq => .inl (hlooked.cause heq)⟩
    | aborted => exact ⟨fun item hmem => .inl hmem, fun posted heq => by simp at heq⟩
    | _ => exact ⟨fun item hmem => .inl hmem, fun posted heq => .inl heq⟩
  | @handled item rest _ _ hqueue _ _ =>
    have hitem : item ∈ s.event_queue := by rw [hqueue]; exact .head _
    refine ⟨fun queued hmem => .inl (by rw [hqueue]; exact .tail _ hmem), fun posted heq => ?_⟩
    unfold View.handle at heq
    dsimp only at heq
    split_ifs at heq with hstop
    · exact .inr ⟨item, hitem, hstop.1, by simpa using heq⟩
    · exact .inl heq
  | called hcalls _ _ hposts hlooked =>
    refine ⟨fun item hmem => ?_, fun posted heq => .inl (hlooked.cause heq)⟩
    obtain hmem | hmem := List.mem_append.mp hmem
    · exact .inl hmem
    · exact .inr (.inr ⟨_, hcalls, (hposts.posted item hmem).2, (hposts.posted item hmem).1⟩)
  | injected hcalls _ _ _ _ hposts =>
    refine ⟨fun item hmem => ?_, fun posted heq => by simp at heq⟩
    obtain hmem | hmem := List.mem_append.mp hmem
    · exact .inl hmem
    · exact .inr (.inr ⟨_, hcalls, (hposts.posted item hmem).2, (hposts.posted item hmem).1⟩)

/-- The lines handed over are counted: one more when the playlist hands over a
line, with no job on the stack. -/
theorem did_injected {s : System} {a : Move} {v : View} (hdid : Did s a v) :
    (v.injected = s.injected ∧ ∀ env ∈ s.calls a, (pollLine env s.playlist).injected = none) ∨
    (v.injected = s.injected + 1 ∧ v.jobs = [] ∧ v.unwind_cause = none ∧
      ∃ env, s.calls a = some env ∧ (pollLine env s.playlist).injected ≠ none) := by
  have hnone (hcalls : s.calls a = none) : ∀ env ∈ s.calls a, (pollLine env s.playlist).injected = none := by
    simp [hcalls]
  cases hdid with
  | went hcalls _ hgoes => cases hgoes <;> exact .inl ⟨rfl, hnone hcalls⟩
  | handled hcalls => exact .inl ⟨rfl, hnone hcalls⟩
  | @called env _ _ _ hcalls _ hline _ _ =>
    refine .inl ⟨rfl, fun other hother => ?_⟩
    obtain rfl := Option.some.inj (hcalls.symm.trans hother)
    exact hline
  | injected hcalls _ _ hjobs hline _ => exact .inr ⟨rfl, hjobs, rfl, _, hcalls, by simp [hline]⟩

instance (env : Env) (p : Playlist) : Decidable (p.Undisturbed env) := inferInstanceAs (Decidable (_ ∧ _))

instance (env : Env) (p : Playlist) : Decidable (p.TakesSkip env) :=
  decidable_of_iff
    (p.Undisturbed env ∧ inAlarmState env.state = false ∧ (p.phase = .RunClear ∨ p.phase = .RunPattern) ∧
      (p.begun env).req_skip = true)
    ⟨fun h => ⟨h.1, h.2.1, h.2.2.1, h.2.2.2⟩, fun h => ⟨h.1, h.2, h.3, h.4⟩⟩

instance (env : Env) (p : Playlist) : Decidable (p.Aborts env) := inferInstanceAs (Decidable (_ ∨ _ ∨ _))

/-- A system under watch for the playlist's own stops: whether a request was
consumed for which it aborts a job since the last line was handed over, and
whether a stop of the playlist took a job of that line off the stack. -/
structure CutWatch extends System where
  asked : Bool := false
  cut : Bool := false

namespace CutWatch

def step (w : CutWatch) (a : Move) : CutWatch :=
  let s := w.toSystem.step a
  let cut := w.cut || (w.view.unwinding && w.view.playing && !s.view.playing)
  match w.calls a with
  | some env =>
    if (pollLine env w.playlist).injected ≠ none then { toSystem := s, asked := false, cut := false }
    else { toSystem := s, asked := w.asked || w.playlist.Aborts env, cut := cut }
  | none => { toSystem := s, asked := w.asked, cut := cut }

/-- No stop hits a later job, and a pattern is cut short by the playlist only when
that was asked for after its line was handed over. -/
structure SparesLater (w : CutWatch) : Prop where
  spares : w.view.Spares
  asked : w.cut → w.asked

/-- When a line of the playlist nests its job, no stop posted before the line was
handed over is left in the queue, or has begun to unwind what is on the stack. -/
def StartsClean (w : CutWatch) (a : Move) : Prop :=
  ∀ source ∈ w.nests a, source.ofPlaylist →
    (∀ item ∈ w.event_queue, ¬ item.before w.injected) ∧ ∀ cause ∈ w.unwind_cause, ¬ cause.before w.injected

instance (w : CutWatch) (a : Move) : Decidable (w.StartsClean a) := inferInstanceAs (Decidable (∀ _ ∈ _, _))

/-- While a job of the playlist is on the stack, the playlist's stops are of the
time of its line; and a stop of that time was asked for. -/
structure Inv (w : CutWatch) : Prop where
  tidy : w.Tidy
  queued : w.view.playing → ∀ item ∈ w.event_queue, ¬ item.before w.injected
  unwinding : w.view.playing → ∀ cause ∈ w.unwind_cause, ¬ cause.before w.injected
  queuedAsked : ∀ item ∈ w.event_queue, item.event = .stopJob → item.posted = some w.injected → w.asked
  unwindingAsked : w.unwind_cause = some (.Stop (some w.injected)) → w.asked
  cutAsked : w.cut → w.asked

variable {w : CutWatch} {a : Move}

theorem Inv.sparesLater (h : w.Inv) : w.SparesLater := by
  refine ⟨fun cause hcause job hmem line hline => ?_, h.cutAsked⟩
  have hplaying : w.view.playing := List.any_eq_true.mpr ⟨job, hmem, Option.isSome_iff_exists.mpr ⟨line, hline⟩⟩
  rw [h.tidy.view.origins job hmem line hline]
  exact h.unwinding hplaying cause hcause

theorem step_toSystem (w : CutWatch) (a : Move) : (w.step a).toSystem = w.toSystem.step a := by
  unfold step
  dsimp only
  split
  · split_ifs <;> rfl
  · rfl

/-- What has been asked for stays so until the next line, and a call that aborts a
job asks for it. -/
private theorem step_asked (hline : ∀ env ∈ w.calls a, (pollLine env w.playlist).injected = none) :
    (w.asked → (w.step a).asked) ∧ (∀ env ∈ w.calls a, w.playlist.Aborts env → (w.step a).asked) ∧
      (w.step a).cut = (w.cut || (w.view.unwinding && w.view.playing && !(w.toSystem.step a).view.playing)) := by
  unfold step
  dsimp only
  cases hcalls : w.calls a with
  | none => exact ⟨id, by simp, rfl⟩
  | some env =>
    dsimp only
    rw [if_neg (not_not.mpr (hline env hcalls))]
    refine ⟨fun h => by simp [h], fun other hother haborts => ?_, rfl⟩
    obtain rfl := Option.some.inj hother
    simp [haborts]

private theorem unwinding_iff (v : View) : v.unwinding ↔ ∃ number, v.unwind_cause = some (.Stop (some number)) := by
  unfold View.unwinding
  cases v.unwind_cause with
  | none => simp
  | some cause =>
    cases cause with
    | Reset => simp
    | Stop posted => cases posted <;> simp

/-- A new line starts with nothing asked for. -/
private theorem injected_inv (hinv : w.Inv) {v : View} (htraced : Traced w.toSystem a v)
    (hview : (w.step a).view = v) (htidy : (w.step a).Tidy) (hcount : v.injected = w.injected + 1)
    (hjobs : v.jobs = []) (hcause : v.unwind_cause = none) (hcut : (w.step a).cut = false) : (w.step a).Inv := by
  subst hview
  have hnot := View.not_playing_of_empty hjobs
  refine ⟨htidy, (absurd · hnot), (absurd · hnot), fun item hmem _ hposted => ?_, fun heq => ?_, by simp [hcut]⟩
  · exfalso
    rw [← System.view_injected, hcount] at hposted
    obtain hmem | hnone | ⟨_, _, _, hstamp⟩ := htraced.queue item hmem
    · exact Nat.not_succ_le_self _ (hinv.tidy.view.posted item hmem _ hposted)
    · simp [hnone] at hposted
    · simp [hstamp] at hposted
  · rw [← System.view_unwind_cause, hcause] at heq
    simp at heq

/-- The step lemma. -/
theorem Inv.step (hinv : w.Inv) (hclean : w.StartsClean a) : (w.step a).Inv := by
  obtain ⟨htidy, v, hview, hdid⟩ := hinv.tidy.step_view (step_toSystem w a)
  have hview' : (w.toSystem.step a).view = v := step_toSystem w a ▸ hview
  have htraced := did_traced hdid
  obtain ⟨hcount, hline⟩ | ⟨hcount, hjobs, hcause, env, hcalls, hline⟩ := did_injected hdid
  swap
  · refine injected_inv hinv htraced hview htidy hcount hjobs hcause ?_
    unfold CutWatch.step
    rw [hcalls]
    dsimp only
    rw [if_pos hline]
  obtain ⟨hkept, hasks, hcut⟩ := step_asked hline
  rw [hview'] at hcut
  have hclean' (hplaying : v.playing) :
      (∀ item ∈ w.event_queue, ¬ item.before w.injected) ∧ ∀ cause ∈ w.unwind_cause, ¬ cause.before w.injected := by
    obtain hbefore | ⟨number, hnests⟩ := playing_did hinv.tidy.view hdid hplaying
    · exact ⟨hinv.queued hbefore, hinv.unwinding hbefore⟩
    · exact hclean _ hnests rfl
  subst hview
  refine ⟨htidy, fun hplaying item hmem => ?_, fun hplaying cause hmem => ?_, fun item hmem hstop hposted => ?_,
    fun heq => ?_, fun hcut' => ?_⟩
  · rw [← System.view_injected, hcount]
    obtain hmem | hnone | ⟨_, _, _, hstamp⟩ := htraced.queue item hmem
    · exact (hclean' hplaying).1 item hmem
    · simp [EventItem.before, hnone]
    · simp [EventItem.before, hstamp]
  · rw [← System.view_injected, hcount]
    cases cause with
    | Reset => simp [Cause.before]
    | Stop posted =>
      obtain hcause | ⟨item, hqueued, hstop, rfl⟩ := htraced.cause posted hmem
      · exact (hclean' hplaying).2 _ hcause
      · have hnot := (hclean' hplaying).1 item hqueued
        cases hposted : item.posted <;> simp_all [EventItem.before, Cause.before]
  · rw [← System.view_injected, hcount] at hposted
    obtain hmem | hnone | ⟨env, hcalls, hevent, _⟩ := htraced.queue item hmem
    · exact hkept (hinv.queuedAsked item hmem hstop hposted)
    · simp [hnone] at hposted
    · rw [hstop] at hevent
      exact hasks env hcalls ((stopJob_mem_iff env w.playlist).mp hevent).2
  · rw [← System.view_injected, hcount] at heq
    obtain hcause | ⟨item, hmem, hstop, hposted⟩ := htraced.cause _ heq
    · exact hkept (hinv.unwindingAsked hcause)
    · exact hkept (hinv.queuedAsked item hmem hstop hposted)
  · rw [hcut, Bool.or_eq_true, Bool.and_eq_true, Bool.and_eq_true] at hcut'
    obtain hbefore | ⟨⟨hunwinds, hplaying⟩, _⟩ := hcut'
    · exact hkept (hinv.cutAsked hbefore)
    · obtain ⟨number, hnumber⟩ := (unwinding_iff w.view).mp hunwinds
      have hle := hinv.tidy.view.unwinding number hnumber
      have hge : w.injected ≤ number := by simpa [Cause.before] using hinv.unwinding hplaying _ hnumber
      obtain rfl : number = w.injected := Nat.le_antisymm hle hge
      exact hkept (hinv.unwindingAsked hnumber)

def boot (feed_setting : Option Int) (planner_blocks : Nat) : CutWatch :=
  { toSystem := System.boot feed_setting planner_blocks }

theorem boot_inv (feed_setting : Option Int) (planner_blocks : Nat) : (boot feed_setting planner_blocks).Inv := by
  refine ⟨System.boot_tidy feed_setting planner_blocks, ?_, ?_, ?_, ?_, ?_⟩ <;> simp [boot, System.boot]

/-- In every run in which the jobs of the playlist start clean, a stop of the
playlist never hits a later job. -/
theorem stop_spares_later_jobs (feed_setting : Option Int) (planner_blocks : Nat) (moves : List Move)
    (hclean : Transition.Throughout step StartsClean (boot feed_setting planner_blocks) moves) :
    Transition.Always step SparesLater (boot feed_setting planner_blocks) moves :=
  (Transition.always_of_invariant (fun _ _ hinv hgood => hinv.step hgood)
    (boot_inv feed_setting planner_blocks) hclean).mono fun _ hinv => hinv.sparesLater

/-- A run is restarted while its job is active, and the stop handled before the
next line is handed over. -/
def restartInOrder : List Move :=
  System.handOver ++ List.replicate 5 .main ++ [.request (.single (bytes "/b.thr") [] .Idle)] ++
    List.replicate 101 (.poller {}) ++ List.replicate 3 .main ++ List.replicate 4 (.poller {}) ++
    List.replicate 5 .main

set_option maxRecDepth 20000 in
theorem restart_in_order_spares_later_job :
    Transition.Always step SparesLater (boot none 16) restartInOrder ∧
      (Transition.run step (boot none 16) restartInOrder).view.playing :=
  ⟨stop_spares_later_jobs none 16 restartInOrder (by decide), by decide⟩

/-- The job ends by itself in the pass that posts its stop; the next line is handed
over and its job nested before the main task comes to the stop. -/
def restartAtEnd : List Move :=
  System.handOver ++ List.replicate 5 .main ++ [.request (.single (bytes "/b.thr") [] .Idle)] ++
    List.replicate 101 (.poller {}) ++ [.poller { job := .eof }] ++ List.replicate 2 (.poller {}) ++
    List.replicate 5 .main ++ List.replicate 2 (.poller {})

set_option maxRecDepth 20000 in
/-- The stop of the restart hits the job the restart has started. -/
theorem restart_at_end_cuts_later_job :
    ¬ ∀ moves, Transition.Always step SparesLater (boot none 16) moves :=
  fun h => absurd ((h restartAtEnd).last.asked (by decide)) (by decide)

end CutWatch

end DuneWeaver
