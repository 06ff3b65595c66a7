import DuneWeaver.Protocol.Tidy
import DuneWeaver.Transition.Run

namespace DuneWeaver

def Op.isMove : Op → Bool
  | .move _ _ => true
  | _ => false

/-- A line of one of the jobs is in hand, with a motion of it left to plan. -/
def View.MotionOf (ids : List Nat) (v : View) : Prop :=
  ∃ line ∈ v.hand, (∃ id ∈ line.source.jobId, id ∈ ids) ∧ (v.moving.isSome ∨ ∃ op ∈ line.ops, op.isMove)

instance (ids : List Nat) (v : View) : Decidable (v.MotionOf ids) := inferInstanceAs (Decidable (∃ _ ∈ _, _))

namespace System

/-- A handler plans nothing: it keeps the planner queue or throws it away. -/
private theorem handle_plan (item : EventItem) (s : System) :
    (s.handle item).plan = s.plan ∨ (s.handle item).plan = [] := by
  unfold handle
  cases item.event with
  | feedHold => exact .inl (Realtime.protocol_do_feedhold_plan _)
  | cycleStart => exact .inl (Realtime.protocol_do_cycle_start_plan _)
  | stopJob => exact Realtime.protocol_do_stop_job_plan _ _ _
  | cycleStop => exact Realtime.protocol_do_cycle_stop_plan _
  | motionCancel => exact .inl (Realtime.protocol_do_motion_cancel_plan _)
  | doMacro => exact .inl rfl
  | other => exact .inl rfl

private theorem execute_realtime_plan {s : System} {resume : System → System} (hresume : (resume s).plan = s.plan) :
    (s.protocol_execute_realtime resume).plan = s.plan ∨ (s.protocol_execute_realtime resume).plan = [] := by
  unfold protocol_execute_realtime
  cases s.event_queue with
  | nil =>
    dsimp only
    split_ifs
    · exact .inl (Realtime.mc_cancel_jog_plan _)
    · exact .inl rfl
    · exact .inl hresume
  | cons item rest => exact handle_plan item { s with event_queue := rest }

private theorem auto_cycle_start_plan (s : System) : s.protocol_auto_cycle_start.plan = s.plan := by
  unfold protocol_auto_cycle_start
  split_ifs
  · rw [protocol_send_event_eq]
  · rfl

private theorem pollPlaylist_plan (line : Bool) (env : Env) (s : System) : (s.pollPlaylist line env).plan = s.plan := by
  obtain ⟨_, _, _, heq⟩ := pollPlaylist_eq line env s
  rw [heq]

private theorem polling_loop_plan (pass : Pass) (s : System) : (s.polling_loop pass).plan = s.plan := by
  have hpoll (line : Bool) (t : System) : (t.pollPlaylist line pass.env).plan = t.plan := pollPlaylist_plan line _ t
  unfold polling_loop
  cases s.poller with
  | channels =>
    dsimp only
    unfold pollChannels
    dsimp only
    split_ifs
    · rfl
    · exact hpoll false _
    · rfl
  | line =>
    dsimp only
    unfold pollLines
    dsimp only
    cases s.activeLine with
    | some line => rfl
    | none =>
      dsimp only
      cases s.jobs with
      | nil =>
        dsimp only
        unfold pollForLine
        dsimp only
        by_cases hreached : pass.reached
        · rw [if_pos hreached]
          split
          · exact hpoll true _
          · exact hpoll true _
        · rw [if_neg hreached]
      | cons job rest =>
        dsimp only
        unfold abortJobs
        split_ifs
        · rfl
        · rfl
        · cases pass.job <;> rfl

/-- Only the motion that waits in `mc_move_motors` is planned, and as a motion of
the job its line came from. -/
theorem step_planned (s : System) (a : Move) (id : Nat) : (s.step a).planned id ≤ s.planned id ∨
    ∃ source, s.moving = some source ∧ source.jobId = some id := by
  have hkept {m : Realtime} (h : m.plan = s.plan ∨ m.plan = []) : m.planned id ≤ s.planned id := by
    unfold Realtime.planned
    obtain h | h := h <;> rw [h]
    simp
  cases a with
  | poller pass => exact .inl (hkept (.inl (polling_loop_plan pass s)))
  | request r => exact .inl le_rfl
  | post event =>
    rw [step, protocol_send_event_eq]
    exact .inl le_rfl
  | discard =>
    left
    exact (List.tail_sublist s.plan).countP_le
  | outside o =>
    left
    refine hkept ?_
    unfold step outside
    dsimp only
    split_ifs
    · exact .inr rfl
    · exact .inl rfl
  | main =>
    unfold step protocol_main_loop
    cases hmain : s.main with
    | top =>
      dsimp only
      cases s.activeLine <;> exact .inl le_rfl
    | autoCycleStart => exact .inl (hkept (.inl (auto_cycle_start_plan s)))
    | exec source ops =>
      cases ops with
      | nil => exact .inl le_rfl
      | cons op ops =>
        cases op with
        | synchronize => exact .inl le_rfl
        | runFile opens =>
          unfold runFile
          dsimp only
          split_ifs <;> exact .inl le_rfl
        | move is_jog arc =>
          dsimp only
          split_ifs <;> exact .inl le_rfl
    | move source is_jog arc ops =>
      by_cases hfull : s.plan_check_full_buffer
      · dsimp only
        rw [if_pos hfull]
        exact .inl (hkept (.inl (auto_cycle_start_plan s)))
      · by_cases hjob : source.jobId = some id
        · exact .inr ⟨source, by simp only [moving, hmain], hjob⟩
        · left
          dsimp only
          rw [if_neg hfull]
          unfold Realtime.planned
          dsimp only
          split_ifs
          · simp [hjob]
          · exact le_rfl
    | moveRealtime source is_jog arc ops =>
      refine .inl (hkept (execute_realtime_plan ?_))
      split_ifs <;> rfl
    | synchronize source ops => exact .inl (hkept (.inl (auto_cycle_start_plan s)))
    | synchronizeRealtime source ops =>
      refine .inl (hkept (execute_realtime_plan ?_))
      split_ifs <;> rfl
    | realtime => exact .inl (hkept (execute_realtime_plan rfl))

end System

/-- A motion of a line of one of the jobs is in hand only as what was in hand
before goes on, or with a line a job hands over that is not unwound. -/
theorem motion_did {s : System} {a : Move} {v : View} (hdid : Did s a v) {ids : List Nat} (hmotion : v.MotionOf ids) :
    s.view.MotionOf ids ∨ ∃ job ∈ s.jobs, job.id ∈ ids ∧ s.unwind_cause = none := by
  obtain ⟨line, hmem, ⟨id, hid, hids⟩, hleft⟩ := hmotion
  have hlater {source : Source} {ops rest : List Op} (hhand : s.hand = some { source := source, ops := ops })
      (hline : line ∈ some ({ source := source, ops := rest } : Line)) (hrest : ∀ op ∈ rest, op ∈ ops)
      (hops : ∃ op ∈ line.ops, op.isMove) : s.view.MotionOf ids := by
    obtain rfl := Option.some.inj hline
    obtain ⟨op, hop, hmove⟩ := hops
    exact ⟨_, hhand, ⟨id, hid, hids⟩, .inr ⟨op, hrest op hop, hmove⟩⟩
  have hlooked {hand : Option Line} {cause : Option Cause} (hlooked : Looked s hand cause) (hmem : line ∈ hand)
      (hleft : s.moving.isSome ∨ ∃ op ∈ line.ops, op.isMove) : s.view.MotionOf ids := by
    cases hlooked with
    | no => exact ⟨line, hmem, ⟨id, hid, hids⟩, hleft⟩
    | yes _ _ ops =>
      obtain ⟨_, _, rfl⟩ := Option.map_eq_some_iff.mp hmem
      simp [Source.jobId] at hid
  cases hdid with
  | went _ _ hgoes =>
    cases hgoes with
    | advanced hhand hrest =>
      exact .inl (hlater hhand hmem (fun op hop => .tail _ (hrest.mem hop)) (hleft.resolve_left nofun))
    | moves hhand =>
      obtain rfl := Option.some.inj hmem
      exact .inl ⟨_, hhand, ⟨id, hid, hids⟩, .inr ⟨_, .head _, rfl⟩⟩
    | moved _ hhand hrest =>
      exact .inl (hlater hhand hmem (fun op hop => hrest.mem hop) (hleft.resolve_left nofun))
    | nested _ hhand =>
      exact .inl (hlater hhand hmem (fun op hop => .tail _ hop) (hleft.resolve_left nofun))
    | finished => simp at hmem
    | looked hlook => exact .inl (hlooked hlook hmem hleft)
    | handed _ hjob _ hcause =>
      obtain rfl := Option.some.inj hmem
      obtain rfl := Option.some.inj hid
      exact .inr ⟨_, List.mem_of_mem_head? hjob, hids, hcause⟩
    | _ => exact .inl ⟨line, hmem, ⟨id, hid, hids⟩, hleft⟩
  | handled => exact .inl ⟨line, hmem, ⟨id, hid, hids⟩, hleft⟩
  | called _ _ _ _ hlook => exact .inl (hlooked hlook hmem hleft)
  | injected =>
    obtain rfl := Option.some.inj hmem
    simp [Source.jobId] at hid

/-- A job comes onto the stack under a number of its own. -/
theorem jobs_did {s : System} {a : Move} {v : View} (hdid : Did s a v) :
    s.nested ≤ v.nested ∧ ∀ job ∈ v.jobs, job ∈ s.jobs ∨ job.id = s.nested := by
  have hsame : s.nested ≤ s.nested ∧ ∀ job ∈ s.jobs, job ∈ s.jobs ∨ job.id = s.nested :=
    ⟨le_rfl, fun _ hmem => .inl hmem⟩
  have hnest {origin : Option Nat} : s.nested ≤ s.nested + 1 ∧
      ∀ job ∈ { id := s.nested, origin := origin } :: s.jobs, job ∈ s.jobs ∨ job.id = s.nested := by
    refine ⟨Nat.le_succ _, fun job hmem => ?_⟩
    obtain rfl | hmem := List.mem_cons.mp hmem
    · exact .inr rfl
    · exact .inl hmem
  cases hdid with
  | went _ _ hgoes =>
    cases hgoes with
    | nested => exact hnest
    | aborted => exact ⟨le_rfl, by simp⟩
    | ended _ hsuffix _ => exact ⟨le_rfl, fun job hmem => .inl (hsuffix.mem hmem)⟩
    | _ => exact hsame
  | handled =>
    unfold View.handle
    dsimp only
    split_ifs
    · exact hnest
    · exact hsame
  | called => exact hsame
  | injected => exact hsame

/-- A system under watch for stopped jobs: those whose stop was handled in
`Cycle`, and those of them whose motions the cycle stop has flushed since. -/
structure MotionWatch extends System where
  stopping : List Nat := []
  flushed : List Nat := []

namespace MotionWatch

/-- A stop that unwinds the jobs and leaves it to the cycle stop to flush their
motions. -/
def Stops (w : MotionWatch) (item : EventItem) : Prop := item.event = .stopJob ∧ w.state = .Cycle

instance (w : MotionWatch) (item : EventItem) : Decidable (w.Stops item) := inferInstanceAs (Decidable (_ ∧ _))

def step (w : MotionWatch) (a : Move) : MotionWatch :=
  let s := w.toSystem.step a
  match w.handles a with
  | some item =>
    if w.Stops item then
      { toSystem := s, stopping := w.stopping ++ w.jobs.map fun job => job.id, flushed := w.flushed }
    else if item.event = .cycleStop ∧ w.suspend.jogCancel ∧ s.state = .Idle then
      { toSystem := s, stopping := [], flushed := w.flushed ++ w.stopping }
    else { toSystem := s, stopping := w.stopping, flushed := w.flushed }
  | none => { toSystem := s, stopping := w.stopping, flushed := w.flushed }

/-- The step plans no motion of a stopped job. -/
def PlansNoStopped (w : MotionWatch) (a : Move) : Prop :=
  ∀ id ∈ w.flushed, (w.toSystem.step a).planned id ≤ w.planned id

instance (w : MotionWatch) (a : Move) : Decidable (w.PlansNoStopped a) := inferInstanceAs (Decidable (∀ _ ∈ _, _))

/-- A stop is not handled in `Cycle` while the main task has a line of one of the
jobs in hand with a motion of it left to plan. -/
def StopsBetweenMotions (w : MotionWatch) (a : Move) : Prop :=
  ∀ item ∈ w.handles a, w.Stops item → ¬ w.view.MotionOf (w.jobs.map fun job => job.id)

instance (w : MotionWatch) (a : Move) : Decidable (w.StopsBetweenMotions a) :=
  inferInstanceAs (Decidable (∀ _ ∈ _, _))

/-- The jobs whose stop was handled. -/
def stopped (w : MotionWatch) : List Nat := w.stopping ++ w.flushed

/-- The stopped jobs are unwound, and no motion of them is left in hand. -/
structure Inv (w : MotionWatch) : Prop where
  tidy : w.Tidy
  known : ∀ id ∈ w.stopped, id < w.nested
  unwinding : ∀ job ∈ w.jobs, job.id ∈ w.stopped → w.unwind_cause ≠ none
  motionless : ¬ w.view.MotionOf w.stopped

variable {w : MotionWatch} {a : Move}

theorem Inv.plansNoStopped (h : w.Inv) (a : Move) : w.PlansNoStopped a := by
  intro id hid
  obtain hle | ⟨source, hmoving, hjob⟩ := System.step_planned w.toSystem a id
  · exact hle
  · obtain ⟨ops, hhand⟩ : ∃ ops, w.hand = some { source := source, ops := ops } := by
      unfold System.moving at hmoving
      unfold System.hand
      split at hmoving <;> simp_all
    refine absurd ⟨_, hhand, ⟨id, hjob, ?_⟩, .inl ?_⟩ h.motionless
    · exact List.mem_append_right _ hid
    · simp [hmoving]

theorem step_toSystem (w : MotionWatch) (a : Move) : (w.step a).toSystem = w.toSystem.step a := by
  unfold step
  dsimp only
  split
  · split_ifs <;> rfl
  · rfl

/-- A job is stopped from before, or by the stop that is handled. -/
private theorem step_stopped {id : Nat} (hid : id ∈ (w.step a).stopped) : id ∈ w.stopped ∨
    ∃ item, w.handles a = some item ∧ w.Stops item ∧ id ∈ w.jobs.map fun job => job.id := by
  unfold step stopped at hid
  unfold stopped
  cases hhandles : w.handles a with
  | none =>
    rw [hhandles] at hid
    exact .inl hid
  | some item =>
    rw [hhandles] at hid
    dsimp only at hid
    split_ifs at hid with hstops
    · simp only [List.mem_append] at hid ⊢
      obtain (hid | hid) | hid := hid
      · exact .inl (.inl hid)
      · exact .inr ⟨item, rfl, hstops, hid⟩
      · exact .inl (.inr hid)
    · simp only [List.mem_append, List.nil_append] at hid ⊢
      exact .inl hid.symm
    · exact .inl hid

/-- The step lemma. -/
theorem Inv.step (hinv : w.Inv) (hgood : w.StopsBetweenMotions a) : (w.step a).Inv := by
  obtain ⟨htidy, _, rfl, hdid⟩ := hinv.tidy.step_view (step_toSystem w a)
  obtain ⟨hnested, hjobs⟩ := jobs_did hdid
  have hknown : ∀ id ∈ (w.step a).stopped, id < w.nested := by
    intro id hid
    obtain hid | ⟨_, _, _, hid⟩ := step_stopped hid
    · exact hinv.known id hid
    · obtain ⟨job, hmem, rfl⟩ := List.mem_map.mp hid
      exact hinv.tidy.view.ids job hmem
  -- a stop that is handled in `Cycle` unwinds the jobs that are active
  have hcaused {item : EventItem} (hhandles : w.handles a = some item) (hstops : w.Stops item) (hactive : w.jobs ≠ []) :
      (w.step a).view.unwind_cause ≠ none := by
    generalize (w.step a).view = v at hdid
    cases hdid with
    | went _ hnone | called _ hnone | injected _ hnone => simp [hhandles] at hnone
    | handled _ hhandles' =>
      obtain rfl := Option.some.inj (hhandles.symm.trans hhandles')
      unfold View.handle
      dsimp only
      rw [if_pos ⟨hstops.1, by rw [System.view_state, hstops.2]; rfl, hactive⟩]
      simp
  -- and leaves what is in hand as it is
  have hheld {item : EventItem} (hhandles : w.handles a = some item) {ids : List Nat}
      (hmotion : (w.step a).view.MotionOf ids) : w.view.MotionOf ids := by
    generalize (w.step a).view = v at hdid hmotion
    cases hdid with
    | went _ hnone | called _ hnone | injected _ hnone => simp [hhandles] at hnone
    | handled => exact hmotion
  refine ⟨htidy, fun id hid => (hknown id hid).trans_le hnested, fun job hmem hid => ?_, ?_⟩
  · have hbefore : job ∈ w.jobs := by
      obtain hbefore | hnew := hjobs job hmem
      · exact hbefore
      · exact absurd (hknown job.id hid) (by simp [hnew])
    obtain hid | ⟨item, hhandles, hstops, _⟩ := step_stopped hid
    · obtain hcause | hempty := unwinding_did hdid (hinv.unwinding job hbefore hid)
      · exact hcause
      · exact absurd hmem (by simp [← System.view_jobs, hempty])
    · exact hcaused hhandles hstops (List.ne_nil_of_mem hbefore)
  · rintro ⟨line, hmem, ⟨id, hid, hids⟩, hleft⟩
    obtain hbefore | ⟨item, hhandles, hstops, hactive⟩ := step_stopped hids
    · obtain hmotion | ⟨job, hjob, hstopped, hcause⟩ :=
        motion_did hdid ⟨line, hmem, ⟨id, hid, hbefore⟩, hleft⟩
      · exact hinv.motionless hmotion
      · exact hinv.unwinding job hjob hstopped hcause
    · exact hgood item hhandles hstops (hheld hhandles ⟨line, hmem, ⟨id, hid, hactive⟩, hleft⟩)

def boot (feed_setting : Option Int) (planner_blocks : Nat) : MotionWatch :=
  { toSystem := System.boot feed_setting planner_blocks }

theorem boot_inv (feed_setting : Option Int) (planner_blocks : Nat) : (boot feed_setting planner_blocks).Inv := by
  refine ⟨System.boot_tidy feed_setting planner_blocks, ?_, ?_, ?_⟩ <;>
    simp [boot, System.boot, stopped, View.MotionOf, System.hand]

/-- In every run whose stops find the main task between two motions, no motion of
a stopped job is planned once the cycle stop has flushed the planner. -/
theorem stopped_job_plans_nothing (feed_setting : Option Int) (planner_blocks : Nat) (moves : List Move)
    (hbetween : Transition.Throughout step StopsBetweenMotions (boot feed_setting planner_blocks) moves) :
    Transition.Throughout step PlansNoStopped (boot feed_setting planner_blocks) moves :=
  Transition.throughout_of_invariant (fun _ _ hinv hgood => hinv.step hgood) (fun _ a hinv _ => hinv.plansNoStopped a)
    (boot_inv feed_setting planner_blocks) hbetween

/-- A file is run from another channel, and the main task takes up a line of its
job. -/
def takeUp (ops : List Op) : List Move :=
  [.poller {}, .poller { other := some [.runFile true] }] ++ List.replicate 5 .main ++
    [.poller {}, .poller { job := .line ops }, .main]

/-- The stop is handled, the stepper comes to rest, and the cycle stop is handled. -/
def stopAndFlush : List Move := [.post .stopJob, .main, .post .cycleStop, .main]

/-- The stop finds a line that is planned to its end. -/
def stopBetweenMotions : List Move :=
  takeUp (List.replicate 2 (.move false false)) ++ List.replicate 7 .main ++ stopAndFlush ++ List.replicate 2 .main

theorem stop_between_motions_plans_nothing :
    Transition.Throughout step PlansNoStopped (boot none 10) stopBetweenMotions ∧
      (Transition.run step (boot none 10) stopBetweenMotions).flushed = [0] :=
  ⟨stopped_job_plans_nothing none 10 stopBetweenMotions (by decide), by decide⟩

/-- The stop finds the tenth segment of an arc waiting for room in the planner. -/
def stopInArc : List Move :=
  takeUp (List.replicate 10 (.move false true)) ++ List.replicate 21 .main ++ stopAndFlush ++ List.replicate 2 .main

set_option maxRecDepth 2000 in
/-- Once the planner is flushed there is room: the segment of the stopped job that
was waiting is planned. -/
theorem stop_in_arc_plans_last_segment :
    ¬ ∀ moves, Transition.Throughout step PlansNoStopped (boot none 10) moves :=
  fun h => absurd (h stopInArc) (by decide)

end MotionWatch

end DuneWeaver
