import DuneWeaver.Planner.Queue

open RingIndex

namespace DuneWeaver

/-- The line is put into the queue: its axes are homed, it has a step to make and it is not a
system motion. -/
def PlanLine.queues (line : PlanLine) : Bool :=
  !line.motion.systemMotion && (line.is_jog || !line.unhomed_axes) && line.step_event_count ≠ 0

namespace PlannerRing

variable {p q : PlannerRing} {count planned : Nat}

/-- The line numbers that come into the queue with an event. -/
def enters (p : PlannerRing) : RingEvent → List Int
  | .append line line_number => if p.plan_check_full_buffer || !line.queues then [] else [line_number]
  | _ => []

/-- The line numbers that leave it at its front. -/
def leaves (p : PlannerRing) : RingEvent → List Int
  | .discard =>
    if p.block_buffer_head ≠ p.block_buffer_tail then [(p.block_buffer p.block_buffer_tail).line_number] else []
  | _ => []

/-- What any event but a reset leaves of the queued blocks: each is still there, in its cell, but for
the one at the tail that is discarded. -/
def Keeps (p q : PlannerRing) (e : RingEvent) : Prop :=
  ∀ i ∈ p.queue, (q.block_buffer i).line_number = (p.block_buffer i).line_number ∧
    (i ∈ q.queue ∨ e = .discard ∧ i = p.block_buffer_tail)

theorem Replanned.keeps (hq : Replanned p q) (e : RingEvent) : Keeps p q e :=
  fun i hi => ⟨hq.line_number i, .inl (hq.queue_eq ▸ hi)⟩

/-- The head moves over the new block. -/
theorem Sound.commit (h : p.Sound count planned) (hroom : count + 1 < p.planner_blocks) (block : RingBlock)
    (speed : ℚ) (hspeed : q = { p.store p.block_buffer_head block with
      previous_nominal_speed := speed
      block_buffer_head := p.next_buffer_head
      next_buffer_head := p.plan_next_block_index p.next_buffer_head }) :
    q.Sound (count + 1) planned ∧ q.queue = p.queue ++ [p.block_buffer_head] ∧
      q.lines = p.lines ++ [block.line_number] ∧
      ∀ i ∈ p.queue, (q.block_buffer i).line_number = (p.block_buffer i).line_number := by
  have hn : 0 < p.planner_blocks := by omega
  have hsound : q.Sound (count + 1) planned := by
    subst hspeed
    refine ⟨h.tail_lt, h.next_head_eq, ?_, h.planned_eq, hroom, ?_⟩
    · rw [h.next_head_eq]
      exact next_place hn
    · exact h.planned_le.imp Nat.lt_succ_of_lt id
  have hqueue : q.queue = p.queue ++ [p.block_buffer_head] := by
    rw [hsound.queue_eq, h.queue_eq, h.head_eq, hspeed]
    exact span_succ _ _
  have hcells : ∀ i ∈ p.queue, (q.block_buffer i).line_number = (p.block_buffer i).line_number := by
    intro i hi
    have hother : i ≠ p.block_buffer_head := fun heq => h.head_notMem (heq ▸ hi)
    subst hspeed
    exact congrArg RingBlock.line_number (Function.update_of_ne hother _ _)
  refine ⟨hsound, hqueue, ?_, hcells⟩
  have hnew : q.block_buffer p.block_buffer_head = block := by
    subst hspeed
    exact Function.update_self _ _ _
  rw [lines, hqueue, List.map_append, List.map_singleton, hnew, List.map_congr_left hcells, lines]

/-- A line that comes while there is room. -/
theorem plan_buffer_line_spec (h : p.Sound count planned) (hroom : count + 1 < p.planner_blocks) (line : PlanLine)
    (line_number : Int) :
    ∃ q c k, p.plan_buffer_line line line_number = some q ∧ q.Sound c k ∧ q.planner_blocks = p.planner_blocks ∧
      q.lines = p.lines ++ (if line.queues then [line_number] else []) ∧
      ∀ i ∈ p.queue, (q.block_buffer i).line_number = (p.block_buffer i).line_number ∧ i ∈ q.queue := by
  have hunused : ∀ block : RingBlock, line.queues = false →
      ∃ q c k, some (p.store p.block_buffer_head block) = some q ∧ q.Sound c k ∧ q.planner_blocks = p.planner_blocks ∧
        q.lines = p.lines ++ (if line.queues then [line_number] else []) ∧
        ∀ i ∈ p.queue, (q.block_buffer i).line_number = (p.block_buffer i).line_number ∧ i ∈ q.queue := by
    intro block hno
    obtain ⟨hsound, hqueue, hcells⟩ := h.store_head block
    refine ⟨_, count, planned, rfl, hsound, rfl, ?_, fun i hi => ⟨by rw [hcells i hi], hqueue ▸ hi⟩⟩
    have hlines : (p.store p.block_buffer_head block).lines = p.lines := by
      rw [lines, hqueue]
      exact List.map_congr_left fun i hi => by rw [hcells i hi]
    rw [hno, hlines]
    exact (List.append_nil _).symm
  unfold plan_buffer_line
  split
  case isTrue hunhomed => exact hunused _ (by simp [PlanLine.queues, hunhomed])
  split
  case isTrue hzero => exact hunused _ (by simp [PlanLine.queues, hzero])
  dsimp only
  split
  case isTrue hsystem => exact hunused _ (by simp [PlanLine.queues, hsystem])
  case isFalse hhomed hsteps hsystem =>
    have hqueues : line.queues = true := by
      simp only [PlanLine.queues, Bool.and_eq_true, Bool.or_eq_true, Bool.not_eq_true', decide_eq_true_eq]
      refine ⟨⟨by simpa using hsystem, ?_⟩, hsteps⟩
      by_contra hno
      simp only [not_or, Bool.not_eq_true, Bool.not_eq_false] at hno
      exact hhomed ⟨hsystem, by simp [hno.1], hno.2⟩
    obtain ⟨hsound, hqueue, hlines, hcells⟩ := h.commit hroom _ _ rfl
    obtain ⟨r, k, hrun, hr, hrsound⟩ := planner_recalculate_spec hsound
    refine ⟨r, count + 1, k, hrun, hrsound, hr.planner_blocks, ?_, fun i hi => ⟨?_, ?_⟩⟩
    · rw [hr.lines_eq, hlines, hqueues]
      rfl
    · exact (hr.line_number i).trans (hcells i hi)
    · rw [hr.queue_eq, hqueue]
      exact List.mem_append_left _ hi

/-- The tail moves over the block at the front, and takes the planned pointer along if that is
where it was. -/
theorem plan_discard_spec (h : p.Sound count planned) :
    ∃ c k, p.plan_discard_current_block.Sound c k ∧
      p.plan_discard_current_block.planner_blocks = p.planner_blocks ∧
      p.lines = p.leaves .discard ++ p.plan_discard_current_block.lines ∧
      ∀ i ∈ p.queue, i ∈ p.plan_discard_current_block.queue ∨ i = p.block_buffer_tail := by
  have hlt := h.count_lt
  have hn : 0 < p.planner_blocks := by omega
  unfold leaves
  by_cases hempty : count = 0
  · have hhead : ¬ p.block_buffer_head ≠ p.block_buffer_tail := by
      rw [h.head_eq, hempty, place_zero h.tail_lt]
      exact fun hne => hne rfl
    have hsame : p.plan_discard_current_block = p := if_neg hhead
    dsimp only
    rw [hsame, if_neg hhead]
    exact ⟨count, planned, h, rfl, rfl, fun i hi => .inl hi⟩
  obtain ⟨c, rfl⟩ : ∃ c, count = c + 1 := ⟨count - 1, by omega⟩
  have hhead : p.block_buffer_head ≠ p.block_buffer_tail := by
    rw [h.head_eq]
    conv_rhs => rw [← place_zero h.tail_lt]
    exact (place_ne (by omega) (by omega)).symm
  dsimp only
  rw [if_pos hhead]
  have hnext : p.plan_next_block_index p.block_buffer_tail = place p.planner_blocks p.block_buffer_tail 1 := by
    conv_lhs => rw [← place_zero h.tail_lt]
    exact next_place hn
  have hback : ∀ o, place p.planner_blocks (p.plan_next_block_index p.block_buffer_tail) o =
      place p.planner_blocks p.block_buffer_tail (o + 1) := by
    intro o
    rw [hnext, place_place, Nat.add_comm]
  have hmoved : p.plan_discard_current_block =
      { (if p.block_buffer_tail = p.block_buffer_planned then
          { p with block_buffer_planned := p.plan_next_block_index p.block_buffer_tail } else p) with
        block_buffer_tail := p.plan_next_block_index p.block_buffer_tail } := if_pos hhead
  generalize p.plan_discard_current_block = r at hmoved
  have hblocks : r.planner_blocks = p.planner_blocks := by rw [hmoved]; split <;> rfl
  have hbuffer : r.block_buffer = p.block_buffer := by rw [hmoved]; split <;> rfl
  have htail : r.block_buffer_tail = p.plan_next_block_index p.block_buffer_tail := by rw [hmoved]
  have hrhead : r.block_buffer_head = p.block_buffer_head := by rw [hmoved]; split <;> rfl
  have hrnext : r.next_buffer_head = p.next_buffer_head := by rw [hmoved]; split <;> rfl
  have hrplanned : r.block_buffer_planned = if p.block_buffer_tail = p.block_buffer_planned then
      p.plan_next_block_index p.block_buffer_tail else p.block_buffer_planned := by
    rw [hmoved]
    split <;> rfl
  have hsound : r.Sound c (planned - 1) := by
    refine ⟨?_, ?_, ?_, ?_, by rw [hblocks]; omega, ?_⟩
    · rw [htail, hblocks]
      exact next_lt h.tail_lt
    · rw [hrhead, htail, hblocks, hback]
      exact h.head_eq
    · rw [hrnext, htail, hblocks, hback]
      exact h.next_head_eq
    · rw [hrplanned, htail, hblocks]
      by_cases hfirst : planned = 0
      · rw [if_pos (by rw [h.planned_eq, hfirst, place_zero h.tail_lt]), hfirst, hback, hnext]
      · have hlater := h.planned_le
        have hother : p.block_buffer_tail ≠ p.block_buffer_planned := by
          rw [h.planned_eq]
          conv_lhs => rw [← place_zero h.tail_lt]
          exact place_ne (by omega) (by omega)
        have hbefore : planned - 1 + 1 = planned := by omega
        rw [if_neg hother, hback, hbefore]
        exact h.planned_eq
    · have hlater := h.planned_le
      omega
  have hqueue : p.queue = p.block_buffer_tail :: r.queue := by
    rw [h.queue_eq, hsound.queue_eq, hblocks, htail]
    exact span_cons h.tail_lt c
  refine ⟨c, planned - 1, hsound, hblocks, ?_, fun i hi => ?_⟩
  · rw [lines, hqueue, lines, hbuffer]
    rfl
  · rw [hqueue] at hi
    exact (List.mem_cons.mp hi).symm.imp id id

theorem prep_replanned (p : PlannerRing) (executeSysMotion : Bool) (prep : Planner.Prep) :
    Replanned p (p.prep_buffer executeSysMotion prep) ∧
      (p.prep_buffer executeSysMotion prep).block_buffer_planned = p.block_buffer_planned := by
  unfold prep_buffer
  dsimp only
  split
  · exact ⟨.refl p, rfl⟩
  · refine ⟨(store_replanned ?_).trans ⟨rfl, rfl, rfl, rfl, fun _ => rfl⟩, rfl⟩
    rfl

theorem cycle_reinit_spec (h : p.Sound count planned) :
    ∃ q k, p.cycle_reinit = some q ∧ Replanned p q ∧ q.Sound count k := by
  unfold cycle_reinit
  dsimp only
  generalize hp' : ({ p.update_plan_block_parameters with
    block_buffer_planned := p.update_plan_block_parameters.block_buffer_tail } : PlannerRing) = p'
  have hback : Replanned p p' := by
    subst hp'
    exact (update_replanned p).trans ⟨rfl, rfl, rfl, rfl, fun _ => rfl⟩
  have htail : p'.block_buffer_planned = place p.planner_blocks p.block_buffer_tail 0 := by
    rw [place_zero h.tail_lt, ← hback.tail]
    subst hp'
    rfl
  obtain ⟨q, k, hrun, hq, hsound⟩ := planner_recalculate_spec (h.replanned hback htail (.inr rfl))
  exact ⟨q, k, hrun, hback.trans hq, hsound⟩

theorem update_velocity_profile_spec (h : p.Sound count planned) :
    ∃ q k, p.plan_update_velocity_profile_parameters = some q ∧ Replanned p q ∧ q.Sound count k := by
  have hlt := h.count_lt
  obtain ⟨q, hloop, hq, hplanned⟩ := profile_loop_spec p.planner_blocks SOME_LARGE_VALUE
    h.head_eq (Nat.zero_le count) hlt (by omega)
  rw [place_zero h.tail_lt] at hloop
  have hsound := h.replanned hq (hplanned.trans h.planned_eq) h.planned_le
  unfold plan_update_velocity_profile_parameters
  rw [hloop, Option.bind_some]
  split
  · obtain ⟨r, k, hrun, hr, hrsound⟩ := cycle_reinit_spec hsound
    exact ⟨r, k, hrun, hq.trans hr, hrsound⟩
  · exact ⟨q, planned, rfl, hq, hsound⟩

theorem plan_reset_sound (hn : 2 ≤ p.planner_blocks) : p.plan_reset.Sound 0 0 where
  tail_lt := by
    change 0 < p.planner_blocks
    omega
  head_eq := (Nat.zero_mod _).symm
  next_head_eq := (Nat.mod_eq_of_lt hn).symm
  planned_eq := (Nat.zero_mod _).symm
  count_lt := by
    change 0 < p.planner_blocks
    omega
  planned_le := .inr rfl

/-- Every event comes to an end. What has come into the queue is behind what was in it, what has left
was at its front, and the rest is where it was. -/
theorem step_spec (hn : 2 ≤ p.planner_blocks) (h : p.Sound count planned) (e : RingEvent) :
    ∃ q c k, p.step e = some q ∧ q.Sound c k ∧ q.planner_blocks = p.planner_blocks ∧
      (e = .reset → q.lines = []) ∧
      (e ≠ .reset → p.lines ++ p.enters e = p.leaves e ++ q.lines ∧ Keeps p q e) := by
  have hspeeds : ∀ {q : PlannerRing} {k : Nat}, Replanned p q → q.Sound count k → p.enters e = [] →
      p.leaves e = [] → e ≠ .reset → ∀ r, r = some q → ∃ q c k, r = some q ∧ q.Sound c k ∧
        q.planner_blocks = p.planner_blocks ∧ (e = .reset → q.lines = []) ∧
        (e ≠ .reset → p.lines ++ p.enters e = p.leaves e ++ q.lines ∧ Keeps p q e) := by
    intro q k hq hsound henters hleaves hno r hr
    refine ⟨q, count, k, hr, hsound, hq.planner_blocks, fun hreset => absurd hreset hno, fun _ => ⟨?_, hq.keeps e⟩⟩
    rw [henters, hleaves, hq.lines_eq, List.append_nil]
    rfl
  cases e with
  | append line line_number =>
    unfold step
    dsimp only
    cases hfull : p.plan_check_full_buffer with
    | true =>
      rw [if_pos rfl]
      exact hspeeds (.refl p) h (by simp [enters, hfull]) rfl (by simp) _ rfl
    | false =>
      obtain ⟨q, c, k, hrun, hsound, hblocks, hlines, hkept⟩ :=
        plan_buffer_line_spec h (h.room hfull) line line_number
      rw [if_neg (by simp)]
      refine ⟨q, c, k, hrun, hsound, hblocks, nofun, fun _ => ⟨?_, fun i hi => ?_⟩⟩
      · rw [hlines]
        cases hqueues : line.queues <;> simp [enters, leaves, hfull, hqueues]
      · exact ⟨(hkept i hi).1, .inl (hkept i hi).2⟩
  | discard =>
    have hlet : ({ p with pl_block := none, recalculate := false } : PlannerRing).Sound count planned :=
      ⟨h.tail_lt, h.head_eq, h.next_head_eq, h.planned_eq, h.count_lt, h.planned_le⟩
    have hidle : Replanned p { p with pl_block := none, recalculate := false } :=
      ⟨rfl, rfl, rfl, rfl, fun _ => rfl⟩
    obtain ⟨c, k, hsound, hblocks, hlines, hkept⟩ := plan_discard_spec hlet
    refine ⟨_, c, k, rfl, hsound, hblocks, nofun, fun _ => ⟨?_, fun i hi => ⟨?_, ?_⟩⟩⟩
    · rw [← hidle.lines_eq, hlines]
      exact List.append_nil _
    · have hbuffer : ∀ r : PlannerRing, r.plan_discard_current_block.block_buffer = r.block_buffer := by
        intro r
        unfold plan_discard_current_block
        dsimp only
        split
        · split <;> rfl
        · rfl
      rw [hbuffer]
    · exact (hkept i (hidle.queue_eq ▸ hi)).imp id fun htail => ⟨rfl, htail⟩
  | reset =>
    have hsound := plan_reset_sound hn
    refine ⟨p.plan_reset, 0, 0, rfl, hsound, rfl, fun _ => ?_, fun hno => absurd rfl hno⟩
    rw [lines, hsound.queue_eq]
    rfl
  | override f_override r_override =>
    have hset : Replanned p { p with f_override := f_override, r_override := r_override } :=
      ⟨rfl, rfl, rfl, rfl, fun _ => rfl⟩
    obtain ⟨q, k, hrun, hq, hsound⟩ := update_velocity_profile_spec (h.replanned hset h.planned_eq h.planned_le)
    exact hspeeds (hset.trans hq) hsound rfl rfl (by simp) _ hrun
  | cycle_reinit =>
    obtain ⟨q, k, hrun, hq, hsound⟩ := cycle_reinit_spec h
    exact hspeeds hq hsound rfl rfl (by simp) _ hrun
  | prep executeSysMotion prep =>
    obtain ⟨hq, hkept⟩ := prep_replanned p executeSysMotion prep
    exact hspeeds hq (h.replanned hq (hkept.trans h.planned_eq) h.planned_le) rfl rfl (by simp) _ rfl

theorem Sound.length_queue (h : p.Sound count planned) : p.queue.length = count := by
  rw [h.queue_eq, length_span]

/-- The planned pointer is at a queued block, or at the tail of an empty queue. -/
theorem Sound.planned_between (h : p.Sound count planned) :
    p.block_buffer_planned ∈ p.queue ∨ p.queue = [] ∧ p.block_buffer_planned = p.block_buffer_tail := by
  by_cases hin : planned < count
  · left
    rw [h.queue_eq, h.planned_eq]
    exact mem_span.mpr ⟨planned, hin, rfl⟩
  · obtain rfl : planned = 0 := h.planned_le.resolve_left hin
    obtain rfl : count = 0 := by omega
    right
    rw [h.queue_eq, h.planned_eq, place_zero h.tail_lt]
    exact ⟨rfl, rfl⟩

/-- One cell of the ring is never used. -/
theorem Sound.available (h : p.Sound count planned) :
    p.plan_get_block_buffer_available + count = p.planner_blocks - 1 := by
  have hlt := h.count_lt
  have htail := h.tail_lt
  have hhead := h.head_lt
  have hgap : gap p.planner_blocks p.block_buffer_tail p.block_buffer_head = count := by
    rw [h.head_eq]
    exact gap_place htail hlt
  unfold plan_get_block_buffer_available
  unfold gap at hgap
  split at hgap
  case isTrue hle =>
    rw [if_pos hle]
    omega
  case isFalse hgt =>
    rw [if_neg hgt]
    omega

/-- A line without a step changes nothing that is queued, nor an index. -/
theorem step_zero_length (h : p.Sound count planned) {line : PlanLine} {line_number : Int}
    (hzero : line.step_event_count = 0) (hq : p.step (.append line line_number) = some q) :
    q.queue = p.queue ∧ q.block_buffer_tail = p.block_buffer_tail ∧ q.block_buffer_head = p.block_buffer_head ∧
      q.next_buffer_head = p.next_buffer_head ∧ q.block_buffer_planned = p.block_buffer_planned ∧
      ∀ i ∈ p.queue, q.block_buffer i = p.block_buffer i := by
  have hstored : ∀ block, p.store p.block_buffer_head block = q →
      q.queue = p.queue ∧ q.block_buffer_tail = p.block_buffer_tail ∧ q.block_buffer_head = p.block_buffer_head ∧
        q.next_buffer_head = p.next_buffer_head ∧ q.block_buffer_planned = p.block_buffer_planned ∧
        ∀ i ∈ p.queue, q.block_buffer i = p.block_buffer i := by
    rintro block rfl
    obtain ⟨-, hqueue, hcells⟩ := h.store_head block
    exact ⟨hqueue, rfl, rfl, rfl, rfl, hcells⟩
  unfold step plan_buffer_line at hq
  dsimp only at hq
  split at hq
  · cases hq
    exact ⟨rfl, rfl, rfl, rfl, rfl, fun _ _ => rfl⟩
  split at hq
  · exact hstored _ (Option.some.inj hq)
  · exact hstored _ (Option.some.inj hq)

end PlannerRing

/-- The planner's ring with a record of the blocks that have come into the queue since the last
reset, and of those that have left it. -/
structure WatchedRing where
  ring : PlannerRing
  entered : List Int := []
  left : List Int := []

namespace WatchedRing

def step (w : WatchedRing) (e : RingEvent) : Option WatchedRing :=
  (w.ring.step e).map fun ring =>
    match e with
    | .reset => { ring }
    | e => { ring, entered := w.entered ++ w.ring.enters e, left := w.left ++ w.ring.leaves e }

def run (w : WatchedRing) : List RingEvent → Option WatchedRing
  | [] => some w
  | e :: events => (w.step e).bind fun w => w.run events

theorem step_eq {w : WatchedRing} {e : RingEvent} (hno : e ≠ .reset) :
    w.step e = (w.ring.step e).map fun ring =>
      { ring, entered := w.entered ++ w.ring.enters e, left := w.left ++ w.ring.leaves e } := by
  cases e with
  | reset => exact absurd rfl hno
  | append | discard | override | cycle_reinit | prep => rfl

/-- What holds after every event. -/
structure Ordered (w : WatchedRing) (planner_blocks : Nat) : Prop where
  size : w.ring.planner_blocks = planner_blocks
  sound : ∃ count planned, w.ring.Sound count planned
  order : w.entered = w.left ++ w.ring.lines

theorem Ordered.step {w : WatchedRing} {planner_blocks : Nat} (hsize : 2 ≤ planner_blocks)
    (h : w.Ordered planner_blocks) (e : RingEvent) : ∃ w', w.step e = some w' ∧ w'.Ordered planner_blocks := by
  obtain ⟨count, planned, hsound⟩ := h.sound
  obtain ⟨q, c, k, hrun, hq, hblocks, hreset, hother⟩ :=
    PlannerRing.step_spec (by rw [h.size]; exact hsize) hsound e
  by_cases hno : e = .reset
  · refine ⟨{ ring := q }, ?_, hblocks.trans h.size, ⟨c, k, hq⟩, (hreset hno).symm⟩
    rw [WatchedRing.step, hrun, hno]
    rfl
  · refine ⟨_, by rw [step_eq hno, hrun]; rfl, hblocks.trans h.size, ⟨c, k, hq⟩, ?_⟩
    change w.entered ++ w.ring.enters e = w.left ++ w.ring.leaves e ++ q.lines
    rw [h.order, List.append_assoc, (hother hno).1, List.append_assoc]

theorem Ordered.run {w : WatchedRing} {planner_blocks : Nat} (hsize : 2 ≤ planner_blocks)
    (h : w.Ordered planner_blocks) (events : List RingEvent) :
    ∃ w', w.run events = some w' ∧ w'.Ordered planner_blocks := by
  induction events generalizing w with
  | nil => exact ⟨w, rfl, h⟩
  | cons e events ih =>
    obtain ⟨w', hstep, hw'⟩ := h.step hsize e
    obtain ⟨w'', hrun, hw''⟩ := ih hw'
    exact ⟨w'', by rw [WatchedRing.run, hstep]; exact hrun, hw''⟩

/-- After a reset, whatever happens to the planner in whatever order: every pass comes to an end, the
planned pointer is between the tail and the head, the room that is left and the queued blocks make up
the ring but for one cell, and the blocks leave as they came. Whatever happens next leaves each queued
block in its cell, except for the one it discards, and a line without a step changes nothing. -/
theorem planner_ring (p : PlannerRing) (hsize : 2 ≤ p.planner_blocks) (events : List RingEvent) :
    ∃ w : WatchedRing, run { ring := p.plan_reset } events = some w ∧
      (w.ring.block_buffer_planned ∈ w.ring.queue ∨
        w.ring.queue = [] ∧ w.ring.block_buffer_planned = w.ring.block_buffer_tail) ∧
      w.ring.plan_get_block_buffer_available + w.ring.queue.length = p.planner_blocks - 1 ∧
      w.entered = w.left ++ w.ring.lines ∧
      (∀ e w', e ≠ .reset → w.step e = some w' → w.ring.Keeps w'.ring e) ∧
      ∀ line line_number w', line.step_event_count = 0 → w.step (.append line line_number) = some w' →
        w'.ring.queue = w.ring.queue ∧ w'.ring.block_buffer_tail = w.ring.block_buffer_tail ∧
        w'.ring.block_buffer_head = w.ring.block_buffer_head ∧
        w'.ring.next_buffer_head = w.ring.next_buffer_head ∧
        w'.ring.block_buffer_planned = w.ring.block_buffer_planned ∧
        ∀ i ∈ w.ring.queue, w'.ring.block_buffer i = w.ring.block_buffer i := by
  have hreset := PlannerRing.plan_reset_sound hsize
  have hstart : Ordered { ring := p.plan_reset } p.planner_blocks := by
    refine ⟨rfl, ⟨0, 0, hreset⟩, ?_⟩
    change [] = [] ++ p.plan_reset.lines
    rw [PlannerRing.lines, hreset.queue_eq]
    rfl
  obtain ⟨w, hrun, hw⟩ := hstart.run hsize events
  obtain ⟨count, planned, hsound⟩ := hw.sound
  have hwsize : 2 ≤ w.ring.planner_blocks := by rw [hw.size]; exact hsize
  have hstep : ∀ {e w'}, e ≠ .reset → w.step e = some w' → w.ring.step e = some w'.ring := by
    intro e w' hno hw'
    rw [step_eq hno] at hw'
    obtain ⟨ring, hring, rfl⟩ := Option.map_eq_some_iff.mp hw'
    exact hring
  refine ⟨w, hrun, hsound.planned_between, ?_, hw.order, fun e w' hno hw' => ?_, fun line k w' hzero hw' => ?_⟩
  · rw [hsound.length_queue, ← hw.size]
    exact hsound.available
  · obtain ⟨q, _, _, hq, _, _, _, hother⟩ := PlannerRing.step_spec hwsize hsound e
    obtain rfl : q = w'.ring := Option.some.inj (hq.symm.trans (hstep hno hw'))
    exact (hother hno).2
  · exact PlannerRing.step_zero_length hsound hzero (hstep (by simp) hw')

private theorem one_nonneg : (0 : ℚ) ≤ 1 := by decide

/-- A ring of ten cells. -/
private def tenCells : PlannerRing where
  planner_blocks := 10
  block_buffer _ := PlannerRing.blank (.of false 100 1 .straight one_nonneg) 0

/-- Two lines come, and the first of them leaves. -/
theorem planner_ring_two_lines :
    ∃ w : WatchedRing, run { ring := tenCells.plan_reset }
        [.append (.of false 100 1 .straight (by decide)) 7, .append (.of true 200 3 .reversal (by decide)) 8,
          .discard] = some w ∧
      w.ring.plan_get_block_buffer_available + w.ring.queue.length = 9 ∧ w.entered = w.left ++ w.ring.lines := by
  obtain ⟨w, hrun, -, havailable, horder, -, -⟩ := planner_ring tenCells (by decide)
    [.append (.of false 100 1 .straight (by decide)) 7, .append (.of true 200 3 .reversal (by decide)) 8, .discard]
  exact ⟨w, hrun, havailable, horder⟩

end WatchedRing

end DuneWeaver
