import DuneWeaver.Planner.Ring

open RingIndex

namespace DuneWeaver.PlannerRing

/-- The walk from one index up to the head. -/
def walk (p : PlannerRing) : Nat → Nat → List Nat
  | 0, _ => []
  | turns + 1, block_index =>
    if block_index = p.block_buffer_head then []
    else block_index :: p.walk turns (p.plan_next_block_index block_index)

/-- Where the queued blocks are, the first to be executed at the front. -/
def queue (p : PlannerRing) : List Nat := p.walk p.planner_blocks p.block_buffer_tail

/-- How the indices stand to each other, with `count` blocks in the queue and the planned pointer
`planned` blocks behind the tail. -/
structure Sound (p : PlannerRing) (count planned : Nat) : Prop where
  tail_lt : p.block_buffer_tail < p.planner_blocks
  head_eq : p.block_buffer_head = place p.planner_blocks p.block_buffer_tail count
  next_head_eq : p.next_buffer_head = place p.planner_blocks p.block_buffer_tail (count + 1)
  planned_eq : p.block_buffer_planned = place p.planner_blocks p.block_buffer_tail planned
  count_lt : count < p.planner_blocks
  planned_le : planned < count ∨ planned = 0

/-- Only speeds have changed, and perhaps the planned pointer: the other indices are as they were and
every cell has the line it had. -/
structure Replanned (p q : PlannerRing) : Prop where
  planner_blocks : q.planner_blocks = p.planner_blocks
  tail : q.block_buffer_tail = p.block_buffer_tail
  head : q.block_buffer_head = p.block_buffer_head
  next_head : q.next_buffer_head = p.next_buffer_head
  line_number : ∀ i, (q.block_buffer i).line_number = (p.block_buffer i).line_number

variable {p q r : PlannerRing} {count planned : Nat}

theorem Replanned.refl (p : PlannerRing) : Replanned p p := ⟨rfl, rfl, rfl, rfl, fun _ => rfl⟩

theorem Replanned.trans (h : Replanned p q) (h' : Replanned q r) : Replanned p r where
  planner_blocks := h'.planner_blocks.trans h.planner_blocks
  tail := h'.tail.trans h.tail
  head := h'.head.trans h.head
  next_head := h'.next_head.trans h.next_head
  line_number i := (h'.line_number i).trans (h.line_number i)

/-- The walk is the span from the tail to the head. -/
theorem Sound.walk_eq (h : p.Sound count planned) {k turns : Nat} (hk : k ≤ count) (hturns : count - k < turns) :
    p.walk turns (place p.planner_blocks p.block_buffer_tail k) =
      span p.planner_blocks (place p.planner_blocks p.block_buffer_tail k) (count - k) := by
  have hcount := h.count_lt
  have hn : 0 < p.planner_blocks := by omega
  induction turns generalizing k with
  | zero => omega
  | succ turns ih =>
    rw [walk, h.head_eq]
    by_cases hend : k = count
    · rw [if_pos (by rw [hend]), hend, Nat.sub_self]
      rfl
    · have hmore : count - k = count - (k + 1) + 1 := by omega
      rw [if_neg (by rw [place_inj (by omega) hcount]; exact hend), plan_next_block_index, next_place hn,
        ih (by omega) (by omega), hmore, span_cons (place_lt hn), next_place hn]

theorem Sound.queue_eq (h : p.Sound count planned) : p.queue = span p.planner_blocks p.block_buffer_tail count := by
  have hcount := h.count_lt
  have hwalk := h.walk_eq (Nat.zero_le count) (by omega : count - 0 < p.planner_blocks)
  rw [place_zero h.tail_lt] at hwalk
  exact hwalk

theorem Sound.head_lt (h : p.Sound count planned) : p.block_buffer_head < p.planner_blocks := by
  have hcount := h.count_lt
  rw [h.head_eq]
  exact place_lt (by omega)

theorem Sound.replanned (h : p.Sound count planned) (hq : Replanned p q) {k : Nat}
    (hplanned : q.block_buffer_planned = place p.planner_blocks p.block_buffer_tail k) (hk : k < count ∨ k = 0) :
    q.Sound count k where
  tail_lt := by rw [hq.tail, hq.planner_blocks]; exact h.tail_lt
  head_eq := by rw [hq.head, hq.planner_blocks, hq.tail]; exact h.head_eq
  next_head_eq := by rw [hq.next_head, hq.planner_blocks, hq.tail]; exact h.next_head_eq
  planned_eq := by rw [hq.planner_blocks, hq.tail]; exact hplanned
  count_lt := by rw [hq.planner_blocks]; exact h.count_lt
  planned_le := hk

section Steps

/-- A store of a block with the same line number. -/
theorem store_replanned {i : Nat} {block : RingBlock} (h : block.line_number = (p.block_buffer i).line_number) :
    Replanned p (p.store i block) := by
  refine ⟨rfl, rfl, rfl, rfl, fun j => ?_⟩
  by_cases hj : j = i
  · subst hj
    simp [store, h]
  · simp [store, hj]

theorem enter_replanned (p : PlannerRing) (i : Nat) (v : ℚ) : Replanned p (p.enter i v) := store_replanned rfl

theorem update_replanned (p : PlannerRing) : Replanned p p.update_plan_block_parameters := by
  unfold update_plan_block_parameters
  split
  · exact .refl p
  · exact (enter_replanned p _ _).trans ⟨rfl, rfl, rfl, rfl, fun _ => rfl⟩

theorem update_planned (p : PlannerRing) :
    p.update_plan_block_parameters.block_buffer_planned = p.block_buffer_planned := by
  unfold update_plan_block_parameters
  split <;> rfl

theorem slow_down_replanned (p : PlannerRing) (current next : Nat) :
    Replanned p (p.slow_down current next) ∧
      (p.slow_down current next).block_buffer_planned = p.block_buffer_planned := by
  unfold slow_down
  dsimp only
  split
  · split
    · exact ⟨enter_replanned p _ _, rfl⟩
    · exact ⟨enter_replanned p _ _, rfl⟩
  · exact ⟨.refl p, rfl⟩

theorem speed_up_replanned (p : PlannerRing) (current next : Nat) :
    Replanned p (p.speed_up current next) ∧
      ((p.speed_up current next).block_buffer_planned = p.block_buffer_planned ∨
        (p.speed_up current next).block_buffer_planned = next) := by
  unfold speed_up
  dsimp only
  split
  · have hentered : ∀ v, Replanned p { p.enter next v with block_buffer_planned := next } := fun v =>
      (enter_replanned p next v).trans ⟨rfl, rfl, rfl, rfl, fun _ => rfl⟩
    split
    · exact ⟨(hentered _).trans ⟨rfl, rfl, rfl, rfl, fun _ => rfl⟩, .inr rfl⟩
    · exact ⟨hentered _, .inr rfl⟩
  · split
    · exact ⟨⟨rfl, rfl, rfl, rfl, fun _ => rfl⟩, .inr rfl⟩
    · exact ⟨.refl p, .inl rfl⟩

end Steps

section Loops

/-- The reverse pass gets back to the planned pointer. -/
theorem reverse_loop_spec (turns current : Nat) {start k m : Nat}
    (hplanned : p.block_buffer_planned = place p.planner_blocks start k)
    (hroom : m < p.planner_blocks) (hturns : m ≤ turns) :
    ∃ q, reverse_loop turns (place p.planner_blocks start (k + m)) current p = some q ∧ Replanned p q ∧
      q.block_buffer_planned = p.block_buffer_planned := by
  induction turns generalizing p m current with
  | zero =>
    obtain rfl : m = 0 := by omega
    rw [reverse_loop, if_pos (by rw [hplanned]; rfl)]
    exact ⟨p, rfl, .refl p, rfl⟩
  | succ turns ih =>
    by_cases hend : m = 0
    · subst hend
      rw [reverse_loop, if_pos (by rw [hplanned]; rfl)]
      exact ⟨p, rfl, .refl p, rfl⟩
    · obtain ⟨m, rfl⟩ : ∃ l, m = l + 1 := ⟨m - 1, by omega⟩
      have hother : place p.planner_blocks start (k + (m + 1)) ≠ p.block_buffer_planned := by
        rw [hplanned]
        exact (place_ne (by omega) (by omega)).symm
      have hback : p.plan_prev_block_index (place p.planner_blocks start (k + (m + 1))) =
          place p.planner_blocks start (k + m) := prev_place (by omega)
      rw [reverse_loop, if_neg hother]
      dsimp only
      rw [hback]
      generalize hp' : (if place p.planner_blocks start (k + m) = p.block_buffer_tail then
        p.update_plan_block_parameters else p) = p'
      have hupdated : Replanned p p' ∧ p'.block_buffer_planned = p.block_buffer_planned := by
        rw [← hp']
        split
        · exact ⟨update_replanned p, update_planned p⟩
        · exact ⟨.refl p, rfl⟩
      obtain ⟨hslowed, hkept⟩ := slow_down_replanned p' (place p.planner_blocks start (k + (m + 1))) current
      generalize p'.slow_down (place p.planner_blocks start (k + (m + 1))) current = p'' at hslowed hkept ⊢
      have hall := hupdated.1.trans hslowed
      have hsame := hkept.trans hupdated.2
      obtain ⟨q, hloop, hq, hqplanned⟩ := ih (p := p'') (m := m)
        (place p.planner_blocks start (k + (m + 1)))
        (by rw [hsame, hall.planner_blocks]; exact hplanned) (by rw [hall.planner_blocks]; omega) (by omega)
      rw [hall.planner_blocks] at hloop
      exact ⟨q, hloop, hall.trans hq, hqplanned.trans hsame⟩

/-- The forward pass gets to the head, and leaves the planned pointer in front of it. -/
theorem forward_loop_spec (turns next : Nat) {start k j count : Nat}
    (hplanned : p.block_buffer_planned = place p.planner_blocks start k)
    (hhead : p.block_buffer_head = place p.planner_blocks start count) (hk : k < j) (hj : j ≤ count)
    (hcount : count < p.planner_blocks) (hturns : count - j ≤ turns) :
    ∃ q k', forward_loop turns (place p.planner_blocks start j) next p = some q ∧ Replanned p q ∧
      q.block_buffer_planned = place p.planner_blocks start k' ∧ k' < count := by
  induction turns generalizing p j k next with
  | zero =>
    obtain rfl : j = count := by omega
    rw [forward_loop, if_pos hhead.symm]
    exact ⟨p, k, rfl, .refl p, hplanned, hk⟩
  | succ turns ih =>
    by_cases hend : j = count
    · subst hend
      rw [forward_loop, if_pos hhead.symm]
      exact ⟨p, k, rfl, .refl p, hplanned, hk⟩
    · have hother : place p.planner_blocks start j ≠ p.block_buffer_head := by
        rw [hhead]
        exact place_ne (by omega) (by omega)
      rw [forward_loop, if_neg hother]
      dsimp only
      obtain ⟨hsped, hmoved⟩ := speed_up_replanned p next (place p.planner_blocks start j)
      generalize p.speed_up next (place p.planner_blocks start j) = p' at hsped hmoved ⊢
      have hforward : p'.plan_next_block_index (place p.planner_blocks start j) =
          place p'.planner_blocks start (j + 1) := by
        rw [plan_next_block_index, hsped.planner_blocks]
        exact next_place (by omega)
      obtain ⟨k', hk', hplace⟩ : ∃ k' < j + 1, p'.block_buffer_planned = place p.planner_blocks start k' := by
        obtain hstay | hhere := hmoved
        · exact ⟨k, by omega, hstay.trans hplanned⟩
        · exact ⟨j, by omega, hhere⟩
      rw [hforward]
      obtain ⟨q, k'', hloop, hq, hqplanned, hlt⟩ := ih (p := p') (place p.planner_blocks start j)
        (by rw [hsped.planner_blocks]; exact hplace) (by rw [hsped.head, hsped.planner_blocks]; exact hhead)
        hk' (by omega) (by rw [hsped.planner_blocks]; exact hcount) (by omega)
      rw [hsped.planner_blocks] at hqplanned
      exact ⟨q, k'', hloop, hsped.trans hq, hqplanned, hlt⟩

/-- The reverse pass. -/
theorem reverse_pass_spec (h : p.Sound count planned) {m : Nat} (hcount : count = planned + m + 2) :
    ∃ q, p.reverse_pass (place p.planner_blocks p.block_buffer_tail (planned + m + 1)) = some q ∧
      Replanned p q ∧ q.block_buffer_planned = p.block_buffer_planned := by
  have hlt := h.count_lt
  unfold reverse_pass
  dsimp only
  generalize hlast : place p.planner_blocks p.block_buffer_tail (planned + m + 1) = last
  generalize hp' : p.enter last _ = p'
  have hentered : Replanned p p' ∧ p'.block_buffer_planned = p.block_buffer_planned := by
    rw [← hp']
    exact ⟨enter_replanned p _ _, rfl⟩
  have hback : p'.plan_prev_block_index last = place p'.planner_blocks p.block_buffer_tail (planned + m) := by
    rw [plan_prev_block_index, ← hlast, hentered.1.planner_blocks]
    exact prev_place (by omega)
  have hpointer : p'.block_buffer_planned = place p'.planner_blocks p.block_buffer_tail planned := by
    rw [hentered.2, h.planned_eq, hentered.1.planner_blocks]
  rw [hback]
  split
  · split
    · exact ⟨_, rfl, hentered.1.trans (update_replanned p'), (update_planned p').trans hentered.2⟩
    · exact ⟨_, rfl, hentered.1, hentered.2⟩
  · obtain ⟨q, hloop, hq, hqplanned⟩ := reverse_loop_spec p'.planner_blocks last (m := m)
      hpointer (by rw [hentered.1.planner_blocks]; omega) (by rw [hentered.1.planner_blocks]; omega)
    exact ⟨q, hloop, hentered.1.trans hq, hqplanned.trans hentered.2⟩

/-- Planning anew comes to an end and leaves the queue as it is. -/
theorem planner_recalculate_spec (h : p.Sound count planned) :
    ∃ q k, p.planner_recalculate = some q ∧ Replanned p q ∧ q.Sound count k := by
  have hlt := h.count_lt
  have hn : 0 < p.planner_blocks := by omega
  unfold planner_recalculate
  by_cases hempty : count = 0
  · rw [if_pos (by rw [h.head_eq, hempty, place_zero h.tail_lt])]
    exact ⟨p, planned, rfl, .refl p, h⟩
  have hhead : p.block_buffer_head ≠ p.block_buffer_tail := by
    rw [h.head_eq]
    conv_rhs => rw [← place_zero h.tail_lt]
    exact (place_ne (by omega) (by omega)).symm
  rw [if_neg hhead]
  dsimp only
  obtain ⟨c, rfl⟩ : ∃ c, count = c + 1 := ⟨count - 1, by omega⟩
  have hlast : p.plan_prev_block_index p.block_buffer_head = place p.planner_blocks p.block_buffer_tail c := by
    rw [h.head_eq]
    exact prev_place hn
  have hplanned := h.planned_le
  rw [hlast]
  by_cases hone : c = planned
  · rw [if_pos (by rw [h.planned_eq, hone])]
    exact ⟨p, planned, rfl, .refl p, h⟩
  · have hother : place p.planner_blocks p.block_buffer_tail c ≠ p.block_buffer_planned := by
      rw [h.planned_eq]
      exact (place_ne (by omega) (by omega)).symm
    rw [if_neg hother]
    obtain ⟨m, rfl⟩ : ∃ m, c = planned + m + 1 := ⟨c - planned - 1, by omega⟩
    obtain ⟨q, hreverse, hq, hqplanned⟩ := reverse_pass_spec h (m := m) (by omega)
    rw [hreverse, Option.bind_some]
    have hqpointer : q.block_buffer_planned = place q.planner_blocks p.block_buffer_tail planned := by
      rw [hqplanned, h.planned_eq, hq.planner_blocks]
    have hstart : q.plan_next_block_index q.block_buffer_planned =
        place q.planner_blocks p.block_buffer_tail (planned + 1) := by
      rw [hqpointer]
      exact next_place (by rw [hq.planner_blocks]; exact hn)
    rw [hstart]
    obtain ⟨r, k, hforward, hr, hrplanned, hk⟩ := forward_loop_spec q.planner_blocks
      q.block_buffer_planned hqpointer
      (by rw [hq.head, hq.planner_blocks]; exact h.head_eq) (Nat.lt_succ_self planned)
      (by omega) (by rw [hq.planner_blocks]; exact hlt) (by rw [hq.planner_blocks]; omega)
    have hall := hq.trans hr
    exact ⟨r, k, hforward, hall, h.replanned hall (by rw [hrplanned, hq.planner_blocks]) (.inl hk)⟩

/-- The loop over the queue in which the speed limits are computed anew. -/
theorem profile_loop_spec (turns : Nat) (speed : ℚ) {start j : Nat}
    (hhead : p.block_buffer_head = place p.planner_blocks start count) (hj : j ≤ count)
    (hcount : count < p.planner_blocks) (hturns : count - j ≤ turns) :
    ∃ q, profile_loop turns (place p.planner_blocks start j) speed p = some q ∧ Replanned p q ∧
      q.block_buffer_planned = p.block_buffer_planned := by
  induction turns generalizing p j speed with
  | zero =>
    obtain rfl : j = count := by omega
    rw [profile_loop, if_pos hhead.symm]
    exact ⟨_, rfl, ⟨rfl, rfl, rfl, rfl, fun _ => rfl⟩, rfl⟩
  | succ turns ih =>
    by_cases hend : j = count
    · subst hend
      rw [profile_loop, if_pos hhead.symm]
      exact ⟨_, rfl, ⟨rfl, rfl, rfl, rfl, fun _ => rfl⟩, rfl⟩
    · have hother : place p.planner_blocks start j ≠ p.block_buffer_head := by
        rw [hhead]
        exact place_ne (by omega) (by omega)
      rw [profile_loop, if_neg hother]
      dsimp only
      generalize hp' : p.store (place p.planner_blocks start j) _ = p'
      have hstored : Replanned p p' ∧ p'.block_buffer_planned = p.block_buffer_planned := by
        rw [← hp']
        exact ⟨store_replanned rfl, rfl⟩
      have hforward : p'.plan_next_block_index (place p.planner_blocks start j) =
          place p'.planner_blocks start (j + 1) := by
        rw [plan_next_block_index, hstored.1.planner_blocks]
        exact next_place (by omega)
      rw [hforward]
      obtain ⟨q, hloop, hq, hqplanned⟩ := ih (p := p') _ (j := j + 1)
        (by rw [hstored.1.head, hstored.1.planner_blocks]; exact hhead) (by omega)
        (by rw [hstored.1.planner_blocks]; exact hcount) (by omega)
      exact ⟨q, hloop, hstored.1.trans hq, hqplanned.trans hstored.2⟩

end Loops

/-- The line numbers of the queued blocks. -/
def lines (p : PlannerRing) : List Int := p.queue.map fun i => (p.block_buffer i).line_number

/-- What an event that only changes speeds keeps. -/
theorem Replanned.queue_eq (hq : Replanned p q) : q.queue = p.queue := by
  have hwalk : ∀ turns i, q.walk turns i = p.walk turns i := by
    intro turns
    induction turns with
    | zero => exact fun _ => rfl
    | succ turns ih =>
      intro i
      rw [walk, walk, hq.head, plan_next_block_index, hq.planner_blocks, ih]
      rfl
  rw [queue, hq.planner_blocks, hq.tail, hwalk]
  rfl

theorem Replanned.lines_eq (hq : Replanned p q) : q.lines = p.lines := by
  rw [lines, hq.queue_eq]
  exact List.map_congr_left fun i _ => hq.line_number i

theorem Sound.head_notMem (h : p.Sound count planned) : p.block_buffer_head ∉ p.queue := by
  intro hmem
  have hlt := h.count_lt
  rw [h.queue_eq] at hmem
  obtain ⟨o, ho, heq⟩ := mem_span.mp hmem
  rw [h.head_eq] at heq
  exact place_ne ho (by omega) heq

/-- A block that is put together at the head, and goes no further. -/
theorem Sound.store_head (h : p.Sound count planned) (block : RingBlock) :
    (p.store p.block_buffer_head block).Sound count planned ∧
      (p.store p.block_buffer_head block).queue = p.queue ∧
      ∀ i ∈ p.queue, (p.store p.block_buffer_head block).block_buffer i = p.block_buffer i := by
  refine ⟨⟨h.tail_lt, h.head_eq, h.next_head_eq, h.planned_eq, h.count_lt, h.planned_le⟩, ?_, fun i hi => ?_⟩
  · have hwalk : ∀ turns i, (p.store p.block_buffer_head block).walk turns i = p.walk turns i := by
      intro turns
      induction turns with
      | zero => exact fun _ => rfl
      | succ turns ih =>
        intro i
        rw [walk, walk, ih]
        rfl
    exact hwalk _ _
  · have hother : i ≠ p.block_buffer_head := fun heq => h.head_notMem (heq ▸ hi)
    exact Function.update_of_ne hother _ _

/-- Unless the buffer is full there is a cell to spare behind the head. -/
theorem Sound.room (h : p.Sound count planned) (hfull : p.plan_check_full_buffer = false) :
    count + 1 < p.planner_blocks := by
  have hlt := h.count_lt
  by_contra hno
  have hcount : count + 1 = 0 + p.planner_blocks := by omega
  have htail : p.block_buffer_tail = p.next_buffer_head := by
    rw [h.next_head_eq, hcount, place_turn, place_zero h.tail_lt]
  simp [plan_check_full_buffer, htail] at hfull

end DuneWeaver.PlannerRing
