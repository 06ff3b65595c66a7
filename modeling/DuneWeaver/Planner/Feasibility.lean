import DuneWeaver.Planner.Passes

open Stretch

namespace DuneWeaver

namespace Planner

/-- Whether the machine gets from one speed to the next on the way through the block. -/
def Reaches (current next : PlanBlock) : Prop := |next.entry_speed_sqr - current.entry_speed_sqr| ≤ current.reach

instance decidableReaches (current next : PlanBlock) : Decidable (Reaches current next) :=
  inferInstanceAs (Decidable (|next.entry_speed_sqr - current.entry_speed_sqr| ≤ current.reach))

/-- The speed of the last block: a block the stepper has loaded moves at its own speed,
another one will be entered as planned. -/
def last_speed_sqr (p : Planner) (last : PlanBlock) : ℚ :=
  if p.pl_block ∧ p.blocks = [last] then p.current_speed_sqr else last.entry_speed_sqr

/-- The machine can follow the plan. No block behind the tail is entered above its maximum;
every entry speed can be reached from the one before it, except from a block that the
stepper is in the middle of; and the last block can be stopped in. -/
structure Drivable (p : Planner) : Prop where
  entry_le : ∀ block ∈ p.blocks.tail, block.entry_speed_sqr ≤ block.max_entry_speed_sqr
  reachable : ∀ i current next, p.blocks[i]? = some current → p.blocks[i + 1]? = some next →
    (i = 0 → p.executing = false) → Reaches current next
  stops : ∀ last, p.blocks.getLast? = some last → p.last_speed_sqr last ≤ last.reach

/-- The same, block after block, with what the planner's pointer needs. -/
structure Planned (p : Planner) : Prop where
  planned_le : p.planned ≤ p.blocks.length - 1
  idle : p.blocks = [] → p.executing = false
  entry_le : ∀ block ∈ p.blocks.tail.head?, block.entry_speed_sqr ≤ block.max_entry_speed_sqr
  rest : Feasible (plan p.blocks.tail)
  whole : p.executing = false → Feasible (plan p.blocks)
  stops : ∀ tail, p.blocks = [tail] → p.last_speed_sqr tail ≤ tail.reach

end Planner

theorem feasible_entry_le {blocks : List PlanBlock} (h : Feasible (plan blocks))
    (hhead : ∀ block ∈ blocks.head?, block.entry_speed_sqr ≤ block.max_entry_speed_sqr) :
    ∀ block ∈ blocks, block.entry_speed_sqr ≤ block.max_entry_speed_sqr := by
  induction blocks with
  | nil =>
    intro block hmem
    cases hmem
  | cons current rest ih =>
    intro block hmem
    obtain rfl | hmem := List.mem_cons.mp hmem
    · exact hhead block rfl
    · refine ih h.tail ?_ block hmem
      cases rest with
      | nil => cases hmem
      | cons next rest =>
        rintro _ ⟨⟩
        exact h.1

theorem feasible_reachable {blocks : List PlanBlock} (h : Feasible (plan blocks)) {i : Nat}
    {current next : PlanBlock} (hi : blocks[i]? = some current) (hnext : blocks[i + 1]? = some next) :
    |next.entry_speed_sqr - current.entry_speed_sqr| ≤ current.reach := by
  induction blocks generalizing i with
  | nil => cases hi
  | cons block rest ih =>
    cases i with
    | zero =>
      cases rest with
      | nil => cases hnext
      | cons behind rest =>
        cases hi
        cases hnext
        exact h.2.1
    | succ i => exact ih h.tail hi hnext

theorem feasible_stops {blocks : List PlanBlock} (h : Feasible (plan blocks)) {last : PlanBlock}
    (hlast : blocks.getLast? = some last) : last.entry_speed_sqr ≤ last.reach := by
  obtain ⟨before, rfl⟩ := List.getLast?_eq_some_iff.mp hlast
  rw [plan_append] at h
  exact h.suffix

namespace Planner

variable {p : Planner}

theorem last_speed_sole {last : PlanBlock} (h : p.blocks = [last]) :
    p.last_speed_sqr last = if p.pl_block then p.current_speed_sqr else last.entry_speed_sqr := by
  unfold last_speed_sqr
  simp only [h, and_true]

theorem Planned.drivable (h : p.Planned) : p.Drivable where
  entry_le := feasible_entry_le h.rest h.entry_le
  reachable i current next hi hnext htail := by
    cases i with
    | zero => exact feasible_reachable (h.whole (htail rfl)) hi hnext
    | succ i =>
      apply feasible_reachable h.rest (i := i)
      · rw [List.getElem?_tail]
        exact hi
      · rw [List.getElem?_tail]
        exact hnext
  stops last hlast := by
    cases hblocks : p.blocks with
    | nil =>
      rw [hblocks] at hlast
      cases hlast
    | cons tail rest =>
      cases rest with
      | nil =>
        rw [hblocks] at hlast
        obtain rfl : tail = last := Option.some.inj hlast
        exact h.stops tail hblocks
      | cons next rest =>
        have hrest := h.rest
        rw [hblocks] at hlast hrest
        unfold last_speed_sqr
        rw [if_neg]
        · exact feasible_stops hrest hlast
        · rintro ⟨_, hsole⟩
          rw [hblocks] at hsole
          cases hsole

/-- Planned anew from the tail on, the queue is in order if the tail is. -/
theorem planned_of_tail (tail : PlanBlock) (rest : List PlanBlock) (hblocks : p.blocks = tail :: rest)
    (hplanned : p.planned = 0) (hrest : rest ≠ []) (hbraked : Braked rest)
    (htail : p.executing = false → tail.entry_speed_sqr ≤ limit (path rest) + tail.reach) :
    p.planner_recalculate.Planned := by
  have hplan := p.replanned_plan tail hbraked
  have hlength := p.replanned_length tail hbraked
  have hpointer := p.replanned_planned_le tail hbraked
  rw [planner_recalculate_eq [] hblocks hplanned hrest, if_pos hplanned]
  constructor
  · rw [hplanned, Nat.zero_add, ← hlength] at hpointer
    exact hpointer
  · rintro ⟨⟩
  · intro block hmem
    have hhead : (block.stretch, block.entry_speed_sqr) ∈ (plan (p.replanned tail rest).2).head? := by
      unfold plan
      rw [List.head?_map]
      exact Option.mem_map_of_mem _ hmem
    rw [hplan] at hhead
    exact follow_le_cap hhead
  · change Feasible (plan (p.replanned tail rest).2)
    rw [hplan]
    exact feasible_follow_rest (sound_path rest) _ _
  · intro hidle
    have hwait : p.executing = false := (update_executing p).symm.trans hidle
    have hstart : p.start_block tail = tail := by
      unfold executing at hwait
      unfold start_block
      rw [if_neg]
      rintro ⟨_, hloaded⟩
      rw [hloaded] at hwait
      cases hwait
    change Feasible (plan (p.start_block tail :: (p.replanned tail rest).2))
    rw [plan_cons, hplan, hstart]
    exact feasible_follow (sound_path (tail :: rest)) (htail hwait)
  · intro last hsole
    have hbehind : (p.replanned tail rest).2 = [] := (List.cons.inj hsole).2
    rw [hbehind] at hlength
    exact absurd (List.eq_nil_of_length_eq_zero hlength.symm) hrest

/-- Planned anew from further on, the queue stays in order. -/
theorem planned_of_middle (tail current : PlanBlock) (between old rest : List PlanBlock)
    (hblocks : p.blocks = tail :: between ++ current :: rest) (hplanned : p.planned = between.length + 1)
    (hrest : rest ≠ []) (hbraked : Braked rest)
    (hlevel : current.entry_speed_sqr ≤ limit (path rest) + current.reach)
    (hentry : ∀ block ∈ (between ++ current :: old).head?, block.entry_speed_sqr ≤ block.max_entry_speed_sqr)
    (hbefore : Feasible (plan (between ++ current :: old)))
    (hwhole : p.executing = false → Feasible (plan (tail :: between ++ current :: old))) :
    p.planner_recalculate.Planned := by
  have hplan := p.replanned_plan current hbraked
  have hlength := p.replanned_length current hbraked
  have hpointer := p.replanned_planned_le current hbraked
  have hbehind : p.planned ≠ 0 := by omega
  have hstart : p.start_block current = current := if_neg fun h => hbehind h.1
  have hnew : Feasible (plan (current :: (p.replanned current rest).2)) := by
    rw [plan_cons, hplan, hstart]
    exact feasible_follow (sound_path (current :: rest)) hlevel
  rw [planner_recalculate_eq (tail :: between) hblocks hplanned hrest, if_neg hbehind, hstart]
  constructor
  · dsimp only
    rw [List.length_append, List.length_cons, List.length_cons, hlength]
    omega
  · rintro ⟨⟩
  · intro block hmem
    apply hentry
    cases between with
    | nil => exact hmem
    | cons next between => exact hmem
  · change Feasible (plan (between ++ current :: _))
    rw [plan_append] at hbefore ⊢
    exact hbefore.replan hnew
  · intro hidle
    have hold := hwhole hidle
    change Feasible (plan (tail :: between ++ current :: _))
    rw [plan_append] at hold ⊢
    exact hold.replan hnew
  · intro last hsole
    have hlong := congrArg List.length hsole
    rw [List.length_append, List.length_cons, List.length_cons] at hlong
    exact absurd hlong (by rw [List.length_singleton]; omega)

/-- A new last block leaves the plan in order. -/
theorem planned_append (h : p.Planned) {block : PlanBlock} (hentry : block.entry_speed_sqr = 0)
    (speed : ℚ) :
    (planner_recalculate
      { p with previous_nominal_speed := speed, blocks := p.blocks ++ [block] }).Planned := by
  have hplanned := h.planned_le
  cases hblocks : p.blocks with
  | nil =>
    have hfirst : p.planned = 0 := by
      rw [hblocks] at hplanned
      exact Nat.le_zero.mp hplanned
    have hidle := h.idle hblocks
    have hunloaded : p.pl_block = false := (Bool.or_eq_false_iff.mp hidle).1
    have hstop : block.entry_speed_sqr ≤ block.reach := hentry ▸ block.reach_nonneg
    rw [planner_recalculate_short (Nat.le_add_left 1 _)]
    constructor
    · exact hfirst.le
    · rintro ⟨⟩
    · rintro _ ⟨⟩
    · trivial
    · exact fun _ => hstop
    · intro tail hsole
      obtain rfl : block = tail := (List.cons.inj hsole).1
      unfold last_speed_sqr
      rw [if_neg]
      · exact hstop
      · rintro ⟨hloaded, _⟩
        rw [hunloaded] at hloaded
        cases hloaded
  | cons tail rest =>
    have hrest := h.rest
    have hwhole := h.whole
    have hhead := h.entry_le
    rw [hblocks] at hrest hwhole hhead hplanned
    cases hpointer : p.planned with
    | zero =>
      apply planned_of_tail tail (rest ++ [block])
      · rfl
      · rfl
      · exact List.append_ne_nil_of_right_ne_nil _ (List.cons_ne_nil _ _)
      · exact braked_append hrest trivial
      · exact fun hidle => level_le_append (hwhole hidle) [block]
    | succ n =>
      have hn : n < rest.length := by
        rw [List.length_cons] at hplanned
        omega
      obtain ⟨between, current, old, rfl, rfl⟩ : ∃ between current old,
          rest = between ++ current :: old ∧ between.length = n :=
        ⟨rest.take n, rest[n], rest.drop (n + 1), by simp, by simp; omega⟩
      have hsuffix : Feasible (plan (current :: old)) := by
        rw [List.tail_cons, plan_append] at hrest
        exact hrest.suffix
      apply planned_of_middle tail current between old (old ++ [block])
      · simp
      · rfl
      · exact List.append_ne_nil_of_right_ne_nil _ (List.cons_ne_nil _ _)
      · exact braked_append hsuffix.tail trivial
      · exact level_le_append hsuffix [block]
      · exact hhead
      · exact hrest
      · exact hwhole

/-- The first block is out of the way: what comes after it is planned without it. -/
theorem planned_discard (h : p.Planned) : p.plan_discard_current_block.Planned := by
  unfold plan_discard_current_block
  cases hblocks : p.blocks with
  | nil => exact h
  | cons tail rest =>
    have hrest := h.rest
    have hplanned := h.planned_le
    rw [hblocks, List.tail_cons] at hrest
    rw [hblocks, List.length_cons] at hplanned
    constructor
    · dsimp only
      split_ifs <;> omega
    · exact fun _ => rfl
    · cases rest with
      | nil => rintro _ ⟨⟩
      | cons next rest =>
        cases rest with
        | nil => rintro _ ⟨⟩
        | cons behind rest =>
          rintro _ ⟨⟩
          exact hrest.1
    · cases rest with
      | nil => trivial
      | cons next rest => exact hrest.tail
    · exact fun _ => hrest
    · intro last hsole
      unfold last_speed_sqr
      rw [if_neg fun hloaded => Bool.false_ne_true hloaded.1]
      change rest = [last] at hsole
      rw [hsole] at hrest
      exact hrest

/-- Planned anew after a change of the limits, the queue is in order if nothing in it is too
fast to be passed over. -/
theorem planned_cycle_reinit {tail : PlanBlock} {rest : List PlanBlock} (hblocks : p.blocks = tail :: rest)
    (hbraked : Braked rest)
    (htail : p.executing = false → rest ≠ [] → tail.entry_speed_sqr ≤ limit (path rest) + tail.reach)
    (hstops : rest = [] → p.last_speed_sqr tail ≤ tail.reach) : p.cycle_reinit.Planned := by
  have hupdated := update_blocks_cons hblocks
  have hunloaded : p.executing = false → p.pl_block = false := fun hidle => (Bool.or_eq_false_iff.mp hidle).1
  unfold cycle_reinit
  by_cases hrest : rest = []
  · subst hrest
    have hspeed : (if p.pl_block then tail.entered p.current_speed_sqr else tail).entry_speed_sqr ≤
        (if p.pl_block then tail.entered p.current_speed_sqr else tail).reach := by
      have hlast := hstops rfl
      rw [last_speed_sole hblocks] at hlast
      split_ifs at hlast ⊢
      · exact hlast
      · exact hlast
    generalize (if p.pl_block then tail.entered p.current_speed_sqr else tail) = tail' at hupdated hspeed
    rw [planner_recalculate_short]
    · constructor
      · exact Nat.zero_le _
      · intro hempty
        rw [hupdated] at hempty
        cases hempty
      · dsimp only
        rw [hupdated]
        rintro _ ⟨⟩
      · dsimp only
        rw [hupdated]
        trivial
      · dsimp only
        rw [hupdated]
        exact fun _ => hspeed
      · intro last hsole
        rw [last_speed_sole hsole]
        dsimp only at hsole ⊢
        rw [hupdated] at hsole
        obtain rfl : tail' = last := (List.cons.inj hsole).1
        rw [update_pl_block]
        exact hspeed
    · dsimp only
      rw [hupdated]
      exact le_rfl
  · refine planned_of_tail _ rest hupdated rfl hrest hbraked ?_
    intro hidle
    have hwait : p.executing = false := (update_executing p).symm.trans hidle
    rw [if_neg (Bool.eq_false_iff.mp (hunloaded hwait))]
    exact htail hwait hrest

/-- With the limits as they are, nothing is too fast to be passed over. -/
theorem planned_cycle_reinit_kept (h : p.Planned) : p.cycle_reinit.Planned := by
  cases hblocks : p.blocks with
  | nil =>
    have hupdated := update_blocks_nil hblocks
    unfold cycle_reinit
    rw [planner_recalculate_short (by dsimp only; rw [hupdated]; exact Nat.zero_le _)]
    constructor
    · exact Nat.zero_le _
    · exact fun _ => (update_executing p).trans (h.idle hblocks)
    all_goals
      dsimp only
      rw [hupdated]
    · rintro _ ⟨⟩
    · trivial
    · exact fun _ => trivial
    · rintro _ ⟨⟩
  | cons tail rest =>
    have hrest := h.rest
    have hwhole := h.whole
    rw [hblocks] at hrest hwhole
    have hbraked : Braked rest := by
      have hnothing := braked_append hrest (show Braked [] from trivial)
      rw [List.append_nil] at hnothing
      exact hnothing
    apply planned_cycle_reinit hblocks hbraked
    · intro hidle _
      have hlevel := level_le_append (hwhole hidle) []
      rw [List.append_nil] at hlevel
      exact hlevel
    · intro hbehind
      subst hbehind
      exact h.stops tail hblocks

/-- `Stepper::prep_buffer` keeps the plan in order as long as it can still stop at the end of the
last block. -/
theorem planned_prep (h : p.Planned) {prep : Prep}
    (hstops : ∀ tail, p.blocks = [tail] → prep.speed_sqr ≤ 2 * tail.acceleration * prep.millimeters) :
    (p.prep_buffer prep).Planned := by
  unfold prep_buffer
  cases hblocks : p.blocks with
  | nil => exact h
  | cons tail rest =>
    have hrest := h.rest
    have hhead := h.entry_le
    have hplanned := h.planned_le
    rw [hblocks] at hrest hhead hplanned
    constructor
    · exact hplanned
    · rintro ⟨⟩
    · exact hhead
    · exact hrest
    · rintro ⟨⟩
    · intro last hsole
      rw [last_speed_sole hsole, if_pos rfl]
      obtain ⟨rfl, rfl⟩ := List.cons.inj hsole
      have hroom := hstops tail hblocks
      dsimp only
      split_ifs <;> exact hroom

/-- No block that the reverse pass will pass over is too fast. It passes over the tail, unless
the stepper is in the middle of it, and the blocks that are planned to be entered at their
maximum. -/
def Passable (executing : Bool) : List PlanBlock → Prop
  | [] => True
  | [_] => True
  | tail :: next :: rest =>
    Braked (next :: rest) ∧
      (executing = false → tail.entry_speed_sqr ≤ limit (path (next :: rest)) + tail.reach)

instance decidablePassable (executing : Bool) : (blocks : List PlanBlock) → Decidable (Passable executing blocks)
  | [] => .isTrue trivial
  | [_] => .isTrue trivial
  | tail :: next :: rest => inferInstanceAs (Decidable (Braked (next :: rest) ∧
      (executing = false → tail.entry_speed_sqr ≤ limit (path (next :: rest)) + tail.reach)))

/-- The stepper moves so that it can stop at the end of the last block. -/
def Stoppable (prep : Prep) : List PlanBlock → Prop
  | [tail] => prep.speed_sqr ≤ 2 * tail.acceleration * prep.millimeters
  | _ => True

instance decidableStoppable (prep : Prep) : (blocks : List PlanBlock) → Decidable (Stoppable prep blocks)
  | [] => .isTrue trivial
  | [tail] => inferInstanceAs (Decidable (prep.speed_sqr ≤ 2 * tail.acceleration * prep.millimeters))
  | _ :: _ :: _ => .isTrue trivial

/-- An override leaves the blocks that are passed over slow enough for their new limits, and the
stepper stays able to stop. -/
def Slowing (p : Planner) : PlannerEvent → Prop
  | .override f_override r_override =>
    Passable p.executing (update_profiles f_override r_override SOME_LARGE_VALUE p.blocks).2
  | .prep prep => Stoppable prep p.blocks
  | _ => True

instance decidableSlowing (p : Planner) : (e : PlannerEvent) → Decidable (p.Slowing e)
  | .override f_override r_override => inferInstanceAs
      (Decidable (Passable p.executing (update_profiles f_override r_override SOME_LARGE_VALUE p.blocks).2))
  | .prep prep => inferInstanceAs (Decidable (Stoppable prep p.blocks))
  | .append _ => .isTrue trivial
  | .discard => .isTrue trivial
  | .cycle_reinit => .isTrue trivial

theorem planned_override (h : p.Planned) {f_override r_override : Nat}
    (hpass : p.Slowing (.override f_override r_override)) :
    (p.step (.override f_override r_override)).Planned := by
  unfold Slowing at hpass
  unfold step plan_update_velocity_profile_parameters
  dsimp only
  cases hblocks : p.blocks with
  | nil =>
    rw [if_pos (by rfl)]
    have hpointer := h.planned_le
    rw [hblocks] at hpointer
    constructor
    · exact hpointer
    · exact fun _ => h.idle hblocks
    · rintro _ ⟨⟩
    · trivial
    · exact fun _ => trivial
    · rintro _ ⟨⟩
  | cons tail rest =>
    rw [hblocks] at hpass
    rw [if_neg (by rintro ⟨⟩)]
    refine planned_cycle_reinit rfl ?_ ?_ ?_
    · cases rest with
      | nil => trivial
      | cons next rest => exact hpass.1
    · intro hidle hbehind
      cases rest with
      | nil => exact absurd rfl hbehind
      | cons next rest => exact hpass.2 hidle
    · intro hbehind
      obtain rfl : rest = [] := by
        cases rest with
        | nil => rfl
        | cons next rest => cases hbehind
      have hlast := h.stops tail hblocks
      rw [last_speed_sole hblocks] at hlast
      rw [last_speed_sole rfl]
      exact hlast

theorem planned_step (h : p.Planned) {e : PlannerEvent} (hslowing : p.Slowing e) : (p.step e).Planned := by
  cases e with
  | append line =>
    unfold step plan_buffer_line
    dsimp only
    split_ifs
    · exact h
    · exact h
    · exact h
    · exact h
    · exact planned_append h rfl _
  | discard => exact planned_discard h
  | override f_override r_override => exact planned_override h hslowing
  | cycle_reinit => exact planned_cycle_reinit_kept h
  | prep prep =>
    apply planned_prep h
    intro tail hsole
    unfold Slowing at hslowing
    rw [hsole] at hslowing
    exact hslowing

/-- The plan stays drivable for as long as no override makes a block too fast that the reverse
pass passes over. -/
theorem plan_stays_drivable (planner_blocks : Nat) (events : List PlannerEvent)
    (hslowing : Transition.Throughout step Slowing { planner_blocks := planner_blocks } events) :
    Transition.Always step Drivable { planner_blocks := planner_blocks } events := by
  have hinit : Planned { planner_blocks := planner_blocks } := by
    constructor
    · exact le_rfl
    · exact fun _ => rfl
    · rintro _ ⟨⟩
    · trivial
    · exact fun _ => trivial
    · rintro _ ⟨⟩
  have halways := Transition.always_of_invariant (I := Planned) (fun p e hp he => planned_step hp he)
    hinit hslowing
  exact halways.mono fun _ => Planned.drivable

/-- Two rapid motions with a corner between them, passed at 10 mm/min, and straight on a
feed. -/
def corner_then_feed : List PlannerEvent := [
  .append (.of true 50 1000 .straight (by decide)),
  .append (.of true 50 10 (.corner 100) (by decide)),
  .append (.of false 50 1000 .straight (by decide))]

theorem slower_rapids_stay_drivable :
    Transition.Always step Drivable { planner_blocks := 16 }
      (corner_then_feed ++ [.prep ⟨none, 900, 200, by decide⟩, .override 100 25, .discard, .cycle_reinit]) := by
  apply plan_stays_drivable
  decide +kernel

/-- A queue whose third block cannot be reached from its second one. -/
private theorem not_drivable_of_second
    (hfast : (p.blocks[1]?.bind fun current => p.blocks[2]?.map fun next => decide (Reaches current next)) =
      some false) : ¬ p.Drivable := by
  intro h
  have hwithin := h.reachable 1
  cases hcurrent : p.blocks[1]? with
  | none =>
    rw [hcurrent] at hfast
    cases hfast
  | some current =>
    cases hnext : p.blocks[2]? with
    | none =>
      rw [hcurrent, hnext] at hfast
      cases hfast
    | some next =>
      rw [hcurrent, hnext, Option.bind_some, Option.map_some, Option.some_inj] at hfast
      exact of_decide_eq_false hfast (hwithin current next hcurrent hnext (fun hfirst => by cases hfirst))

/-- The second line keeps its speed, the limit of its corner, when a feed override makes the
third one so slow that the second cannot be left at its speed any more. -/
theorem feed_override_outruns_rapid :
    ¬ Transition.Always step Drivable { planner_blocks := 16 } (corner_then_feed ++ [.override 10 100]) := by
  intro h
  refine not_drivable_of_second ?_ h.last
  decide +kernel

end Planner

end DuneWeaver
