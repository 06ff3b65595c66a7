import DuneWeaver.Planner.Passes

open Stretch

namespace DuneWeaver

/-- The reverse pass without a shortcut: every block is planned anew from the exit speed
zero of the last one. -/
def full_reverse_pass : List PlanBlock → List PlanBlock
  | [] => []
  | current :: rest =>
    let planned := full_reverse_pass rest
    current.entered (min current.max_entry_speed_sqr (exit_speed_sqr planned + current.reach)) :: planned

/-- The whole queue planned anew from the tail on. -/
def full_plan : List PlanBlock → List PlanBlock
  | [] => []
  | tail :: rest => tail :: (forward_pass tail 1 0 (full_reverse_pass rest)).2

theorem full_reverse_pass_plan (blocks : List PlanBlock) :
    plan (full_reverse_pass blocks) = limited (path blocks) := by
  induction blocks with
  | nil => rfl
  | cons current rest ih =>
    have hexit := exit_speed_of_limited ih
    unfold full_reverse_pass
    dsimp only
    rw [plan_cons, ih, hexit]
    rfl

theorem full_plan_plan (tail : PlanBlock) (rest : List PlanBlock) :
    plan (full_plan (tail :: rest)) =
      (tail.stretch, tail.entry_speed_sqr) :: follow tail.entry_speed_sqr tail.stretch (path rest) := by
  unfold full_plan
  rw [plan_cons, forward_pass_plan (full_reverse_pass_plan rest)]

/-- The entry speeds of the blocks. -/
def entry_speeds (blocks : List PlanBlock) : List ℚ := blocks.map PlanBlock.entry_speed_sqr

theorem entry_speeds_eq (blocks : List PlanBlock) : entry_speeds blocks = (plan blocks).map Prod.snd := by
  unfold entry_speeds plan
  rw [List.map_map]
  rfl

namespace Planner

/-- Planning the whole queue anew would not change an entry speed, and up to the planned pointer
it would not even with more blocks behind the queue. -/
structure Optimal (p : Planner) : Prop where
  full : entry_speeds p.blocks = entry_speeds (full_plan p.blocks)
  final : ∀ ext, p.blocks ≠ [] → (entry_speeds (full_plan (p.blocks ++ ext))).take (p.planned + 1) =
    (entry_speeds p.blocks).take (p.planned + 1)

/-- Blocks come and go, and the stepper changes neither the entry speed nor the length of a
block while it prepares segments. -/
def Streaming (p : Planner) : PlannerEvent → Prop
  | .append _ => True
  | .discard => True
  | .prep prep => prep.exit_speed_sqr = none ∧
    ∀ tail ∈ p.blocks.head?, prep.millimeters = tail.millimeters ∧ prep.speed_sqr = tail.entry_speed_sqr
  | _ => False

instance decidableStreaming (p : Planner) : (e : PlannerEvent) → Decidable (p.Streaming e)
  | .append _ => .isTrue trivial
  | .discard => .isTrue trivial
  | .prep prep => inferInstanceAs (Decidable (prep.exit_speed_sqr = none ∧
      ∀ tail ∈ p.blocks.head?, prep.millimeters = tail.millimeters ∧ prep.speed_sqr = tail.entry_speed_sqr))
  | .override _ _ => .isFalse id
  | .cycle_reinit => .isFalse id

/-- The queue follows the limits from its tail on, the tail is no faster than they allow, and the
planned pointer is at the tail or where the plan is final. -/
structure Settled (p : Planner) : Prop where
  idle : p.blocks = [] → p.executing = false ∧ p.planned = 0
  tail_le : ∀ tail rest, p.blocks = tail :: rest →
    tail.entry_speed_sqr ≤ limit (path rest) + tail.reach
  follows : ∀ tail rest, p.blocks = tail :: rest →
    plan rest = follow tail.entry_speed_sqr tail.stretch (path rest)
  final : ∀ tail rest, p.blocks = tail :: rest → p.planned = 0 ∨
    ∃ k, p.planned = k + 1 ∧ Breaks tail.entry_speed_sqr tail.stretch (path rest) k
  loaded : ∀ tail rest, p.blocks = tail :: rest → p.pl_block → p.current_speed_sqr = tail.entry_speed_sqr

variable {p : Planner} {tail current block : PlanBlock} {rest between old : List PlanBlock}

theorem Settled.feasible (h : p.Settled) (hblocks : p.blocks = tail :: rest) : Feasible (plan (tail :: rest)) := by
  have hpath := sound_path (tail :: rest)
  rw [plan_cons, h.follows tail rest hblocks]
  exact feasible_follow hpath (h.tail_le tail rest hblocks)

theorem Settled.optimal (h : p.Settled) : p.Optimal := by
  cases hblocks : p.blocks with
  | nil =>
    constructor
    · rw [hblocks]
      rfl
    · exact fun ext hnonempty => absurd hblocks hnonempty
  | cons tail rest =>
    have hfollows := h.follows tail rest hblocks
    constructor
    · have hsame : plan (full_plan (tail :: rest)) = plan (tail :: rest) := by
        rw [full_plan_plan, plan_cons, hfollows]
      rw [hblocks, entry_speeds_eq, entry_speeds_eq, hsame]
    · intro ext _
      have hlevels : (plan (full_plan (tail :: (rest ++ ext)))).take (p.planned + 1) =
          (plan (tail :: rest)).take (p.planned + 1) := by
        rw [full_plan_plan, plan_cons, hfollows, List.take_succ_cons, List.take_succ_cons]
        obtain hfirst | ⟨k, hpointer, hbreaks⟩ := h.final tail rest hblocks
        · rw [hfirst]
          rfl
        · have hpath : Sound (tail.stretch :: path rest ++ path ext) := by
            have hsound := sound_path (tail :: rest ++ ext)
            rw [path_append] at hsound
            exact hsound
          rw [hpointer, path_append, hbreaks.follow_append hpath]
      rw [hblocks, entry_speeds_eq, entry_speeds_eq, List.cons_append, ← List.map_take, ← List.map_take, hlevels]

/-- Planned anew from the tail on, the queue is settled. -/
theorem settled_of_tail (tail : PlanBlock) (rest : List PlanBlock) (hblocks : p.blocks = tail :: rest)
    (hplanned : p.planned = 0) (hrest : rest ≠ [])
    (hbraked : Braked rest) (hlevel : tail.entry_speed_sqr ≤ limit (path rest) + tail.reach)
    (hloaded : p.pl_block → p.current_speed_sqr = tail.entry_speed_sqr) : p.planner_recalculate.Settled := by
  have hplan := p.replanned_plan tail hbraked
  have hpath : path (p.replanned tail rest).2 = path rest := by
    rw [← plan_map_fst, hplan, follow_map_fst]
  have hstart : p.start_block tail = tail := by
    unfold start_block
    split_ifs with hpl
    · rw [hloaded hpl.2]
      rfl
    · rfl
  rw [planner_recalculate_eq [] hblocks hplanned hrest, if_pos hplanned, hstart]
  rw [hstart] at hplan
  constructor
  · rintro ⟨⟩
  · rintro _ _ ⟨⟩
    rw [hpath]
    exact hlevel
  · rintro _ _ ⟨⟩
    rw [hpath]
    exact hplan
  · rintro _ _ ⟨⟩
    have hmoved := p.replanned_planned tail hbraked
    rw [hplanned, hstart] at hmoved
    rw [hpath]
    obtain hstay | ⟨k, hmoved, hbreaks⟩ := hmoved
    · exact .inl hstay
    · refine .inr ⟨k, ?_, hbreaks⟩
      dsimp only
      omega
  · intro _ _ _ hpl
    rw [show _ = false from p.update_pl_block] at hpl
    cases hpl

/-- Planned anew from a place where the plan was final, the queue is settled. -/
theorem settled_of_middle (h : p.Settled) (hblocks : p.blocks = tail :: (between ++ current :: old))
    (hplanned : p.planned = between.length + 1) (block : PlanBlock) (speed : ℚ) :
    (planner_recalculate
      { p with previous_nominal_speed := speed, blocks := p.blocks ++ [block] }).Settled := by
  have hfeasible := h.feasible hblocks
  have hfollows := h.follows tail _ hblocks
  have hsuffix : Feasible (plan (current :: old)) := by
    rw [← List.cons_append, plan_append] at hfeasible
    exact hfeasible.suffix
  have hbraked : Braked (old ++ [block]) := braked_append hsuffix.tail trivial
  obtain ⟨k, hk, hbreaks⟩ : ∃ k, p.planned = k + 1 ∧
      Breaks tail.entry_speed_sqr tail.stretch (path (between ++ current :: old)) k := by
    obtain hfirst | hfinal := h.final tail _ hblocks
    · omega
    · exact hfinal
  obtain rfl : k = between.length := by omega
  have hsound : Sound (tail.stretch :: path (between ++ current :: old) ++ path [block]) := by
    have hall := sound_path (tail :: (between ++ current :: old) ++ [block])
    rw [path_append] at hall
    exact hall
  have hlength : (plan between).length = between.length := List.length_map _
  -- what was planned up to the planned pointer stays, and the rest is followed on from there
  have hprefix : (follow tail.entry_speed_sqr tail.stretch
      (path (between ++ current :: old) ++ path [block])).take ((plan between).length + 1) =
        plan between ++ [(current.stretch, current.entry_speed_sqr)] := by
    rw [hlength, hbreaks.follow_append hsound, ← hfollows, plan_append, plan_cons, ← hlength,
      List.take_length_add_append]
    rfl
  have hdrop : (path (between ++ current :: old) ++ path [block]).drop ((plan between).length + 1) =
      path (old ++ [block]) := by
    have hsteps : (plan between).length = (path between).length := by
      rw [← plan_map_fst, List.length_map]
    rw [hsteps, path_append, path_append, path_cons, List.append_assoc, List.drop_length_add_append]
    rfl
  generalize hq : ({ p with previous_nominal_speed := speed, blocks := p.blocks ++ [block] } : Planner) = q
  have hqblocks : q.blocks = tail :: between ++ current :: (old ++ [block]) := by
    rw [← hq]
    simp [hblocks]
  have hqplanned : q.planned = between.length + 1 := by
    rw [← hq]
    exact hplanned
  have hstart : q.start_block current = current := if_neg fun hfirst => by omega
  have hplan := q.replanned_plan current hbraked
  have hmoved := q.replanned_planned current hbraked
  have hnew : plan (between ++ current :: (q.replanned current (old ++ [block])).2) =
      follow tail.entry_speed_sqr tail.stretch (path (between ++ current :: old) ++ path [block]) := by
    rw [follow_resume hprefix, hdrop, plan_append, plan_cons, hplan, hstart]
  have hpath : path (between ++ current :: (q.replanned current (old ++ [block])).2) =
      path (between ++ current :: old) ++ path [block] := by
    rw [← plan_map_fst, hnew, follow_map_fst]
  rw [planner_recalculate_eq (tail :: between) hqblocks hqplanned
    (List.append_ne_nil_of_right_ne_nil _ (List.cons_ne_nil _ _)), if_neg (by omega), hstart]
  constructor
  · rintro ⟨⟩
  · rintro _ _ ⟨⟩
    change _ ≤ limit (path (between ++ current :: _)) + _
    rw [hpath, ← path_append]
    exact level_le_append hfeasible [block]
  · rintro _ _ ⟨⟩
    change plan (between ++ current :: _) = follow _ _ (path (between ++ current :: _))
    rw [hpath, hnew]
  · rintro _ _ ⟨⟩
    right
    change ∃ k, _ ∧ Breaks _ _ (path (between ++ current :: _)) k
    rw [hpath]
    obtain hstay | ⟨k, hmoved, hbreaks'⟩ := hmoved
    · exact ⟨between.length, hstay.trans hqplanned, hbreaks.append hsound⟩
    · refine ⟨between.length + 1 + k, ?_, ?_⟩
      · dsimp only
        omega
      · rw [← hlength]
        rw [hstart, ← hdrop] at hbreaks'
        exact Breaks.resume hprefix hbreaks'
  · rintro _ _ ⟨⟩ hpl
    rw [← hq] at hpl ⊢
    exact h.loaded _ _ hblocks hpl

theorem settled_append (h : p.Settled) {block : PlanBlock} (hentry : block.entry_speed_sqr = 0) (speed : ℚ) :
    (planner_recalculate
      { p with previous_nominal_speed := speed, blocks := p.blocks ++ [block] }).Settled := by
  cases hblocks : p.blocks with
  | nil =>
    obtain ⟨hidle, hfirst⟩ := h.idle hblocks
    have hunloaded : p.pl_block = false := (Bool.or_eq_false_iff.mp hidle).1
    rw [planner_recalculate_short (Nat.le_add_left 1 _)]
    constructor
    · rintro ⟨⟩
    · rintro _ _ ⟨⟩
      rw [hentry]
      exact add_nonneg le_rfl block.reach_nonneg
    · rintro _ _ ⟨⟩
      rfl
    · exact fun _ _ _ => .inl hfirst
    · intro _ _ _ hpl
      rw [show _ = false from hunloaded] at hpl
      cases hpl
  | cons tail rest =>
    have hfeasible := h.feasible hblocks
    cases hpointer : p.planned with
    | zero =>
      apply settled_of_tail tail (rest ++ [block])
      · rfl
      · rfl
      · exact List.append_ne_nil_of_right_ne_nil _ (List.cons_ne_nil _ _)
      · exact braked_append hfeasible.tail trivial
      · exact level_le_append hfeasible [block]
      · exact h.loaded tail rest hblocks
    | succ n =>
      obtain hfirst | ⟨k, hk, hbreaks⟩ := h.final tail rest hblocks
      · omega
      have hn : n < rest.length := by
        have hplace : k < (path rest).length := hbreaks.lt_length
        unfold path at hplace
        rw [List.length_map] at hplace
        omega
      obtain ⟨between, current, old, rfl, rfl⟩ : ∃ between current old,
          rest = between ++ current :: old ∧ between.length = n :=
        ⟨rest.take n, rest[n], rest.drop (n + 1), by simp, by simp; omega⟩
      have hsettled := settled_of_middle h hblocks hpointer block speed
      rw [hblocks, hpointer] at hsettled
      exact hsettled

theorem settled_discard (h : p.Settled) : p.plan_discard_current_block.Settled := by
  unfold plan_discard_current_block
  cases hblocks : p.blocks with
  | nil => exact h
  | cons tail rest =>
    have hfeasible := h.feasible hblocks
    have hfollows := h.follows tail rest hblocks
    have hfinal := h.final tail rest hblocks
    constructor
    · rintro hempty
      change rest = [] at hempty
      subst hempty
      obtain hfirst | ⟨k, _, hbreaks⟩ := hfinal
      · exact ⟨rfl, if_pos hfirst⟩
      · exact absurd hbreaks id
    · intro next behind hrest
      change rest = next :: behind at hrest
      subst hrest
      have hlevel := level_le_append hfeasible.tail []
      rw [List.append_nil] at hlevel
      exact hlevel
    · intro next behind hrest
      change rest = next :: behind at hrest
      subst hrest
      rw [plan_cons, path_cons, follow_cons] at hfollows
      obtain ⟨hnext, hbehind⟩ := List.cons.inj hfollows
      rw [(Prod.mk.inj hnext).2]
      exact hbehind
    · intro next behind hrest
      change rest = next :: behind at hrest
      subst hrest
      obtain hfirst | ⟨k, hpointer, hbreaks⟩ := hfinal
      · exact .inl (if_pos hfirst)
      · have hmoved : (if p.planned = 0 then 0 else p.planned - 1) = k := by
          rw [hpointer]
          rfl
        cases k with
        | zero => exact .inl hmoved
        | succ k =>
          rw [plan_cons, path_cons, follow_cons] at hfollows
          refine .inr ⟨k, hmoved, ?_⟩
          rw [(Prod.mk.inj (List.cons.inj hfollows).1).2]
          exact hbreaks
    · rintro _ _ _ ⟨⟩

theorem settled_step (h : p.Settled) {e : PlannerEvent} (hstreaming : p.Streaming e) : (p.step e).Settled := by
  cases e with
  | append line =>
    unfold step plan_buffer_line
    dsimp only
    split_ifs
    · exact h
    · exact h
    · exact h
    · exact h
    · exact settled_append h rfl _
  | discard => exact settled_discard h
  | override f_override r_override => cases hstreaming
  | cycle_reinit => cases hstreaming
  | prep prep =>
    obtain ⟨exit_speed_sqr, millimeters, speed_sqr, hnonneg⟩ := prep
    obtain ⟨hload, hkeeps⟩ := hstreaming
    dsimp only at hload hkeeps
    subst hload
    unfold step prep_buffer
    cases hblocks : p.blocks with
    | nil => exact h
    | cons tail rest =>
      obtain ⟨rfl, rfl⟩ := hkeeps tail (by rw [hblocks]; rfl)
      have hsame : (if ¬ p.executing then tail.entered ((none : Option ℚ).getD tail.entry_speed_sqr) else tail) =
          tail := by
        split_ifs <;> rfl
      dsimp only
      rw [hsame]
      constructor
      · rintro ⟨⟩
      · rintro _ _ ⟨⟩
        exact h.tail_le tail rest hblocks
      · rintro _ _ ⟨⟩
        exact h.follows tail rest hblocks
      · rintro _ _ ⟨⟩
        exact h.final tail rest hblocks
      · rintro _ _ ⟨⟩ _
        rfl

/-- Incremental planning is full planning, whatever blocks come and go. -/
theorem incremental_planning_is_optimal (planner_blocks : Nat) (events : List PlannerEvent)
    (hstreaming : Transition.Throughout step Streaming { planner_blocks := planner_blocks } events) :
    Transition.Always step Optimal { planner_blocks := planner_blocks } events := by
  have hinit : Settled { planner_blocks := planner_blocks } := by
    constructor
    · exact fun _ => ⟨rfl, rfl⟩
    · rintro _ _ ⟨⟩
    · rintro _ _ ⟨⟩
    · rintro _ _ ⟨⟩
    · rintro _ _ ⟨⟩
  have halways := Transition.always_of_invariant (I := Settled) (fun p e hp he => settled_step hp he)
    hinit hstreaming
  exact halways.mono fun _ => Settled.optimal

theorem three_lines_planned_optimally :
    Transition.Always step Optimal { planner_blocks := 16 }
      [.append (.of true 50 1000 .straight (by decide)), .append (.of true 50 10 (.corner 100) (by decide)),
        .prep ⟨none, 1000, 0, by decide⟩, .append (.of false 50 1000 .straight (by decide)), .discard] := by
  apply incremental_planning_is_optimal
  decide

end Planner

end DuneWeaver
