import DuneWeaver.Planner.Block

open Stretch

namespace DuneWeaver

/-- The stretch of the path that a block is. -/
def PlanBlock.stretch (block : PlanBlock) : Stretch ℚ := ⟨block.max_entry_speed_sqr, block.reach⟩

def path (blocks : List PlanBlock) : List (Stretch ℚ) := blocks.map PlanBlock.stretch

/-- The plan the entry speeds of the blocks amount to. -/
def plan (blocks : List PlanBlock) : Plan ℚ := blocks.map fun block => (block.stretch, block.entry_speed_sqr)

/-- A block that the reverse pass passes over can be slowed down as much as the blocks
behind it ask for. -/
def Braked : List PlanBlock → Prop
  | [] => True
  | [_] => True
  | current :: next :: rest =>
    (current.entry_speed_sqr = current.max_entry_speed_sqr →
      current.entry_speed_sqr ≤ limit (path (next :: rest)) + current.reach) ∧ Braked (next :: rest)

instance decidableBraked : (blocks : List PlanBlock) → Decidable (Braked blocks)
  | [] => .isTrue trivial
  | [_] => .isTrue trivial
  | current :: next :: rest =>
    have := decidableBraked (next :: rest)
    inferInstanceAs (Decidable ((current.entry_speed_sqr = current.max_entry_speed_sqr →
      current.entry_speed_sqr ≤ limit (path (next :: rest)) + current.reach) ∧ _))

@[simp] theorem path_nil : path [] = [] := rfl

@[simp] theorem path_cons (block : PlanBlock) (rest : List PlanBlock) :
    path (block :: rest) = block.stretch :: path rest := rfl

@[simp] theorem path_append (blocks ext : List PlanBlock) : path (blocks ++ ext) = path blocks ++ path ext :=
  List.map_append

@[simp] theorem plan_nil : plan [] = [] := rfl

@[simp] theorem plan_cons (block : PlanBlock) (rest : List PlanBlock) :
    plan (block :: rest) = (block.stretch, block.entry_speed_sqr) :: plan rest := rfl

@[simp] theorem plan_append (blocks ext : List PlanBlock) : plan (blocks ++ ext) = plan blocks ++ plan ext :=
  List.map_append

@[simp] theorem plan_map_fst (blocks : List PlanBlock) : (plan blocks).map Prod.fst = path blocks := by
  unfold plan path
  rw [List.map_map]
  rfl

@[simp] theorem PlanBlock.entered_stretch (block : PlanBlock) (v : ℚ) :
    (block.entered v).stretch = block.stretch := rfl

theorem sound_path (blocks : List PlanBlock) : Sound (path blocks) := by
  intro s hs
  obtain ⟨block, _, rfl⟩ := List.mem_map.mp hs
  exact ⟨block.max_entry_nonneg, block.reach_nonneg⟩

/-- What a block was planned to slow down to stays open when blocks come after it. -/
theorem level_le_append {current : PlanBlock} {rest : List PlanBlock} (h : Feasible (plan (current :: rest)))
    (ext : List PlanBlock) : current.entry_speed_sqr ≤ limit (path (rest ++ ext)) + current.reach := by
  have hbefore : current.entry_speed_sqr ≤ limit ((plan rest).map Prod.fst) + current.reach := h.level_le
  rw [plan_map_fst] at hbefore
  have hgrows : limit (path rest) ≤ limit (path rest ++ path ext) :=
    limit_le_append _ ((path_append rest ext) ▸ sound_path (rest ++ ext))
  rw [path_append]
  exact hbefore.trans (add_le_add hgrows le_rfl)

/-- A feasible plan stays braked when blocks come after it. -/
theorem braked_append {blocks ext : List PlanBlock} (h : Feasible (plan blocks)) (hext : Braked ext) :
    Braked (blocks ++ ext) := by
  induction blocks with
  | nil => exact hext
  | cons current rest ih =>
    have hbraked : Braked (rest ++ ext) := ih h.tail
    have hlevel := level_le_append h ext
    rw [List.cons_append]
    generalize rest ++ ext = behind at hbraked hlevel
    cases behind with
    | nil => trivial
    | cons next behind => exact ⟨fun _ => hlevel, hbraked⟩

theorem exit_speed_of_limited {blocks : List PlanBlock} {segments : List (Stretch ℚ)}
    (h : plan blocks = limited segments) : exit_speed_sqr blocks = limit segments := by
  cases blocks with
  | nil =>
    cases segments with
    | nil => rfl
    | cons s rest => cases h
  | cons block rest =>
    cases segments with
    | nil => cases h
    | cons s segments => exact congrArg Prod.snd (List.cons.inj h).1

/-- The reverse pass finds the limits. -/
theorem reverse_pass_plan {blocks : List PlanBlock} (h : Braked blocks) :
    plan (reverse_pass blocks) = limited (path blocks) := by
  induction blocks with
  | nil => rfl
  | cons current rest ih =>
    cases rest with
    | nil =>
      have hlast : limit (path [current]) = min current.max_entry_speed_sqr current.reach := by
        change min current.max_entry_speed_sqr (0 + current.reach) = _
        rw [zero_add]
      change [(current.stretch, min current.max_entry_speed_sqr current.reach)] =
        [(current.stretch, limit (path [current]))]
      rw [hlast]
    | cons next rest =>
      obtain ⟨hkept, hrest⟩ := h
      have hplanned := ih hrest
      have hexit := exit_speed_of_limited hplanned
      have hlimit : limit (current.stretch :: path (next :: rest)) =
          min current.max_entry_speed_sqr (limit (path (next :: rest)) + current.reach) := rfl
      unfold reverse_pass
      dsimp only
      rw [hexit, path_cons current, limited_cons, hlimit, ← hplanned]
      split_ifs with hmax hless
      · rw [plan_cons, min_eq_right hless.le]
        rfl
      · rw [plan_cons, min_eq_left (not_lt.mp hless)]
        rfl
      · have hentry := not_not.mp hmax
        rw [plan_cons, min_eq_left (hentry ▸ hkept hentry), hentry]

/-- What the forward pass makes of the next block, `next`, behind `current`. -/
theorem forward_entry (current next : PlanBlock) :
    let entry_speed_sqr := current.entry_speed_sqr + current.reach
    let full := current.entry_speed_sqr < next.entry_speed_sqr ∧ entry_speed_sqr < next.entry_speed_sqr
    (full ↔ entry_speed_sqr < next.entry_speed_sqr) ∧
      (if full then next.entered entry_speed_sqr else next) =
        next.entered (min next.entry_speed_sqr entry_speed_sqr) := by
  intro entry_speed_sqr full
  have hreach : current.entry_speed_sqr ≤ entry_speed_sqr := le_add_of_nonneg_right current.reach_nonneg
  have hfull : full ↔ entry_speed_sqr < next.entry_speed_sqr :=
    ⟨And.right, fun hless => ⟨hreach.trans_lt hless, hless⟩⟩
  refine ⟨hfull, ?_⟩
  split_ifs with h
  · rw [min_eq_right (hfull.mp h).le]
  · rw [min_eq_left (not_lt.mp fun hless => h (hfull.mpr hless))]
    rfl

/-- The forward pass makes the plan that follows the limits. -/
theorem forward_pass_plan {blocks : List PlanBlock} {segments : List (Stretch ℚ)}
    (h : plan blocks = limited segments) (current : PlanBlock) (block_index planned : Nat) :
    plan (forward_pass current block_index planned blocks).2 =
      follow current.entry_speed_sqr current.stretch segments := by
  induction blocks generalizing segments current block_index planned with
  | nil =>
    cases segments with
    | nil => rfl
    | cons s rest => cases h
  | cons next rest ih =>
    cases segments with
    | nil => cases h
    | cons s segments =>
      obtain ⟨hnext, hrest⟩ := List.cons.inj h
      obtain ⟨rfl, hentry⟩ := Prod.ext_iff.mp hnext
      unfold forward_pass
      dsimp only
      rw [(forward_entry current next).2, plan_cons, ih hrest, follow_cons]
      change next.entry_speed_sqr = _ at hentry
      rw [PlanBlock.entered_entry, PlanBlock.entered_stretch, hentry]
      rfl

/-- The planned pointer stays or goes to a place where the plan is final. -/
theorem forward_pass_planned {blocks : List PlanBlock} {segments : List (Stretch ℚ)}
    (h : plan blocks = limited segments) (current : PlanBlock) (block_index planned : Nat) :
    (forward_pass current block_index planned blocks).1 = planned ∨
      ∃ k, (forward_pass current block_index planned blocks).1 = block_index + k ∧
        Breaks current.entry_speed_sqr current.stretch segments k := by
  induction blocks generalizing segments current block_index planned with
  | nil => exact .inl rfl
  | cons next rest ih =>
    cases segments with
    | nil => cases h
    | cons s segments =>
      obtain ⟨hnext, hrest⟩ := List.cons.inj h
      obtain ⟨rfl, hentry⟩ := Prod.ext_iff.mp hnext
      change next.entry_speed_sqr = _ at hentry
      obtain ⟨hfull, hlevel⟩ := forward_entry current next
      unfold forward_pass
      dsimp only at hfull hlevel ⊢
      rw [hlevel]
      have hw : min next.entry_speed_sqr (current.entry_speed_sqr + current.reach) =
          min (limit (next.stretch :: segments)) (current.entry_speed_sqr + current.stretch.gain) := by
        rw [hentry]
        rfl
      generalize hplanned' : (if (next.entered _).entry_speed_sqr = _ then block_index else _) = planned'
      have hhere : planned' = planned ∨ planned' = block_index ∧
          Breaks current.entry_speed_sqr current.stretch (next.stretch :: segments) 0 := by
        rw [← hplanned']
        split_ifs with hmax hless
        · exact .inr ⟨rfl, .inr (hw ▸ hmax)⟩
        · have hshort := hfull.mp hless
          rw [hentry] at hshort
          exact .inr ⟨rfl, .inl ((min_le_right _ _).trans_lt hshort)⟩
        · exact .inl rfl
      obtain hstay | ⟨k, hmoved, hbreaks⟩ := ih hrest (next.entered _) (block_index + 1) planned'
      · rw [hstay]
        exact hhere.imp_right fun ⟨hmoved, hbreaks⟩ => ⟨0, hmoved, hbreaks⟩
      · refine .inr ⟨k + 1, ?_, ?_⟩
        · omega
        · rw [PlanBlock.entered_entry, hw] at hbreaks
          exact hbreaks

namespace Planner

variable {p : Planner} {before rest : List PlanBlock} {current : PlanBlock}

/-- The block at the planned pointer when it is time to plan on from it. Only the tail may
have been loaded by the stepper. -/
def start_block (p : Planner) (current : PlanBlock) : PlanBlock :=
  if p.planned = 0 ∧ p.pl_block then current.entered p.current_speed_sqr else current

@[simp] theorem start_block_stretch (p : Planner) (current : PlanBlock) :
    (p.start_block current).stretch = current.stretch := by
  unfold start_block
  split_ifs <;> rfl

/-- The queue behind the block at the planned pointer, planned anew, and where the planned
pointer comes to. -/
def replanned (p : Planner) (current : PlanBlock) (rest : List PlanBlock) : Nat × List PlanBlock :=
  forward_pass (p.start_block current) (p.planned + 1) p.planned (reverse_pass rest)

/-- When the passes have nothing too fast to pass over, the queue follows the limits. -/
theorem replanned_plan (p : Planner) (current : PlanBlock) (h : Braked rest) :
    plan (p.replanned current rest).2 =
      follow (p.start_block current).entry_speed_sqr current.stretch (path rest) := by
  unfold replanned
  rw [forward_pass_plan (reverse_pass_plan h), start_block_stretch]

theorem replanned_planned (p : Planner) (current : PlanBlock) (h : Braked rest) :
    (p.replanned current rest).1 = p.planned ∨
      ∃ k, (p.replanned current rest).1 = p.planned + 1 + k ∧
        Breaks (p.start_block current).entry_speed_sqr current.stretch (path rest) k := by
  have hplanned := forward_pass_planned (reverse_pass_plan h) (p.start_block current) (p.planned + 1) p.planned
  rw [start_block_stretch] at hplanned
  exact hplanned

theorem replanned_length (p : Planner) (current : PlanBlock) (h : Braked rest) :
    (p.replanned current rest).2.length = rest.length := by
  have hfst := congrArg (List.map Prod.fst) (p.replanned_plan current h)
  rw [plan_map_fst, follow_map_fst] at hfst
  have hlength := congrArg List.length hfst
  unfold path at hlength
  rw [List.length_map, List.length_map] at hlength
  exact hlength

/-- The planned pointer stays in the queue. -/
theorem replanned_planned_le (p : Planner) (current : PlanBlock) (h : Braked rest) :
    (p.replanned current rest).1 ≤ p.planned + rest.length := by
  obtain hstay | ⟨k, hmoved, hbreaks⟩ := p.replanned_planned current h
  · omega
  · have hk : k < (path rest).length := hbreaks.lt_length
    unfold path at hk
    rw [List.length_map] at hk
    omega

/-- A loaded block stays the block the stepper is in. -/
@[simp] theorem update_executing (p : Planner) : p.update_plan_block_parameters.executing = p.executing := by
  unfold update_plan_block_parameters executing
  split_ifs with hloaded
  · rw [hloaded]
    rfl
  · rfl

@[simp] theorem update_pl_block (p : Planner) : p.update_plan_block_parameters.pl_block = false := by
  unfold update_plan_block_parameters
  split_ifs with hloaded
  · rfl
  · exact Bool.eq_false_iff.mpr hloaded

@[simp] theorem update_planned (p : Planner) : p.update_plan_block_parameters.planned = p.planned := by
  unfold update_plan_block_parameters enter_tail
  split_ifs
  · cases p.blocks <;> rfl
  · rfl

theorem update_blocks_nil (h : p.blocks = []) : p.update_plan_block_parameters.blocks = [] := by
  unfold update_plan_block_parameters enter_tail
  rw [h]
  split_ifs
  · exact h
  · exact h

/-- The tail gets the speed the stepper has reached, and nothing else changes. -/
theorem update_blocks_cons (h : p.blocks = current :: rest) :
    p.update_plan_block_parameters.blocks =
      (if p.pl_block then current.entered p.current_speed_sqr else current) :: rest := by
  unfold update_plan_block_parameters enter_tail
  rw [h]
  split_ifs
  · rfl
  · exact h

/-- Without a block behind the planned pointer there is nothing to plan. -/
theorem planner_recalculate_short (h : p.blocks.length ≤ p.planned + 1) : p.planner_recalculate = p := by
  unfold planner_recalculate
  rw [List.length_drop, if_pos (by omega)]

/-- Planning leaves alone what is before the planned pointer. -/
theorem planner_recalculate_eq (before : List PlanBlock) (hblocks : p.blocks = before ++ current :: rest)
    (hplanned : p.planned = before.length) (hrest : rest ≠ []) :
    p.planner_recalculate =
      { (if p.planned = 0 then p.update_plan_block_parameters else p) with
        planned := (p.replanned current rest).1
        blocks := before ++ p.start_block current :: (p.replanned current rest).2 } := by
  have hlong : ¬ (p.blocks.drop p.planned).length ≤ 1 := by
    have hpos := List.length_pos_iff.mpr hrest
    rw [hblocks, hplanned, List.drop_left, List.length_cons]
    omega
  have hstart : (if p.planned = 0 then p.update_plan_block_parameters else p).blocks =
      before ++ p.start_block current :: rest := by
    unfold start_block
    split_ifs with htail hloaded hloaded
    · obtain rfl := List.eq_nil_of_length_eq_zero (hplanned.symm.trans htail)
      rw [update_blocks_cons hblocks, if_pos hloaded.2]
      rfl
    · obtain rfl := List.eq_nil_of_length_eq_zero (hplanned.symm.trans htail)
      rw [update_blocks_cons hblocks, if_neg fun hpl => hloaded ⟨htail, hpl⟩]
      rfl
    · exact absurd hloaded.1 htail
    · exact hblocks
  have hkept : (if p.planned = 0 then p.update_plan_block_parameters else p).planned = p.planned := by
    split_ifs
    · exact p.update_planned
    · rfl
  unfold planner_recalculate replanned
  rw [if_neg hlong]
  dsimp only
  rw [hkept, hstart, hplanned, List.drop_left, List.take_left]

end Planner

end DuneWeaver
