import DuneWeaver.Stepper.Slots

open RingIndex

namespace DuneWeaver.StepperRings

variable {s t : StepperRings}

/-- What the two rings owe the interrupt: the slot of every segment in the ring has the data of the
segment's block and is not the one that `prep_buffer` is about to load, segments on either side of
a block change have different slots, and so the interrupt, whose comparison is that of the slots,
loads a block exactly when it is not the one it has. -/
structure Safe (s : StepperRings) : Prop where
  kept : ∀ segment ∈ s.queued, s.st_block_buffer segment.st_block_index = some segment.block
  free : s.fills = true → s.pl_block = none → s.recalculate_flag.recalculate = false →
    ∀ segment ∈ s.queued, segment.st_block_index ≠ s.next_block_index s.st_block_index
  change_slot : s.queued.IsChain fun a b => a.st_block_index = b.st_block_index ↔ a.block = b.block
  reload : ∀ segment, s.exec_segment = none → s.queued.head? = some segment →
    (s.exec_block_index ≠ segment.st_block_index ↔ s.exec_block ≠ some segment.block)
  executing : s.exec_segment ≠ none → ∃ segment, s.queued.head? = some segment ∧
    s.exec_block_index = segment.st_block_index ∧ s.exec_block = some segment.block

/-- A system motion starts with a slot of its own. For homing there is no block in hand. A parking
motion does not get the slot that the interrupt has loaded, and a partial block that it is to save
is in hand. It ends with its last segment prepared, or an empty planner, and if it has saved no block,
with the motion executed. -/
def Orderly (s : StepperRings) : RingsEvent → Prop
  | .homing => s.in_hand = false
  | .moveto => s.next_block_index s.st_block_index ≠ s.exec_block_index ∧
      (s.recalculate_flag.holdPartialBlock = true → s.in_hand = true)
  | .moved _ => (s.endMotion = true ∨ s.planned ≤ s.current) ∧
      (s.recalculate_flag.holdPartialBlock = true ∨ s.in_hand = true ∧ s.exec_block_index = s.st_block_index)
  | _ => True

instance (s : StepperRings) (event : RingsEvent) : Decidable (s.Orderly event) := by
  cases event <;> unfold Orderly <;> infer_instance

theorem Sound.safe (h : s.Sound) : s.Safe where
  kept := h.kept
  free hfills hnone hflag segment hsegment heq := by
    have hfresh : s.Fresh := h.stage.resolve_left fun hheld => by
      have hhand := hheld.in_hand
      simp [in_hand, hnone, hflag] at hhand
    exact h.next_free hfresh hfills (heq ▸ List.mem_map_of_mem hsegment)
  change_slot := by
    have hagree := h.agree.tail
    rw [List.tail_cons, entries, List.isChain_map] at hagree
    exact hagree.imp fun a b hab => hab.trans Option.some_inj
  reload segment _ hhead := by
    have hagree := h.agree
    obtain ⟨rest, hqueued⟩ := List.head?_eq_some_iff.mp hhead
    rw [entries, hqueued, List.map_cons, List.isChain_cons_cons] at hagree
    exact not_congr hagree.1
  executing hbusy := by
    obtain ⟨segment, hhead, hexecuted⟩ := h.executing hbusy
    exact ⟨segment, hhead, congrArg Prod.fst hexecuted, congrArg Prod.snd hexecuted⟩

section Events

theorem queried_block_of (h : s.executeSysMotion = true ∨ s.current < s.planned) : s.queried_block = some s.target := by
  unfold queried_block target
  by_cases hsys : s.executeSysMotion = true
  · rw [if_pos hsys, if_pos hsys]
  · rw [if_neg hsys, if_neg hsys, if_pos (h.resolve_left hsys)]

/-- There is nothing left in the ring, and nothing of it in the interrupt's hands. -/
theorem at_rest_iff : s.at_rest = true ↔ s.segment_buffer_head = s.segment_buffer_tail ∧ s.exec_segment = none := by
  simp [at_rest]

theorem queued_at_rest (h : s.at_rest = true) : s.queued = [] := by
  rw [queued, (at_rest_iff.mp h).1, contents_self]

theorem newest_at_rest (h : s.at_rest = true) : s.newest = s.executed := by
  rw [newest, entries, queued_at_rest h]
  rfl

theorem Sound.update (h : s.Sound) : s.update_plan_block_parameters.Sound := by
  unfold update_plan_block_parameters
  split
  case isFalse => exact h
  case isTrue hblock =>
    have hheld : s.Held := h.stage.resolve_right fun hfresh => hblock hfresh.hand.1
    refine h.same_ring ⟨rfl, rfl, rfl, rfl, rfl, rfl, rfl⟩ h.slot_lt (fun _ _ => rfl) le_rfl
      (.inl ⟨.inr ⟨rfl, rfl⟩, hheld.queried, hheld.data, hheld.agrees, hheld.near⟩)
      (h.still_parked rfl rfl rfl (fun _ => id) fun hsaved => ?_)
    exact ⟨hsaved.current_lt, hsaved.slot_lt, hsaved.data, hsaved.agrees,
      hsaved.slot_ne_iff.trans (iff_of_true hheld.in_hand rfl)⟩

theorem Sound.control (h : s.Sound) (executeHold endMotion : Bool) : { s with executeHold, endMotion }.Sound := by
  refine h.same_ring ⟨rfl, rfl, rfl, rfl, rfl, rfl, rfl⟩ h.slot_lt (fun _ _ => rfl) le_rfl ?_
    (h.still_parked rfl rfl rfl (fun _ => id) fun hsaved =>
      ⟨hsaved.current_lt, hsaved.slot_lt, hsaved.data, hsaved.agrees, hsaved.slot_ne_iff⟩)
  rcases h.stage with hheld | hfresh
  · exact .inl ⟨hheld.hand, hheld.queried, hheld.data, hheld.agrees, hheld.near⟩
  · exact .inr ⟨hfresh.hand, hfresh.slot, hfresh.slot_ne, hfresh.block_ne⟩

theorem Sound.plan_line (h : s.Sound) : { s with planned := s.planned + 1 }.Sound := by
  refine h.same_ring ⟨rfl, rfl, rfl, rfl, rfl, rfl, rfl⟩ h.slot_lt (fun _ _ => rfl) le_rfl ?_
    (h.still_parked rfl rfl rfl (fun _ => id) fun hsaved =>
      ⟨Nat.lt_succ_of_lt hsaved.current_lt, hsaved.slot_lt, hsaved.data, hsaved.agrees, hsaved.slot_ne_iff⟩)
  rcases h.stage with hheld | hfresh
  · refine .inl ⟨hheld.hand, queried_block_of ?_, hheld.data, hheld.agrees, hheld.near⟩
    have hqueried := hheld.queried
    unfold queried_block at hqueried
    split_ifs at hqueried with hsys hmore
    · exact .inl hsys
    · exact .inr (Nat.lt_succ_of_lt hmore)
  · exact .inr ⟨hfresh.hand, hfresh.slot, hfresh.slot_ne, hfresh.block_ne⟩

/-- Without a segment there is little to be said of the rings. -/
theorem sound_of_empty (hsegments : 6 ≤ s.segments) (htail : s.segment_buffer_tail = 0)
    (hhead : s.segment_buffer_head = 0) (hnext : s.segment_next_head = 1) (hslot : s.st_block_index = 0)
    (hexec : s.exec_segment = none) (hexecuted : s.executed = (0, none)) (hhand : s.in_hand = false)
    (hmoving : s.moving = false) : s.Sound := by
  have hqueued : s.queued = [] := by rw [queued, htail, hhead, contents_self]
  have hentries : s.entries = [] := by rw [entries, hqueued]; rfl
  have hslots : s.slots = [] := by rw [slots, hqueued]; rfl
  have hnewest : s.newest = (0, none) := by rw [newest, hentries, hexecuted]; rfl
  have hfresh : s.Fresh := by
    refine ⟨?_, .inl hqueued, ?_, ?_⟩
    · simpa [in_hand] using hhand
    · rw [hnewest, hslot]
      exact (next_ne (by omega)).symm
    · rw [hnewest]
      simp
  refine
    { segments_ge := hsegments
      tail_lt := by omega
      head_lt := by omega
      next_head_eq := by rw [hnext, hhead, next, if_neg (by omega)]
      slot_lt := by omega
      slots_lt := by simp [hslots]
      follow := by simp [hslots]
      agree := by simp [hentries]
      kept := by simp [hqueued]
      dated := by simp [hnewest]
      executing := fun hbusy => absurd hexec hbusy
      stage := .inr hfresh
      parked := fun h => ?_ }
  rw [hmoving] at h
  cases h

theorem Sound.reset (h : s.Sound) (flush : Bool) : (s.reset flush).Sound :=
  sound_of_empty h.segments_ge rfl rfl rfl rfl rfl rfl rfl rfl

theorem start_sound {segments : Nat} (h : 6 ≤ segments) (segment_buffer : Nat → BlockSegment)
    (st_block_buffer : Nat → Option PlannedBlock) : (start segments segment_buffer st_block_buffer).Sound :=
  sound_of_empty h rfl rfl rfl rfl rfl rfl rfl rfl

theorem Sound.new_system (h : s.Sound) : s.newest.2 ≠ some (.system (s.system_motions + 1)) := by
  intro heq
  exact absurd (h.dated _ heq) (by omega)

theorem Sound.homing (h : s.Sound) (hmoving : s.moving = false) (horderly : s.Orderly .homing) :
    (s.step .homing).Sound := by
  have hfresh : s.Fresh := h.stage.resolve_left fun hheld => by
    have hhand := hheld.in_hand
    rw [show s.in_hand = false from horderly] at hhand
    cases hhand
  rw [step, if_neg (by rw [hmoving]; exact Bool.false_ne_true)]
  refine h.same_ring ⟨rfl, rfl, rfl, rfl, rfl, rfl, rfl⟩ h.slot_lt (fun _ _ => rfl) (Nat.le_succ _)
    (.inr ⟨hfresh.hand, hfresh.slot, hfresh.slot_ne, h.new_system⟩) fun hstill => ?_
  exact absurd (hmoving.symm.trans hstill) Bool.false_ne_true

/-- At rest the block in hand is one of the queue, unless a system motion is under way. -/
theorem Held.current_lt (hheld : s.Held) (hsys : ¬s.executeSysMotion = true) : s.current < s.planned := by
  have hqueried := hheld.queried
  unfold queried_block at hqueried
  rw [if_neg hsys] at hqueried
  by_contra hnone
  rw [if_neg hnone] at hqueried
  cases hqueried

theorem Sound.moveto (h : s.Sound) (hsys : ¬s.executeSysMotion = true) (hrest : s.at_rest = true)
    (horderly : s.Orderly .moveto) :
    { s with
      system_motions := s.system_motions + 1, executeSysMotion := true, endMotion := false
      moving := true }.parking_setup_buffer.Sound := by
  obtain ⟨hslot, hpartial⟩ := horderly
  have hempty := queued_at_rest hrest
  have hnewest := newest_at_rest hrest
  have hslot_ne : s.newest.1 ≠ s.next_block_index s.st_block_index := by
    rw [hnewest]
    exact hslot.symm
  unfold parking_setup_buffer
  dsimp only
  split
  case isTrue hflag =>
    have hheld : s.Held := h.stage.resolve_right fun hfresh => by
      have hhand := hpartial hflag
      rw [hfresh.in_hand] at hhand
      cases hhand
    have htarget : s.target = .queued s.current := by rw [target, if_neg hsys]
    refine h.same_ring ⟨rfl, rfl, rfl, rfl, rfl, rfl, rfl⟩ h.slot_lt (fun _ _ => rfl) (Nat.le_succ _)
      (.inr ⟨⟨rfl, rfl⟩, .inl hempty, hslot_ne, h.new_system⟩) fun _ => ⟨rfl, rfl, fun _ => ?_⟩
    refine ⟨hheld.current_lt hsys, h.slot_lt, ?_, ?_, ?_⟩
    · rw [← htarget]
      exact hheld.data
    · intro p hp
      have hagrees := hheld.agrees
      rw [hnewest, htarget] at hagrees
      change p ∈ s.executed :: s.entries at hp
      rw [entries, hempty, List.map_nil, List.mem_singleton] at hp
      rw [hp]
      exact hagrees
    · exact iff_of_false (fun hne => hne rfl) Bool.false_ne_true
  case isFalse hflag =>
    refine h.same_ring ⟨rfl, rfl, rfl, rfl, rfl, rfl, rfl⟩ h.slot_lt (fun _ _ => rfl) (Nat.le_succ _)
      (.inr ⟨⟨rfl, rfl⟩, .inl hempty, hslot_ne, h.new_system⟩) fun _ => ⟨rfl, rfl, fun hset => ?_⟩
    exact absurd hset hflag

theorem cycle_stop_eq (s : StepperRings) : s.cycle_stop =
    { s with
      recalculate_flag := { s.recalculate_flag with recalculate := s.in_hand }
      pl_block := none, executeHold := false, executeSysMotion := false } := by
  unfold cycle_stop update_plan_block_parameters in_hand
  dsimp only
  split
  case isTrue hblock =>
    rw [Option.isSome_iff_ne_none.mpr hblock, Bool.true_or]
  case isFalse hnone =>
    rw [not_not.mp hnone, Option.isSome_none, Bool.false_or]

/-- The `prep_buffer` between the cycle stop and the end of `Parking::moveto` prepares nothing. -/
theorem cycle_stop_prep (h : s.endMotion = true ∨ s.planned ≤ s.current) (cuts : List SegmentCut) :
    s.cycle_stop.prep_buffer cuts = s.cycle_stop := by
  rw [cycle_stop_eq]
  cases cuts with
  | nil => rfl
  | cons cut cuts =>
    rw [prep_buffer]
    dsimp only
    rw [if_pos rfl]
    split
    case isTrue => rfl
    case isFalse hgoes =>
      have hempty : ¬s.current < s.planned := by
        rcases h with h | h
        · exact absurd (.inl h) hgoes
        · exact Nat.not_lt.mpr h
      have hload : ∀ t : StepperRings, t.queried_block = none → t.load_block = t := by
        intro t hquery
        rw [load_block, hquery]
      rw [hload _ (by simp [queried_block, hempty]), if_pos rfl]

theorem Sound.moved (h : s.Sound) (hmoving : s.moving = true) (hrest : s.at_rest = true) {cuts : List SegmentCut}
    (horderly : s.Orderly (.moved cuts)) :
    { (s.cycle_stop.prep_buffer cuts).parking_restore_buffer with moving := false }.Sound := by
  obtain ⟨hprepared, hdone⟩ := horderly
  have hempty := queued_at_rest hrest
  have hnewest := newest_at_rest hrest
  obtain ⟨hsys, -, hsaved⟩ := h.parked hmoving
  rw [cycle_stop_prep hprepared, cycle_stop_eq]
  unfold parking_restore_buffer
  dsimp only
  split
  case isTrue hflag =>
    obtain ⟨hcurrent, hslot, hdata, hagrees, -⟩ := hsaved hflag
    refine h.same_ring ⟨rfl, rfl, rfl, rfl, rfl, rfl, rfl⟩ hslot (fun _ _ => rfl) le_rfl
      (.inl ⟨.inr ⟨rfl, rfl⟩, queried_block_of (.inr hcurrent), hdata, ?_, .inl hempty⟩) (by simp)
    change Agree s.newest _
    rw [hnewest]
    exact hagrees _ List.mem_cons_self
  case isFalse hflag =>
    obtain ⟨hhand, hslot⟩ := hdone.resolve_left hflag
    have hheld : s.Held := h.stage.resolve_right fun hfresh => by
      rw [hfresh.in_hand] at hhand
      cases hhand
    have htarget : s.target = .system s.system_motions := by rw [target, if_pos hsys]
    -- the motion has been executed: what the interrupt has loaded is the motion
    have hblock : s.newest.2 = some (.system s.system_motions) := by
      rw [← htarget]
      apply hheld.agrees.mp
      rw [hnewest]
      exact hslot
    refine h.same_ring ⟨rfl, rfl, rfl, rfl, rfl, rfl, rfl⟩ h.slot_lt (fun _ _ => rfl) le_rfl
      (.inr ⟨⟨rfl, rfl⟩, .inl hempty, ?_, ?_⟩) (by simp)
    · change s.newest.1 ≠ s.next_block_index s.st_block_index
      rw [hnewest]
      change s.exec_block_index ≠ _
      rw [hslot]
      exact (next_block_index_ne h _).symm
    · change s.newest.2 ≠ some (.queued s.current)
      rw [hblock]
      simp

theorem Sound.step (h : s.Sound) {event : RingsEvent} (horderly : s.Orderly event) : (s.step event).Sound := by
  cases event with
  | pulse => exact h.pulse_func
  | load =>
    rw [StepperRings.step]
    split
    case isTrue hload => exact h.load_block hload.1 hload.2
    case isFalse => exact h
  | cut cut =>
    rw [StepperRings.step]
    split
    case isTrue hfills => exact h.prep_segment hfills cut
    case isFalse => exact h
  | update => exact h.update
  | control executeHold endMotion => exact h.control executeHold endMotion
  | plan_line => exact h.plan_line
  | reset flush => exact h.reset flush
  | homing =>
    cases hmoving : s.moving with
    | false => exact h.homing hmoving horderly
    | true =>
      rw [StepperRings.step, if_pos hmoving]
      exact h
  | moveto =>
    rw [StepperRings.step]
    split
    case isTrue => exact h
    case isFalse hidle =>
      obtain ⟨-, hsys, hrest⟩ := not_or.mp hidle |>.imp_right not_or.mp
      exact h.moveto hsys (not_not.mp hrest) horderly
  | moved cuts =>
    rw [StepperRings.step]
    split
    case isTrue hend => exact h.moved hend.1 hend.2 horderly
    case isFalse => exact h

end Events

/-- However `prep_buffer`, the interrupt, holds, resets and system motions come in between each other,
when the system motions start and end in order, no slot is loaded while a segment in the ring refers
to it, consecutive blocks have different slots, and the interrupt loads a block exactly when it changes. -/
theorem rings_are_safe (segments : Nat) (segment_buffer : Nat → BlockSegment)
    (st_block_buffer : Nat → Option PlannedBlock) (events : List RingsEvent) (hsegments : 6 ≤ segments)
    (horderly : Transition.Throughout step Orderly (start segments segment_buffer st_block_buffer) events) :
    Transition.Always step Safe (start segments segment_buffer st_block_buffer) events := by
  have hsound := start_sound hsegments segment_buffer st_block_buffer
  have hrun := Transition.always_of_invariant (fun s event hs hs' => hs.step hs') hsound horderly
  exact hrun.mono fun s hs => hs.safe

/-- A segment of one step. -/
def one_step (reaches : SegmentEnd) : SegmentCut := { n_step := 1, level := 0, reaches }

/-- A hold inside the first of two lines, up to the cycle stop. -/
def held_line : List RingsEvent :=
  [.plan_line, .plan_line, .load, .cut (one_step .short), .update, .control true false, .pulse, .load,
    .cut (one_step .forced), .pulse, .update, .control false true]

/-- A parking motion of two segments. -/
def parking_motion : List RingsEvent :=
  [.moveto, .load, .cut (one_step .short), .cut (one_step .block_end), .pulse, .pulse, .moved [one_step .short]]

/-- One parking motion, and on with the lines. -/
theorem rings_are_safe_parked :
    6 ≤ 6 ∧ Transition.Always step Safe (start 6 (fun _ => ⟨0, 0, .queued 0⟩) fun _ => none)
      (held_line ++ parking_motion ++ [.control false false, .load, .cut (one_step .block_end), .load,
        .cut (one_step .block_end), .pulse, .pulse]) :=
  ⟨le_rfl, rings_are_safe 6 _ _ _ le_rfl (by decide)⟩

/-- Two parking motions in one hold get the same slot: the interrupt takes the first segment of the
second for one of the first. -/
theorem second_parking_motion_is_not_loaded :
    ¬∀ (segments : Nat) (segment_buffer : Nat → BlockSegment) (st_block_buffer : Nat → Option PlannedBlock)
      (events : List RingsEvent), 6 ≤ segments →
        Transition.Always step Safe (start segments segment_buffer st_block_buffer) events := by
  intro hall
  have hsafe := (hall 6 (fun _ => ⟨0, 0, .queued 0⟩) (fun _ => none)
    (held_line ++ parking_motion ++ [.moveto, .load, .cut (one_step .short)]) le_rfl).last
  have hreload := hsafe.reload { n_step := 1, st_block_index := 2, block := .system 2 } (by decide) (by decide)
  have hother := hreload.mpr (by decide)
  exact absurd hother (by decide)

end DuneWeaver.StepperRings
