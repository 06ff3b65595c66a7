import DuneWeaver.Stepper.Rings

open RingIndex

namespace DuneWeaver

/-- A slot and the block it is used for. -/
def BlockSegment.entry (segment : BlockSegment) : Nat × Option PlannedBlock :=
  (segment.st_block_index, some segment.block)

namespace StepperRings

variable {s : StepperRings}

/-- Two uses of slots agree when they are of one slot exactly if they are for one block. -/
def Agree (a b : Nat × Option PlannedBlock) : Prop := a.1 = b.1 ↔ a.2 = b.2

/-- What the interrupt has loaded. -/
def executed (s : StepperRings) : Nat × Option PlannedBlock := (s.exec_block_index, s.exec_block)

def entries (s : StepperRings) : List (Nat × Option PlannedBlock) := s.queued.map BlockSegment.entry

def slots (s : StepperRings) : List Nat := s.queued.map BlockSegment.st_block_index

/-- The last use of a slot that the interrupt has seen or will see. -/
def newest (s : StepperRings) : Nat × Option PlannedBlock := s.entries.getLastD s.executed

/-- The block that `prep_buffer` is to prepare, when there is one. -/
def target (s : StepperRings) : PlannedBlock :=
  if s.executeSysMotion then .system s.system_motions else .queued s.current

/-- A block is loaded: it is being prepared, or is to be recomputed first. -/
def in_hand (s : StepperRings) : Bool := s.pl_block.isSome || s.recalculate_flag.recalculate

/-- The block in hand has its slot, which is that of the newest segment or the one after it. -/
structure Held (s : StepperRings) : Prop where
  hand : s.pl_block = some s.target ∧ s.recalculate_flag.recalculate = false ∨
    s.pl_block = none ∧ s.recalculate_flag.recalculate = true
  queried : s.queried_block = some s.target
  data : s.st_block_buffer s.st_block_index = some s.target
  agrees : Agree s.newest (s.st_block_index, some s.target)
  near : s.queued = [] ∨ Follows (s.segments - 1) s.newest.1 s.st_block_index

/-- There is no block in hand, and the next one is a new one that gets a new slot. -/
structure Fresh (s : StepperRings) : Prop where
  hand : s.pl_block = none ∧ s.recalculate_flag.recalculate = false
  slot : s.queued = [] ∨ s.newest.1 = s.st_block_index
  slot_ne : s.newest.1 ≠ s.next_block_index s.st_block_index
  block_ne : s.newest.2 ≠ some s.target

/-- The partly executed block that a parking motion comes in between keeps its slot. -/
structure Saved (s : StepperRings) : Prop where
  current_lt : s.current < s.planned
  slot_lt : s.last_st_block_index < s.segments - 1
  data : s.st_block_buffer s.last_st_block_index = some (.queued s.current)
  agrees : ∀ p ∈ s.executed :: s.entries, Agree p (s.last_st_block_index, some (.queued s.current))
  slot_ne_iff : s.st_block_index ≠ s.last_st_block_index ↔ s.in_hand = true

structure Sound (s : StepperRings) : Prop where
  segments_ge : 6 ≤ s.segments
  tail_lt : s.segment_buffer_tail < s.segments
  head_lt : s.segment_buffer_head < s.segments
  next_head_eq : s.segment_next_head = next s.segments s.segment_buffer_head
  slot_lt : s.st_block_index < s.segments - 1
  slots_lt : ∀ i ∈ s.slots, i < s.segments - 1
  follow : s.slots.IsChain (Follows (s.segments - 1))
  agree : (s.executed :: s.entries).IsChain Agree
  kept : ∀ segment ∈ s.queued, s.st_block_buffer segment.st_block_index = some segment.block
  dated : ∀ n, s.newest.2 = some (.system n) → n ≤ s.system_motions
  executing : s.exec_segment ≠ none → ∃ segment, s.queued.head? = some segment ∧ s.executed = segment.entry
  stage : s.Held ∨ s.Fresh
  parked : s.moving = true → s.executeSysMotion = true ∧ s.recalculate_flag.parking = true ∧
    (s.recalculate_flag.holdPartialBlock = true → s.Saved)

section Ring

theorem next_segment_index_eq (h : 0 < s.segments) {i : Nat} (hi : i < s.segments) :
    s.next_segment_index i = next s.segments i := by
  unfold next_segment_index next
  split_ifs <;> omega

theorem getLast_entries (s : StepperRings) : (s.executed :: s.entries).getLast? = some s.newest := by
  rw [newest, List.getLast?_cons, List.getLastD_eq_getLast?]

theorem newest_of_getLast {segment : BlockSegment} (h : s.queued.getLast? = some segment) :
    s.newest = segment.entry := by
  rw [newest, entries, List.getLastD_eq_getLast?, List.getLast?_map, h]
  rfl

theorem slots_getLast (h : s.queued ≠ []) : s.slots.getLast? = some s.newest.1 := by
  have hlast := List.getLast?_eq_some_getLast h
  rw [slots, List.getLast?_map, hlast, newest_of_getLast hlast]
  rfl

theorem Sound.room (h : s.Sound) (hfills : s.fills = true) :
    next s.segments s.segment_buffer_head ≠ s.segment_buffer_tail := by
  have hne : s.segment_buffer_tail ≠ s.segment_next_head := by
    simp only [fills, Bool.and_eq_true, decide_eq_true_eq] at hfills
    exact hfills.2
  rw [h.next_head_eq] at hne
  exact hne.symm

/-- With room in the segment ring the slot after that of the newest segment is free. -/
theorem Sound.next_free (h : s.Sound) (hfresh : s.Fresh) (hfills : s.fills = true) :
    s.next_block_index s.st_block_index ∉ s.slots := by
  have hlength := length_contents_lt h.tail_lt h.head_lt (h.room hfills) s.segment_buffer
  rcases hfresh.slot with hempty | hslot
  · simp [slots, hempty]
  · by_cases hempty : s.queued = []
    · simp [slots, hempty]
    · have hlast := slots_getLast hempty
      rw [hslot] at hlast
      apply next_last_notMem h.follow hlast h.slots_lt
      rw [slots, List.length_map, queued]
      omega

end Ring

section Interrupt

/-- What the interrupt changes: it takes segments off the front of the ring, and the newest use of a
slot stays what it was. -/
theorem Sound.consume (h : s.Sound) {exec_segment : Option Nat} {exec_block_index step_count tail : Nat}
    {exec_block : Option PlannedBlock} {t : StepperRings}
    (ht : t = { s with exec_segment, exec_block_index, exec_block, step_count, segment_buffer_tail := tail })
    (htail : tail < s.segments) (hsuffix : t.queued <:+ s.queued) (hnewest : t.newest = s.newest)
    (hagree : (t.executed :: t.entries).IsChain Agree) (hmem : t.executed ∈ s.executed :: s.entries)
    (hexec : t.exec_segment ≠ none → ∃ segment, t.queued.head? = some segment ∧ t.executed = segment.entry) :
    t.Sound := by
  have hempty : s.queued = [] → t.queued = [] := by
    intro hnil
    rw [hnil] at hsuffix
    exact List.suffix_nil.mp hsuffix
  have hstage : t.Held ∨ t.Fresh := by
    subst ht
    rcases h.stage with hheld | hfresh
    · refine .inl ⟨hheld.hand, hheld.queried, hheld.data, ?_, ?_⟩
      · rw [hnewest]
        exact hheld.agrees
      · rw [hnewest]
        exact hheld.near.imp_left hempty
    · refine .inr ⟨hfresh.hand, ?_, ?_, ?_⟩
      · rw [hnewest]
        exact hfresh.slot.imp_left hempty
      · rw [hnewest]
        exact hfresh.slot_ne
      · rw [hnewest]
        exact hfresh.block_ne
  have hparked : t.moving = true → t.executeSysMotion = true ∧ t.recalculate_flag.parking = true ∧
      (t.recalculate_flag.holdPartialBlock = true → t.Saved) := by
    subst ht
    intro hmoving
    obtain ⟨hsys, hparking, hsaved⟩ := h.parked hmoving
    refine ⟨hsys, hparking, fun hpartial => ?_⟩
    obtain ⟨hcurrent, hslot, hdata, hagrees, hne⟩ := hsaved hpartial
    refine ⟨hcurrent, hslot, hdata, fun p hp => ?_, hne⟩
    rcases List.mem_cons.mp hp with rfl | hp
    · exact hagrees _ hmem
    · exact hagrees p (List.mem_cons_of_mem _ ((hsuffix.map BlockSegment.entry).subset hp))
  have hslots : t.slots <:+ s.slots := hsuffix.map _
  have hdated : ∀ n, t.newest.2 = some (.system n) → n ≤ t.system_motions := by
    rw [hnewest]
    subst ht
    exact h.dated
  subst ht
  exact
    { segments_ge := h.segments_ge
      tail_lt := htail
      head_lt := h.head_lt
      next_head_eq := h.next_head_eq
      slot_lt := h.slot_lt
      slots_lt := fun i hi => h.slots_lt i (hslots.subset hi)
      follow := h.follow.suffix hslots
      agree := hagree
      kept := fun segment hsegment => h.kept segment (hsuffix.subset hsegment)
      dated := hdated
      executing := hexec
      stage := hstage
      parked := hparked }

theorem Sound.queued_cons (h : s.Sound) (hsome : s.segment_buffer_head ≠ s.segment_buffer_tail) :
    s.queued = s.segment_buffer s.segment_buffer_tail ::
      contents s.segments s.segment_buffer (next s.segments s.segment_buffer_tail) s.segment_buffer_head :=
  contents_pop h.tail_lt h.head_lt hsome s.segment_buffer

/-- The interrupt loads the block of the segment it takes, if it has not got it already. -/
theorem Sound.begin_segment_executed (h : s.Sound) (hsome : s.segment_buffer_head ≠ s.segment_buffer_tail) :
    s.begin_segment.executed = (s.segment_buffer s.segment_buffer_tail).entry := by
  have hqueued := h.queued_cons hsome
  have hagree := h.agree
  rw [entries, hqueued, List.map_cons, List.isChain_cons_cons] at hagree
  have hkept := h.kept (s.segment_buffer s.segment_buffer_tail) (by rw [hqueued]; exact List.mem_cons_self)
  unfold begin_segment
  dsimp only
  split
  case isTrue hother =>
    simp only [executed, BlockSegment.entry, hkept]
  case isFalse hsame =>
    have hsame := not_not.mp hsame
    have hblock := hagree.1.mp hsame
    simp only [executed, BlockSegment.entry] at hblock ⊢
    rw [hsame, hblock]

theorem begin_segment_eq (s : StepperRings) : s.begin_segment =
    { s with
      exec_segment := some s.segment_buffer_tail
      exec_block_index := s.begin_segment.exec_block_index
      exec_block := s.begin_segment.exec_block
      step_count := (s.segment_buffer s.segment_buffer_tail).n_step
      segment_buffer_tail := s.segment_buffer_tail } := by
  unfold begin_segment
  dsimp only
  split <;> rfl

theorem Sound.begin_segment (h : s.Sound) (hsome : s.segment_buffer_head ≠ s.segment_buffer_tail) :
    s.begin_segment.Sound := by
  have hexecuted := h.begin_segment_executed hsome
  have hqueued := h.queued_cons hsome
  have hsame : s.begin_segment.queued = s.queued := by rw [begin_segment_eq]; rfl
  have hentries : s.entries = (s.segment_buffer s.segment_buffer_tail).entry :: s.entries.tail := by
    rw [entries, hqueued]
    rfl
  have hagree := h.agree
  have hentries' : s.begin_segment.entries = s.entries := by rw [entries, hsame, entries]
  apply h.consume s.begin_segment_eq h.tail_lt (hsame ▸ List.suffix_rfl)
  · rw [newest, newest, hentries', hentries]
    simp only [List.getLastD_cons]
  · rw [hexecuted, hentries', hentries, List.isChain_cons_cons, ← hentries]
    exact ⟨Iff.intro (fun _ => rfl) (fun _ => rfl), hagree.tail⟩
  · rw [hexecuted, hentries]
    simp
  · intro _
    refine ⟨s.segment_buffer s.segment_buffer_tail, ?_, hexecuted⟩
    rw [hsame, hqueued]
    rfl

theorem Sound.count_step (h : s.Sound) (hbusy : s.exec_segment ≠ none) : s.count_step.Sound := by
  obtain ⟨segment, hhead, hexecuted⟩ := h.executing hbusy
  have hsome : s.segment_buffer_head ≠ s.segment_buffer_tail := by
    intro hsame
    rw [queued, hsame, contents_self] at hhead
    cases hhead
  have hpos : 0 < s.segments := Nat.lt_of_lt_of_le (by omega) h.segments_ge
  unfold StepperRings.count_step
  dsimp only
  split
  case isFalse =>
    exact h.consume rfl h.tail_lt List.suffix_rfl rfl h.agree List.mem_cons_self h.executing
  case isTrue =>
    have hnext : s.next_segment_index s.segment_buffer_tail = next s.segments s.segment_buffer_tail :=
      next_segment_index_eq hpos h.tail_lt
    generalize ht : ({ s with
      step_count := Stepper.decremented s.step_count
      exec_segment := none
      segment_buffer_tail := s.next_segment_index s.segment_buffer_tail } : StepperRings) = t
    have hqueued : s.queued = segment :: t.queued := by
      have hpop := h.queued_cons hsome
      rw [hpop] at hhead
      simp only [List.head?_cons, Option.some.injEq] at hhead
      rw [hpop, hhead, ← ht, queued, hnext]
    have hentries : s.entries = segment.entry :: t.entries := by rw [entries, hqueued]; rfl
    have hsame : t.executed = s.executed := by rw [← ht]; rfl
    have hagree := h.agree
    rw [hentries, hexecuted, List.isChain_cons_cons] at hagree
    suffices hsound : t.Sound by
      rw [← ht] at hsound
      exact hsound
    apply h.consume ht.symm (by rw [hnext]; exact next_lt h.tail_lt)
    · rw [hqueued]
      exact List.suffix_cons segment t.queued
    · rw [newest, newest, hentries, List.getLastD_cons, hsame, hexecuted]
    · rw [hsame, hexecuted]
      exact hagree.2
    · rw [hsame]
      exact List.mem_cons_self
    · intro hstill
      rw [← ht] at hstill
      exact absurd rfl hstill

theorem Sound.pulse_func (h : s.Sound) : s.pulse_func.Sound := by
  unfold StepperRings.pulse_func
  cases hexec : s.exec_segment with
  | some cell => exact h.count_step (by rw [hexec]; exact Option.some_ne_none cell)
  | none =>
    dsimp only
    split
    case isTrue hsome =>
      apply (h.begin_segment hsome).count_step
      rw [begin_segment_eq]
      exact Option.some_ne_none _
    case isFalse => exact h

end Interrupt

section Prep

/-- The segment ring is as it was, and so is what the interrupt has loaded. -/
structure SameRing (s t : StepperRings) : Prop where
  segments : t.segments = s.segments
  tail : t.segment_buffer_tail = s.segment_buffer_tail
  head : t.segment_buffer_head = s.segment_buffer_head
  next_head : t.segment_next_head = s.segment_next_head
  queued : t.queued = s.queued
  exec_segment : t.exec_segment = s.exec_segment
  executed : t.executed = s.executed

variable {t : StepperRings}

theorem SameRing.entries (h : SameRing s t) : t.entries = s.entries := by
  rw [StepperRings.entries, h.queued, StepperRings.entries]

theorem SameRing.newest (h : SameRing s t) : t.newest = s.newest := by
  rw [StepperRings.newest, h.entries, h.executed, StepperRings.newest]

/-- What the main task changes apart from the segment ring: every slot that a segment refers to
keeps its data. -/
theorem Sound.same_ring (h : s.Sound) (hring : SameRing s t) (hslot : t.st_block_index < s.segments - 1)
    (hkept : ∀ segment ∈ s.queued,
      t.st_block_buffer segment.st_block_index = s.st_block_buffer segment.st_block_index)
    (hdated : s.system_motions ≤ t.system_motions) (hstage : t.Held ∨ t.Fresh)
    (hparked : t.moving = true → t.executeSysMotion = true ∧ t.recalculate_flag.parking = true ∧
      (t.recalculate_flag.holdPartialBlock = true → t.Saved)) : t.Sound where
  segments_ge := by rw [hring.segments]; exact h.segments_ge
  tail_lt := by rw [hring.tail, hring.segments]; exact h.tail_lt
  head_lt := by rw [hring.head, hring.segments]; exact h.head_lt
  next_head_eq := by rw [hring.next_head, hring.segments, hring.head]; exact h.next_head_eq
  slot_lt := by rw [hring.segments]; exact hslot
  slots_lt := by rw [slots, hring.queued, hring.segments]; exact h.slots_lt
  follow := by rw [slots, hring.queued, hring.segments]; exact h.follow
  agree := by rw [hring.executed, hring.entries]; exact h.agree
  kept := by
    rw [hring.queued]
    intro segment hsegment
    rw [hkept segment hsegment]
    exact h.kept segment hsegment
  dated := by
    rw [hring.newest]
    intro n hn
    exact (h.dated n hn).trans hdated
  executing := by rw [hring.exec_segment, hring.queued, hring.executed]; exact h.executing
  stage := hstage
  parked := hparked

/-- What is saved for the end of a parking motion stays saved. -/
theorem Sound.still_parked (h : s.Sound) (hmoving : t.moving = s.moving)
    (hsys : t.executeSysMotion = s.executeSysMotion)
    (hparking : t.recalculate_flag.parking = s.recalculate_flag.parking)
    (hheld : s.recalculate_flag.parking = true → t.recalculate_flag.holdPartialBlock = true →
      s.recalculate_flag.holdPartialBlock = true) (hsaved : s.Saved → t.Saved) :
    t.moving = true → t.executeSysMotion = true ∧ t.recalculate_flag.parking = true ∧
      (t.recalculate_flag.holdPartialBlock = true → t.Saved) := by
  intro hmoves
  obtain ⟨hsys', hparking', hsaved'⟩ := h.parked (hmoving.symm.trans hmoves)
  exact ⟨hsys.trans hsys', hparking.trans hparking', fun hholds => hsaved (hsaved' (hheld hparking' hholds))⟩

theorem next_ne {n i : Nat} (hn : 2 ≤ n) : next n i ≠ i := by
  unfold next
  split <;> omega

theorem next_block_index_ne (h : s.Sound) (i : Nat) : s.next_block_index i ≠ i := by
  have hge := h.segments_ge
  exact next_ne (by omega)

theorem queried_block_eq {block : PlannedBlock} (h : s.queried_block = some block) : block = s.target := by
  unfold queried_block at h
  unfold target
  split_ifs at h ⊢
  · exact (Option.some.inj h).symm
  · exact (Option.some.inj h).symm

theorem Held.in_hand (h : s.Held) : s.in_hand = true := by
  rcases h.hand with ⟨hblock, -⟩ | ⟨-, hflag⟩
  · simp [StepperRings.in_hand, hblock]
  · simp [StepperRings.in_hand, hflag]

theorem Fresh.in_hand (h : s.Fresh) : s.in_hand = false := by
  simp [StepperRings.in_hand, h.hand.1, h.hand.2]

/-- The block in hand is taken up again, in the slot it has. -/
theorem Sound.load_again (h : s.Sound) (hheld : s.Held) (hnone : s.pl_block = none) : s.load_block.Sound := by
  have hflag : s.recalculate_flag.recalculate = true := by
    rcases hheld.hand with ⟨hblock, -⟩ | ⟨-, hflag⟩
    · rw [hnone] at hblock
      cases hblock
    · exact hflag
  unfold load_block
  rw [hheld.queried]
  dsimp only
  rw [if_pos hflag]
  split
  case isTrue hparking =>
    refine h.same_ring ⟨rfl, rfl, rfl, rfl, rfl, rfl, rfl⟩ h.slot_lt (fun _ _ => rfl) le_rfl
      (.inl ⟨.inl ⟨rfl, rfl⟩, hheld.queried, hheld.data, hheld.agrees, hheld.near⟩)
      (h.still_parked rfl rfl rfl (fun _ => id) fun hsaved => ?_)
    exact ⟨hsaved.current_lt, hsaved.slot_lt, hsaved.data, hsaved.agrees,
      hsaved.slot_ne_iff.trans (iff_of_true hheld.in_hand rfl)⟩
  case isFalse hparking =>
    refine h.same_ring ⟨rfl, rfl, rfl, rfl, rfl, rfl, rfl⟩ h.slot_lt (fun _ _ => rfl) le_rfl
      (.inl ⟨.inl ⟨rfl, rfl⟩, hheld.queried, hheld.data, hheld.agrees, hheld.near⟩) fun hmoving => ?_
    exact absurd (h.parked hmoving).2.1 hparking

/-- A new block is loaded into the next slot, which no segment refers to. -/
theorem Sound.load_new (h : s.Sound) (hfresh : s.Fresh) (hfills : s.fills = true) : s.load_block.Sound := by
  unfold load_block
  cases hquery : s.queried_block with
  | none => exact h
  | some block =>
    have hblock := queried_block_eq hquery
    have hfree := h.next_free hfresh hfills
    have hge := h.segments_ge
    have hne := next_block_index_ne h s.st_block_index
    dsimp only
    rw [hfresh.hand.2, if_neg Bool.false_ne_true]
    subst hblock
    refine h.same_ring ⟨rfl, rfl, rfl, rfl, rfl, rfl, rfl⟩ (next_lt h.slot_lt) ?_ le_rfl (.inl ?_) ?_
    · intro segment hsegment
      have hother : segment.st_block_index ≠ s.next_block_index s.st_block_index := by
        intro heq
        exact hfree (heq ▸ List.mem_map_of_mem hsegment)
      exact Function.update_of_ne hother _ _
    · refine ⟨.inl ⟨rfl, hfresh.hand.2⟩, hquery, Function.update_self _ _ _, ?_, ?_⟩
      · exact iff_of_false hfresh.slot_ne hfresh.block_ne
      · rcases hfresh.slot with hempty | hslot
        · exact .inl hempty
        · exact .inr (.inr (congrArg s.next_block_index hslot.symm))
    · refine h.still_parked rfl rfl rfl (fun _ => id) fun hsaved => ?_
      obtain ⟨hcurrent, hslot, hdata, hagrees, hiff⟩ := hsaved
      have hsame : s.st_block_index = s.last_st_block_index := by
        by_contra hother
        have hhand := hiff.mp hother
        rw [hfresh.in_hand] at hhand
        cases hhand
      refine ⟨hcurrent, hslot, ?_, hagrees, ?_⟩
      · rw [← hdata]
        exact Function.update_of_ne (by rw [← hsame]; exact hne.symm) _ _
      · refine iff_of_true ?_ rfl
        change s.next_block_index s.st_block_index ≠ s.last_st_block_index
        rw [← hsame]
        exact hne

theorem Sound.load_block (h : s.Sound) (hfills : s.fills = true) (hnone : s.pl_block = none) :
    s.load_block.Sound := by
  rcases h.stage with hheld | hfresh
  · exact h.load_again hheld hnone
  · exact h.load_new hfresh hfills

theorem Sound.end_motion (h : s.Sound) : s.end_motion.Sound := by
  refine h.same_ring ⟨rfl, rfl, rfl, rfl, rfl, rfl, rfl⟩ h.slot_lt (fun _ _ => rfl) le_rfl ?_
    (h.still_parked rfl rfl rfl (fun hparking hpartial => ?_) fun hsaved =>
      ⟨hsaved.current_lt, hsaved.slot_lt, hsaved.data, hsaved.agrees, hsaved.slot_ne_iff⟩)
  · rcases h.stage with hheld | hfresh
    · exact .inl ⟨hheld.hand, hheld.queried, hheld.data, hheld.agrees, hheld.near⟩
    · exact .inr ⟨hfresh.hand, hfresh.slot, hfresh.slot_ne, hfresh.block_ne⟩
  · -- while a parking motion is under way its own end marks nothing
    simpa [StepperRings.end_motion, hparking] using hpartial

/-- A cell at the head that is written but not handed on. -/
theorem Sound.fill_segment (h : s.Sound) (segment : BlockSegment) : (s.fill_segment segment).Sound := by
  generalize ht : s.fill_segment segment = t
  have hqueued : t.queued = s.queued := by
    rw [← ht]
    exact contents_update h.tail_lt h.head_lt s.segment_buffer segment
  have hring : SameRing s t := by
    refine ⟨?_, ?_, ?_, ?_, hqueued, ?_, ?_⟩
    all_goals subst ht; rfl
  have hnewest := hring.newest
  have hentries := hring.entries
  have hexecuted := hring.executed
  apply h.same_ring hring
  all_goals subst ht
  · exact h.slot_lt
  · exact fun _ _ => rfl
  · exact le_rfl
  · rcases h.stage with hheld | hfresh
    · refine .inl ⟨hheld.hand, hheld.queried, hheld.data, ?_, ?_⟩
      · rw [hnewest]
        exact hheld.agrees
      · rw [hqueued, hnewest]
        exact hheld.near
    · refine .inr ⟨hfresh.hand, ?_, ?_, ?_⟩
      · rw [hqueued, hnewest]
        exact hfresh.slot
      · rw [hnewest]
        exact hfresh.slot_ne
      · rw [hnewest]
        exact hfresh.block_ne
  · refine h.still_parked rfl rfl rfl (fun _ => id) fun hsaved => ?_
    refine ⟨hsaved.current_lt, hsaved.slot_lt, hsaved.data, ?_, hsaved.slot_ne_iff⟩
    rw [hentries, hexecuted]
    exact hsaved.agrees

theorem Sound.queued_commit (h : s.Sound) (hfills : s.fills = true) (segment : BlockSegment) :
    (s.fill_segment segment).commit_segment.queued = s.queued ++ [segment] := by
  change contents s.segments _ s.segment_buffer_tail s.segment_next_head = _
  rw [h.next_head_eq]
  exact contents_push h.tail_lt h.head_lt (h.room hfills) s.segment_buffer segment

/-- The slot in hand is that of the newest segment, or the one behind it. -/
theorem Held.follow (hheld : s.Held) (h : s.Sound) :
    (s.slots ++ [s.st_block_index]).IsChain (Follows (s.segments - 1)) := by
  rw [List.isChain_append]
  refine ⟨h.follow, List.isChain_singleton _, ?_⟩
  intro i hlast j hj
  simp only [List.head?_cons, Option.mem_some_iff] at hj
  subst hj
  have hne : s.queued ≠ [] := by
    intro hempty
    simp [slots, hempty] at hlast
  rw [slots_getLast hne, Option.mem_some_iff] at hlast
  rw [← hlast]
  exact hheld.near.resolve_left hne

theorem Held.agree (hheld : s.Held) (h : s.Sound) :
    (s.executed :: (s.entries ++ [(s.st_block_index, some s.target)])).IsChain Agree := by
  rw [← List.cons_append, List.isChain_append]
  refine ⟨h.agree, List.isChain_singleton _, ?_⟩
  intro p hlast q hq
  rw [getLast_entries, Option.mem_some_iff] at hlast
  simp only [List.head?_cons, Option.mem_some_iff] at hq
  rw [← hlast, ← hq]
  exact hheld.agrees

theorem dated_target {n : Nat} (hn : some s.target = some (.system n)) : n ≤ s.system_motions := by
  have htarget := Option.some.inj hn
  unfold target at htarget
  split at htarget
  · exact (PlannedBlock.system.inj htarget).symm.le
  · cases htarget

/-- A parking motion's segment is neither of the saved block nor in its slot. -/
theorem Saved.commit (hsaved : s.Saved) (hheld : s.Held) (hsys : s.executeSysMotion = true) {segment : BlockSegment}
    (hentries : (s.fill_segment segment).commit_segment.entries = s.entries ++ [(s.st_block_index, some s.target)]) :
    (s.fill_segment segment).commit_segment.Saved := by
  obtain ⟨hcurrent, hslot, hdata, hagrees, hiff⟩ := hsaved
  refine ⟨hcurrent, hslot, hdata, ?_, hiff⟩
  rw [hentries, ← List.cons_append]
  intro p hp
  rcases List.mem_append.mp hp with hp | hp
  · exact hagrees p hp
  · rw [List.mem_singleton.mp hp]
    refine iff_of_false (hiff.mpr hheld.in_hand) ?_
    simp [target, hsys]

/-- A segment is handed on to the interrupt. -/
theorem Sound.commit_segment (h : s.Sound) (hheld : s.Held) (hfills : s.fills = true) (n_step : Nat)
    (ht : t = (s.fill_segment { n_step, st_block_index := s.st_block_index, block := s.target }).commit_segment) :
    t.Sound ∧ t.Held ∧ t.newest = (s.st_block_index, some s.target) := by
  have hge := h.segments_ge
  have hqueued := h.queued_commit hfills { n_step, st_block_index := s.st_block_index, block := s.target }
  have hentries : t.entries = s.entries ++ [(s.st_block_index, some s.target)] := by
    rw [entries, ht, hqueued, List.map_append, List.map_singleton, entries]
    rfl
  have hslots : t.slots = s.slots ++ [s.st_block_index] := by
    rw [slots, ht, hqueued, List.map_append, List.map_singleton, slots]
  have hnewest : t.newest = (s.st_block_index, some s.target) := by
    rw [newest, hentries, List.getLastD_concat]
  have hnext_lt : s.segment_next_head < s.segments := by
    rw [h.next_head_eq]
    exact next_lt h.head_lt
  have hpos : 0 < s.segments := by omega
  subst ht
  have hheld' : ((s.fill_segment _).commit_segment).Held :=
    { hand := hheld.hand
      queried := hheld.queried
      data := hheld.data
      agrees := by
        rw [hnewest]
        exact Iff.intro (fun _ => rfl) (fun _ => rfl)
      near := by
        rw [hnewest]
        exact .inr (.inl rfl) }
  refine ⟨?_, hheld', hnewest⟩
  refine
    { segments_ge := hge
      tail_lt := h.tail_lt
      head_lt := hnext_lt
      next_head_eq := next_segment_index_eq hpos hnext_lt
      slot_lt := h.slot_lt
      stage := .inl hheld'
      slots_lt := ?_, follow := ?_, agree := ?_, kept := ?_, dated := ?_, executing := ?_, parked := ?_ }
  · rw [hslots]
    intro i hi
    rcases List.mem_append.mp hi with hi | hi
    · exact h.slots_lt i hi
    · rw [List.mem_singleton.mp hi]
      exact h.slot_lt
  · rw [hslots]
    exact hheld.follow h
  · rw [hentries]
    exact hheld.agree h
  · rw [hqueued]
    intro other hother
    rcases List.mem_append.mp hother with hother | hother
    · exact h.kept other hother
    · rw [List.mem_singleton.mp hother]
      exact hheld.data
  · rw [hnewest]
    exact fun n hn => dated_target hn
  · rw [hqueued]
    intro hbusy
    obtain ⟨first, hhead, hfirst⟩ := h.executing hbusy
    refine ⟨first, ?_, hfirst⟩
    rw [List.head?_append, hhead]
    rfl
  · intro hmoving
    obtain ⟨hsys, hparking, hsaved⟩ := h.parked hmoving
    exact ⟨hsys, hparking, fun hpartial => (hsaved hpartial).commit hheld hsys hentries⟩

theorem Sound.check_exit (h : s.Sound) (hheld : s.Held) (hblock : s.pl_block ≠ none)
    (hnewest : s.newest = (s.st_block_index, some s.target)) (reaches : SegmentEnd) :
    (s.check_exit reaches).Sound := by
  cases reaches with
  | short => exact h
  | forced => exact h.end_motion
  | block_end =>
    unfold StepperRings.check_exit
    dsimp only
    split
    case isTrue hsys =>
      refine h.same_ring ⟨rfl, rfl, rfl, rfl, rfl, rfl, rfl⟩ h.slot_lt (fun _ _ => rfl) le_rfl
        (.inl ⟨hheld.hand, hheld.queried, hheld.data, hheld.agrees, hheld.near⟩)
        (h.still_parked rfl rfl rfl (fun _ => id) fun hsaved => ?_)
      exact ⟨hsaved.current_lt, hsaved.slot_lt, hsaved.data, hsaved.agrees, hsaved.slot_ne_iff⟩
    case isFalse hsys =>
      have hmore : s.current < s.planned := by
        have hqueried := hheld.queried
        unfold queried_block at hqueried
        rw [if_neg hsys] at hqueried
        by_contra hnone
        rw [if_neg hnone] at hqueried
        cases hqueried
      have hflag : s.recalculate_flag.recalculate = false := by
        rcases hheld.hand with ⟨-, hflag⟩ | ⟨hnone, -⟩
        · exact hflag
        · exact absurd hnone hblock
      unfold plan_discard_current_block
      dsimp only
      rw [if_pos hmore]
      refine h.same_ring ⟨rfl, rfl, rfl, rfl, rfl, rfl, rfl⟩ h.slot_lt (fun _ _ => rfl) le_rfl
        (.inr ⟨⟨rfl, hflag⟩, .inr ?_, ?_, ?_⟩) fun hmoving => absurd (h.parked hmoving).1 hsys
      · exact congrArg Prod.fst hnewest
      · change s.newest.1 ≠ s.next_block_index s.st_block_index
        rw [hnewest]
        exact (next_block_index_ne h _).symm
      · -- the next block has a number of its own
        change s.newest.2 ≠ some (target { s with current := s.current + 1 })
        rw [hnewest]
        simp [target, hsys]

theorem Sound.prep_segment (h : s.Sound) (hfills : s.fills = true) (cut : SegmentCut) :
    (s.prep_segment cut).Sound := by
  unfold StepperRings.prep_segment
  split
  case h_1 => exact h
  case h_2 block hblock =>
    have hheld : s.Held := h.stage.resolve_right fun hfresh => by
      have hnone := hfresh.hand.1
      rw [hblock] at hnone
      cases hnone
    have htarget : block = s.target := by
      rcases hheld.hand with ⟨htarget, -⟩ | ⟨hnone, -⟩
      · rw [hblock] at htarget
        exact Option.some.inj htarget
      · rw [hblock] at hnone
        cases hnone
    subst htarget
    dsimp only
    split
    case isTrue => exact (h.fill_segment _).end_motion
    case isFalse =>
      obtain ⟨hcommit, hheld', hnewest⟩ := h.commit_segment hheld hfills _ rfl
      refine hcommit.check_exit hheld' ?_ hnewest _
      change s.pl_block ≠ none
      rw [hblock]
      exact Option.some_ne_none _

end Prep

end StepperRings

end DuneWeaver
