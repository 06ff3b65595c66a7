import DuneWeaver.Bresenham.Counter
import DuneWeaver.Stepper.Pulse

namespace DuneWeaver

/-- A piece of a block that `prep_buffer` cuts: at least one step of the block, and
no more at its level than the counter of a segment holds. -/
structure Cut where
  count : Nat
  level : Nat
  isrPeriod : Nat
  pos : 0 < count
  level_le : level ≤ maxAmassLevel
  fits : count <<< level < 2 ^ 16

/-- The segment of a cut. -/
def Cut.segment (st_block_index : Nat) (cut : Cut) : Segment :=
  prep_segment st_block_index cut.count cut.level cut.isrPeriod

/-- The steps of a block that its cuts take up. -/
def cutSteps (cuts : List Cut) : Nat := (cuts.map Cut.count).sum

@[simp] theorem Cut.segment_st_block_index (cut : Cut) (i : Nat) : (cut.segment i).st_block_index = i := rfl

@[simp] theorem Cut.segment_amass_level (cut : Cut) (i : Nat) : (cut.segment i).amass_level = cut.level := rfl

theorem Cut.segment_n_step (cut : Cut) (i : Nat) : (cut.segment i).n_step = cut.count * 2 ^ cut.level := by
  have hfits := cut.fits
  rw [Nat.shiftLeft_eq] at hfits
  have hcount : cut.count < 2 ^ 16 := by
    have hscale := Nat.one_le_two_pow (n := cut.level)
    calc cut.count = cut.count * 1 := (Nat.mul_one _).symm
      _ ≤ cut.count * 2 ^ cut.level := Nat.mul_le_mul_left _ hscale
      _ < 2 ^ 16 := hfits
  unfold Cut.segment prep_segment
  dsimp only
  rw [Nat.mod_eq_of_lt hcount, Nat.shiftLeft_eq, Nat.mod_eq_of_lt hfits]

namespace Stepper

variable {axis : Type*}

/-- The pulses a move makes on an axis for the block of a slot. An interrupt puts
out what the one before it has computed, so they belong to the block loaded by
then. -/
def pulsed (word i : Nat) (a : axis) (st : Stepper axis) : Move axis → Nat
  | .interrupt => if st.exec_block_index = i then ((st.pulse_func word).2.stepped a).toNat else 0
  | _ => 0

/-- The pulses of a run. -/
def pulses (word i : Nat) (a : axis) (st : Stepper axis) (moves : List (Move axis)) : Nat :=
  (Transition.trace (step word) (fun st m => [st.pulsed word i a m]) st moves).sum

/-- What the interrupt will execute. -/
def loaded (st : Stepper axis) : Option (Stepper axis) :=
  if st.awake then ({ st with step_outbits := fun _ => false } : Stepper axis).next_segment else none

/-- The counters of the block in the slot do not leave 32 bits. -/
def NoOverflow (i : Nat) (st : Stepper axis) (m : Move axis) : Prop :=
  ∀ st', m = .interrupt → st.loaded = some st' → st'.exec_block_index = i →
    ∀ a, st'.counter a + st'.steps a < 2 ^ 32 ∧ st'.exec_block.step_event_count < 2 ^ 32

/-- An axis is pulsed at most once by an interrupt, and that is all it is due. -/
def PulsedOnce (word i : Nat) (st : Stepper axis) (m : Move axis) : Prop :=
  ∀ a, st.pulsed word i a m ≤ 1 ∧ ∀ st', m = .interrupt → st.loaded = some st' → st'.exec_block_index = i →
    (st'.execute word).counter a ≤ st'.exec_block.step_event_count

/-- The segments of the run that belong to the slot are the cuts of one block, one
after the other, and the slot keeps its data meanwhile. -/
structure CutInto (word i : Nat) (pl_block : StBlock axis) (cuts : List Cut) (st : Stepper axis)
    (moves : List (Move axis)) : Prop where
  prepared : st.st_block_buffer i = pl_block.prepared word
  kept : ∀ b, Move.block i b ∉ moves
  fresh : st.exec_block_index ≠ i
  total : cutSteps cuts = pl_block.step_event_count
  segments : ∃ before after, (∀ segment ∈ before ++ after, segment.st_block_index ≠ i) ∧
    st.segments ++ added moves = before ++ cuts.map (Cut.segment i) ++ after

/-- Nothing of the slot's block is left to execute or to put out. -/
structure Drained (i : Nat) (st : Stepper axis) : Prop where
  segments : ∀ segment ∈ st.segments, segment.st_block_index ≠ i
  outbits : st.exec_block_index = i → ∀ a, st.step_outbits a = false

/-- The segment being executed is the one at the tail of the buffer, and the block
being executed is its block. -/
def Tailed (st : Stepper axis) : Prop :=
  ∀ segment ∈ st.exec_segment, segment.st_block_index = st.exec_block_index ∧ ∃ rest, st.segments = segment :: rest

theorem reset_tailed (st_block_buffer : Nat → StBlock axis) : (reset st_block_buffer).Tailed := by
  intro segment hsegment
  simp [reset] at hsegment

theorem execute_tailed {st : Stepper axis} (word : Nat) (h : st.Tailed) : (st.execute word).Tailed := by
  intro segment hsegment
  obtain ⟨hexec, hsegments⟩ | ⟨hexec, hsegments⟩ := st.execute_segments word
  · rw [hexec] at hsegment
    rw [hsegments, execute_exec_block_index]
    exact h segment hsegment
  · simp [hexec] at hsegment

/-- What is loaded is the segment at the tail of the buffer, with the pulses of the
interrupt before put out. -/
theorem loaded_some {st st' : Stepper axis} (htailed : st.Tailed) (h : st.loaded = some st') :
    st.awake = true ∧ ∃ segment tail, st.segments = segment :: tail ∧
      ((st.exec_segment = some segment ∧ st' = { st with step_outbits := fun _ => false }) ∨
        (st.exec_segment = none ∧
          st' = ({ st with step_outbits := fun _ => false } : Stepper axis).begin_segment segment)) := by
  unfold loaded next_segment at h
  split_ifs at h with hawake
  refine ⟨hawake, ?_⟩
  dsimp only at h
  cases hexec : st.exec_segment with
  | some segment =>
    obtain ⟨_, tail, htail⟩ := htailed segment hexec
    rw [hexec] at h
    exact ⟨segment, tail, htail, .inl ⟨rfl, by simpa [hexec] using h.symm⟩⟩
  | none =>
    cases hsegments : st.segments with
    | nil => simp [hexec, hsegments] at h
    | cons segment tail =>
      rw [hexec, hsegments] at h
      exact ⟨segment, tail, rfl, .inr ⟨rfl, by simpa [hexec, hsegments] using h.symm⟩⟩

theorem pulse_func_of_loaded {st st' : Stepper axis} (word : Nat) (h : st.loaded = some st') :
    (st.pulse_func word).1 = st'.execute word := by
  unfold loaded at h
  split_ifs at h with hawake
  unfold pulse_func
  rw [if_neg (by simp [hawake])]
  dsimp only
  rw [h]

/-- With nothing to load the interrupt stops itself. -/
theorem pulse_func_of_idle {st : Stepper axis} (word : Nat) (h : st.loaded = none) :
    (st.awake = false ∧ (st.pulse_func word).1 = st) ∨
      (st.awake = true ∧ (st.pulse_func word).1 = { st with step_outbits := fun _ => false, awake := false }) := by
  unfold loaded at h
  unfold pulse_func
  cases hawake : st.awake with
  | false => exact .inl ⟨rfl, by simp⟩
  | true =>
    rw [hawake, if_pos rfl] at h
    rw [if_neg (by simp)]
    dsimp only
    rw [h]
    exact .inr ⟨rfl, rfl⟩

theorem step_tailed (word : Nat) (st : Stepper axis) (m : Move axis) (h : st.Tailed) :
    (st.step word m).Tailed := by
  cases m with
  | interrupt =>
    unfold step
    cases hloaded : st.loaded with
    | none =>
      obtain ⟨_, hnext⟩ | ⟨_, hnext⟩ := pulse_func_of_idle word hloaded
      · rw [hnext]
        exact h
      · rw [hnext]
        exact h
    | some st' =>
      rw [pulse_func_of_loaded word hloaded]
      apply execute_tailed
      obtain ⟨_, segment, tail, htail, ⟨hexec, rfl⟩ | ⟨_, rfl⟩⟩ := loaded_some h hloaded
      · exact h
      · intro popped hpopped
        obtain rfl : segment = popped := by simpa using hpopped
        exact ⟨by simp, tail, by simpa using htail⟩
  | wake_up => exact h
  | block => exact h
  | segment new =>
    intro segment hsegment
    obtain ⟨hindex, rest, hrest⟩ := h segment hsegment
    exact ⟨hindex, rest ++ [new], by simp [step, hrest]⟩

section Block

variable {word i : Nat} {pl_block : StBlock axis} {cuts : List Cut} {after : List Segment}

/-- Arithmetic modulo `word` holds what the counters of the block come to. -/
def Holds (word : Nat) (pl_block : StBlock axis) : Prop :=
  ∀ n, n ≤ 16 * pl_block.step_event_count → n % word = n

theorem prepared_step_event_count (hholds : Holds word pl_block) :
    (pl_block.prepared word).step_event_count = 8 * pl_block.step_event_count := by
  unfold StBlock.prepared maxAmassLevel
  dsimp only
  rw [Nat.shiftLeft_eq, hholds _ (by omega)]
  omega

/-- Shifting by the level keeps every bit of a block's steps. -/
theorem prepared_steps (hholds : Holds word pl_block) (a : axis)
    (hle : pl_block.steps a ≤ pl_block.step_event_count) {level : Nat} (hlevel : level ≤ maxAmassLevel) :
    (pl_block.prepared word).steps a >>> level = pl_block.steps a * 2 ^ (maxAmassLevel - level) := by
  unfold StBlock.prepared maxAmassLevel at *
  dsimp only
  rw [Nat.shiftLeft_eq, hholds _ (by omega), Nat.shiftRight_eq_div_pow]
  have hsplit : 2 ^ 3 = 2 ^ (3 - level) * 2 ^ level := by
    rw [← Nat.pow_add, Nat.sub_add_cancel hlevel]
  rw [hsplit, ← Nat.mul_assoc, Nat.mul_div_cancel _ (Nat.two_pow_pos level)]

/-- How far the block in the slot is drawn: `done` is the work done, in the finest
steps of the smoothing, and `rest` are the cuts that are not complete. -/
structure Drawing (i : Nat) (pl_block : StBlock axis) (after : List Segment) (st : Stepper axis)
    (coming : List Segment) (pulses : axis → Nat) (rest : List Cut) (done : Nat) : Prop where
  pos : 0 < pl_block.step_event_count
  index : st.exec_block_index = i
  segments : st.segments ++ coming = rest.map (Cut.segment i) ++ after
  idle : st.exec_segment = none → done + 8 * cutSteps rest = 8 * pl_block.step_event_count
  busy : ∀ segment ∈ st.exec_segment, ∃ cut later, rest = cut :: later ∧ segment = cut.segment i ∧
    0 < st.step_count ∧
    (∀ a, st.steps a = pl_block.steps a * 2 ^ (maxAmassLevel - cut.level)) ∧
    done + st.step_count * 2 ^ (maxAmassLevel - cut.level) + 8 * cutSteps later = 8 * pl_block.step_event_count
  balanced : ∀ a, Bresenham.Balanced (8 * pl_block.step_event_count) (4 * pl_block.step_event_count) (st.counter a)
    (pulses a + (st.step_outbits a).toNat) (pl_block.steps a * done)

theorem bresenham_eq_tick {step_event_count counter steps : Nat} (h : (counter + steps) % word = counter + steps) :
    bresenham word step_event_count counter steps = Bresenham.tick step_event_count steps counter := by
  unfold bresenham Bresenham.tick
  dsimp only
  rw [h]

@[simp] theorem cutSteps_cons (cut : Cut) (later : List Cut) :
    cutSteps (cut :: later) = cut.count + cutSteps later := by
  unfold cutSteps
  rw [List.map_cons, List.sum_cons]

variable {st : Stepper axis} {coming : List Segment} {pulses : axis → Nat} {rest : List Cut} {done : Nat}

/-- An increment is at most the whole of the counter's scale. -/
theorem Drawing.steps_le (h : Drawing i pl_block after st coming pulses rest done)
    (hle : ∀ a, pl_block.steps a ≤ pl_block.step_event_count) {segment : Segment}
    (hexec : st.exec_segment = some segment) (a : axis) : st.steps a ≤ 8 * pl_block.step_event_count := by
  obtain ⟨cut, _, _, _, _, hsteps, _⟩ := h.busy segment hexec
  have hweight : 2 ^ (maxAmassLevel - cut.level) ≤ 2 ^ 3 :=
    Nat.pow_le_pow_right (by decide) (Nat.sub_le _ _)
  rw [hsteps a, Nat.mul_comm 8]
  exact Nat.mul_le_mul (hle a) hweight

/-- A step of a segment is a tick of every axis's counter. -/
theorem Drawing.execute (h : Drawing i pl_block after st coming pulses rest done)
    (hprepared : st.st_block_buffer i = pl_block.prepared word) (hholds : Holds word pl_block)
    (hle : ∀ a, pl_block.steps a ≤ pl_block.step_event_count) (hoff : ∀ a, st.step_outbits a = false)
    {segment : Segment} {tail : List Segment} (hexec : st.exec_segment = some segment)
    (hsegments : st.segments = segment :: tail) :
    ∃ rest done, Drawing i pl_block after (st.execute word) coming pulses rest done := by
  have hshort := h.steps_le hle hexec
  obtain ⟨cut, later, rfl, rfl, hpos, hsteps, hdone⟩ := h.busy segment hexec
  have hcount : st.exec_block.step_event_count = 8 * pl_block.step_event_count := by
    unfold exec_block
    rw [h.index, hprepared, prepared_step_event_count hholds]
  have hbalanced (a : axis) : Bresenham.Balanced (8 * pl_block.step_event_count)
      (4 * pl_block.step_event_count) ((st.execute word).counter a)
      (pulses a + ((st.execute word).step_outbits a).toNat)
      (pl_block.steps a * (done + 2 ^ (maxAmassLevel - cut.level))) := by
    have hbefore := h.balanced a
    have hfits : st.counter a + st.steps a ≤ 16 * pl_block.step_event_count := by
      have hcounter := hbefore.le
      have hstep := hshort a
      omega
    have htick := hbefore.tick (hshort a)
    rw [hoff a, Bool.toNat_false, Nat.add_zero] at htick
    rw [execute_counter, execute_step_outbits, hoff a, Bool.false_or, hcount, bresenham_eq_tick (hholds _ hfits),
      Nat.mul_add, ← hsteps a]
    exact htick
  have hmore : 1 < st.step_count ∨ st.step_count = 1 := by omega
  obtain hmore | hlast := hmore
  · obtain ⟨hleft, hsame, hkept⟩ := st.execute_goes_on word hmore
    refine ⟨cut :: later, done + 2 ^ (maxAmassLevel - cut.level), ?_⟩
    constructor
    · exact h.pos
    · rw [execute_exec_block_index, h.index]
    · rw [hkept, h.segments]
    · intro hidle
      rw [hsame, hexec] at hidle
      cases hidle
    · intro segment hsegment
      rw [hsame, hexec] at hsegment
      obtain rfl : cut.segment i = segment := by simpa using hsegment
      refine ⟨cut, later, rfl, rfl, by omega, by simpa using hsteps, ?_⟩
      rw [hleft, ← hdone]
      have hsplit : st.step_count * 2 ^ (maxAmassLevel - cut.level) =
          (st.step_count - 1) * 2 ^ (maxAmassLevel - cut.level) + 2 ^ (maxAmassLevel - cut.level) := by
        rw [← Nat.succ_mul]
        congr 1
        omega
      omega
    · exact hbalanced
  · obtain ⟨hidle, hkept⟩ := st.execute_completes word hlast
    refine ⟨later, done + 2 ^ (maxAmassLevel - cut.level), ?_⟩
    constructor
    · exact h.pos
    · rw [execute_exec_block_index, h.index]
    · have hqueue := h.segments
      rw [hsegments, List.map_cons, List.cons_append, List.cons_append, List.cons.injEq] at hqueue
      rw [hkept, hsegments]
      exact hqueue.2
    · intro _
      rw [hlast, Nat.one_mul] at hdone
      exact hdone
    · intro segment hsegment
      simp [hidle] at hsegment
    · exact hbalanced

/-- Once all its cuts are complete, a block has pulsed every axis as often as it
should. -/
theorem Drawing.exact (h : Drawing i pl_block after st coming pulses [] done) (hidle : st.exec_segment = none)
    (a : axis) : pulses a + (st.step_outbits a).toNat = pl_block.steps a := by
  have hpos := h.pos
  have hdone : done = 8 * pl_block.step_event_count := by
    have hidle := h.idle hidle
    simpa [cutSteps] using hidle
  have hexact := (h.balanced a).exact (by omega) (by omega) (n := pl_block.steps a) (by rw [hdone])
  exact hexact.1

/-- A cut that is loaded has all its work before it. -/
private theorem begin_segment_busy (hprepared : st.st_block_buffer i = pl_block.prepared word)
    (hholds : Holds word pl_block) (hle : ∀ a, pl_block.steps a ≤ pl_block.step_event_count) {cut : Cut}
    {later : List Cut} (hdone : done + 8 * cutSteps (cut :: later) = 8 * pl_block.step_event_count) :
    ∀ segment ∈ (st.begin_segment (cut.segment i)).exec_segment, ∃ first more, cut :: later = first :: more ∧
      segment = first.segment i ∧ 0 < (st.begin_segment (cut.segment i)).step_count ∧
      (∀ a, (st.begin_segment (cut.segment i)).steps a =
        pl_block.steps a * 2 ^ (maxAmassLevel - first.level)) ∧
      done + (st.begin_segment (cut.segment i)).step_count * 2 ^ (maxAmassLevel - first.level) +
        8 * cutSteps more = 8 * pl_block.step_event_count := by
  intro segment hsegment
  obtain rfl : cut.segment i = segment := by simpa using hsegment
  refine ⟨cut, later, rfl, rfl, ?_, ?_, ?_⟩
  · rw [begin_segment_step_count, cut.segment_n_step]
    exact Nat.mul_pos cut.pos (Nat.two_pow_pos _)
  · intro a
    rw [begin_segment_steps, cut.segment_st_block_index, hprepared]
    exact prepared_steps hholds a (hle a) cut.level_le
  · have hscale : 2 ^ cut.level * 2 ^ (maxAmassLevel - cut.level) = 8 := by
      rw [← Nat.pow_add, Nat.add_sub_cancel' cut.level_le]
      rfl
    rw [begin_segment_step_count, cut.segment_n_step, Nat.mul_assoc, hscale]
    rw [cutSteps_cons] at hdone
    omega

/-- The first cut of a block starts its counters in the middle. -/
theorem Drawing.first (hprepared : st.st_block_buffer i = pl_block.prepared word)
    (hholds : Holds word pl_block) (hle : ∀ a, pl_block.steps a ≤ pl_block.step_event_count) {cut : Cut}
    {later : List Cut} (htotal : cutSteps (cut :: later) = pl_block.step_event_count)
    (hfresh : st.exec_block_index ≠ i) (hoff : ∀ a, st.step_outbits a = false)
    (hsegments : st.segments ++ coming = (cut :: later).map (Cut.segment i) ++ after)
    (hnone : ∀ a, pulses a = 0) :
    Drawing i pl_block after (st.begin_segment (cut.segment i)) coming pulses (cut :: later) 0 where
  pos := by
    have hcut := cut.pos
    rw [cutSteps_cons] at htotal
    omega
  index := by rw [begin_segment_exec_block_index, cut.segment_st_block_index]
  segments := by rw [begin_segment_segments, hsegments]
  idle := by
    intro hidle
    simp at hidle
  busy := begin_segment_busy hprepared hholds hle (by rw [htotal, Nat.zero_add])
  balanced := by
    intro a
    have hpos : 0 < pl_block.step_event_count := by
      have hcut := cut.pos
      rw [cutSteps_cons] at htotal
      omega
    have hhalf : (st.begin_segment (cut.segment i)).counter a = 4 * pl_block.step_event_count := by
      rw [begin_segment_counter, cut.segment_st_block_index, if_neg hfresh, hprepared,
        prepared_step_event_count hholds, Nat.shiftRight_eq_div_pow]
      omega
    rw [hhalf, hnone a, begin_segment_step_outbits, hoff a, Nat.mul_zero]
    exact Bresenham.Balanced.begin (by omega) (by omega)

/-- The next cut takes the counters over as they are. -/
theorem Drawing.next {cut : Cut} {later : List Cut}
    (h : Drawing i pl_block after st coming pulses (cut :: later) done)
    (hprepared : st.st_block_buffer i = pl_block.prepared word) (hholds : Holds word pl_block)
    (hle : ∀ a, pl_block.steps a ≤ pl_block.step_event_count) (hidle : st.exec_segment = none) :
    Drawing i pl_block after (st.begin_segment (cut.segment i)) coming pulses (cut :: later) done where
  pos := h.pos
  index := by rw [begin_segment_exec_block_index, cut.segment_st_block_index]
  segments := by rw [begin_segment_segments, h.segments]
  idle := by
    intro hidle
    simp at hidle
  busy := begin_segment_busy hprepared hholds hle (h.idle hidle)
  balanced := by
    intro a
    rw [begin_segment_counter, cut.segment_st_block_index, if_pos h.index, begin_segment_step_outbits]
    exact h.balanced a

/-- The pulses of the interrupt before are put out, and the rest of the block is as
it was. -/
theorem Drawing.put_out (h : Drawing i pl_block after st coming pulses rest done) :
    Drawing i pl_block after { st with step_outbits := fun _ => false } coming
      (fun a => pulses a + (st.step_outbits a).toNat) rest done :=
  { h with balanced := h.balanced }

/-- Where a block stands: its segments are still to be reached, it is being drawn, or
another block is. -/
inductive Stage (i : Nat) (pl_block : StBlock axis) (cuts : List Cut) (after : List Segment) (st : Stepper axis)
    (coming : List Segment) (pulses : axis → Nat) : Prop where
  | waiting (nonempty : cuts ≠ []) (before : List Segment) (index : st.exec_block_index ≠ i)
      (others : ∀ segment ∈ before, segment.st_block_index ≠ i)
      (segments : st.segments ++ coming = before ++ (cuts.map (Cut.segment i) ++ after))
      (none : ∀ a, pulses a = 0)
  | drawing (rest : List Cut) (done : Nat) (h : Drawing i pl_block after st coming pulses rest done)
  | finished (index : st.exec_block_index ≠ i)
      (others : ∀ segment ∈ st.segments ++ coming, segment.st_block_index ≠ i)
      (exact : ∀ a, pulses a = pl_block.steps a)

/-- Executing takes at most the segment at the tail out of the buffer. -/
private theorem execute_queue {segment : Segment} {tail : List Segment} (hsegments : st.segments = segment :: tail) :
    (st.execute word).segments ++ coming = segment :: (tail ++ coming) ∨
      (st.execute word).segments ++ coming = tail ++ coming := by
  obtain ⟨_, hkept⟩ | ⟨_, hkept⟩ := st.execute_segments word
  · exact .inl (by rw [hkept, hsegments, List.cons_append])
  · exact .inr (by rw [hkept, hsegments, List.tail_cons])

/-- A segment of another block is executed before the cuts of this one. -/
private theorem Stage.before {cuts : List Cut} {before : List Segment}
    (hnonempty : cuts ≠ []) (hindex : st.exec_block_index ≠ i) {segment : Segment} {tail : List Segment}
    (hsegments : st.segments = segment :: tail) (hother : segment.st_block_index ≠ i)
    (hothers : ∀ segment ∈ before, segment.st_block_index ≠ i)
    (hbefore : st.segments ++ coming = before ++ (cuts.map (Cut.segment i) ++ after))
    (hnone : ∀ a, pulses a = 0) :
    Stage i pl_block cuts after (st.execute word) coming pulses := by
  have hstays : (st.execute word).exec_block_index ≠ i := by rwa [execute_exec_block_index]
  rw [hsegments, List.cons_append] at hbefore
  cases before with
  | nil =>
    obtain ⟨first, later, rfl⟩ := List.exists_cons_of_ne_nil hnonempty
    rw [List.nil_append, List.map_cons, List.cons_append, List.cons.injEq] at hbefore
    exact absurd (by rw [hbefore.1, first.segment_st_block_index]) hother
  | cons head before =>
    rw [List.cons_append, List.cons.injEq] at hbefore
    obtain ⟨rfl, hbefore⟩ := hbefore
    obtain hkept | hpopped := @execute_queue _ word st coming segment tail hsegments
    · exact .waiting hnonempty (segment :: before) hstays hothers (by rw [hkept, hbefore, List.cons_append]) hnone
    · exact .waiting hnonempty before hstays (fun other hmem => hothers other (List.mem_cons_of_mem _ hmem))
        (by rw [hpopped, hbefore]) hnone

/-- A segment of another block is executed after the cuts of this one. -/
private theorem Stage.past {cuts : List Cut} (hindex : st.exec_block_index ≠ i) {segment : Segment}
    {tail : List Segment} (hsegments : st.segments = segment :: tail)
    (hothers : ∀ segment ∈ st.segments ++ coming, segment.st_block_index ≠ i)
    (hexact : ∀ a, pulses a = pl_block.steps a) :
    Stage i pl_block cuts after (st.execute word) coming pulses := by
  have hstays : (st.execute word).exec_block_index ≠ i := by rwa [execute_exec_block_index]
  rw [hsegments, List.cons_append] at hothers
  refine .finished hstays ?_ hexact
  obtain hkept | hpopped := @execute_queue _ word st coming segment tail hsegments
  · rw [hkept]
    exact hothers
  · rw [hpopped]
    exact fun other hmem => hothers other (List.mem_cons_of_mem _ hmem)

theorem pulsed_interrupt (word i : Nat) (st : Stepper axis) (hawake : st.awake = true) (a : axis) :
    st.pulsed word i a .interrupt = if st.exec_block_index = i then (st.step_outbits a).toNat else 0 := by
  have hstepped : (st.pulse_func word).2.stepped = st.step_outbits := by
    unfold pulse_func
    rw [if_neg (by simp [hawake])]
    dsimp only
    split <;> rfl
  unfold pulsed
  rw [hstepped]

/-- What is known of a block whose cuts are executed. -/
structure Block (word i : Nat) (pl_block : StBlock axis) (cuts : List Cut) (after : List Segment) : Prop where
  holds : Holds word pl_block
  steps_le : ∀ a, pl_block.steps a ≤ pl_block.step_event_count
  total : cutSteps cuts = pl_block.step_event_count
  others : ∀ segment ∈ after, segment.st_block_index ≠ i

variable {st' : Stepper axis} {m : Move axis}

/-- When a segment of the block is loaded, the block is being drawn. -/
theorem Stage.loaded (h : Stage i pl_block cuts after st coming pulses)
    (hblock : Block word i pl_block cuts after)
    (hprepared : st.st_block_buffer i = pl_block.prepared word) (htailed : st.Tailed)
    (hloaded : st.loaded = some st') (hindex' : st'.exec_block_index = i) :
    st'.st_block_buffer i = pl_block.prepared word ∧ (∀ a, st'.step_outbits a = false) ∧
      (∃ segment tail, st'.exec_segment = some segment ∧ st'.segments = segment :: tail) ∧
      ∃ rest done, Drawing i pl_block after st' coming (fun a => pulses a + st.pulsed word i a .interrupt)
        rest done := by
  obtain ⟨hawake, segment, tail, htail, hnext⟩ := loaded_some htailed hloaded
  have hkept : st'.st_block_buffer i = pl_block.prepared word ∧ (∀ a, st'.step_outbits a = false) ∧
      ∃ segment tail, st'.exec_segment = some segment ∧ st'.segments = segment :: tail := by
    obtain ⟨hexec, rfl⟩ | ⟨_, rfl⟩ := hnext
    · exact ⟨hprepared, fun _ => rfl, segment, tail, hexec, htail⟩
    · exact ⟨by simpa using hprepared, by simp, segment, tail, by simp, by simpa using htail⟩
  refine ⟨hkept.1, hkept.2.1, hkept.2.2, ?_⟩
  cases h with
  | waiting hnonempty before hindex hothers hsegments hnone =>
    have hnone' (a : axis) : pulses a + st.pulsed word i a .interrupt = 0 := by
      rw [hnone a, pulsed_interrupt word i st hawake, if_neg hindex]
    obtain ⟨_, rfl⟩ | ⟨_, rfl⟩ := hnext
    · exact absurd hindex' hindex
    · rw [begin_segment_exec_block_index] at hindex'
      have hqueue := hsegments
      rw [htail, List.cons_append] at hqueue
      cases before with
      | nil =>
        obtain ⟨first, later, rfl⟩ := List.exists_cons_of_ne_nil hnonempty
        rw [List.nil_append, List.map_cons, List.cons_append, List.cons.injEq] at hqueue
        obtain ⟨rfl, _⟩ := hqueue
        have hfirst := @Drawing.first _ word i pl_block after { st with step_outbits := fun _ => false } coming _
          hprepared hblock.holds hblock.steps_le first later hblock.total hindex (fun _ => rfl) hsegments hnone'
        exact ⟨_, 0, hfirst⟩
      | cons head before =>
        rw [List.cons_append, List.cons.injEq] at hqueue
        exact absurd (hqueue.1 ▸ hindex') (hothers head List.mem_cons_self)
  | drawing rest done hdrawing =>
    have hout := hdrawing.put_out
    simp only [pulsed_interrupt word i st hawake, if_pos hdrawing.index]
    obtain ⟨_, rfl⟩ | ⟨hidle, rfl⟩ := hnext
    · exact ⟨rest, done, hout⟩
    · rw [begin_segment_exec_block_index] at hindex'
      have hqueue := hdrawing.segments
      rw [htail, List.cons_append] at hqueue
      cases rest with
      | nil =>
        rw [List.map_nil, List.nil_append] at hqueue
        exact absurd hindex' (hblock.others segment (hqueue ▸ List.mem_cons_self))
      | cons cut later =>
        rw [List.map_cons, List.cons_append, List.cons.injEq] at hqueue
        obtain ⟨rfl, _⟩ := hqueue
        exact ⟨_, done, hout.next hprepared hblock.holds hblock.steps_le hidle⟩
  | finished hindex hothers _ =>
    obtain ⟨_, rfl⟩ | ⟨_, rfl⟩ := hnext
    · exact absurd hindex' hindex
    · rw [begin_segment_exec_block_index] at hindex'
      exact absurd hindex' (hothers segment (by simp [htail]))

/-- An interrupt takes every stage to a stage, with its pulses counted. -/
theorem Stage.interrupt (h : Stage i pl_block cuts after st coming pulses)
    (hblock : Block word i pl_block cuts after)
    (hprepared : st.st_block_buffer i = pl_block.prepared word) (htailed : st.Tailed) :
    Stage i pl_block cuts after (st.pulse_func word).1 coming
      (fun a => pulses a + st.pulsed word i a .interrupt) := by
  cases hloaded : st.loaded with
  | none =>
    obtain ⟨hasleep, hnext⟩ | ⟨hawake, hnext⟩ := pulse_func_of_idle word hloaded
    · have hsame (a : axis) : pulses a + st.pulsed word i a .interrupt = pulses a := by
        unfold pulsed pulse_func
        simp [hasleep]
      rw [hnext]
      simpa only [hsame] using h
    · rw [hnext]
      simp only [pulsed_interrupt word i st hawake]
      cases h with
      | waiting hnonempty before hindex hothers hsegments hnone =>
        exact .waiting hnonempty before hindex hothers hsegments (by simpa [hindex] using hnone)
      | drawing rest done hdrawing =>
        simp only [if_pos hdrawing.index]
        exact .drawing rest done { hdrawing.put_out with }
      | finished hindex hothers hexact =>
        exact .finished hindex hothers (by simpa [hindex] using hexact)
  | some st' =>
    rw [pulse_func_of_loaded word hloaded]
    by_cases hindex' : st'.exec_block_index = i
    · obtain ⟨hprepared', hoff, ⟨segment, tail, hexec, htail⟩, rest, done, hdrawing⟩ :=
        h.loaded hblock hprepared htailed hloaded hindex'
      obtain ⟨rest, done, hdrawn⟩ :=
        hdrawing.execute hprepared' hblock.holds hblock.steps_le hoff hexec htail
      exact .drawing rest done hdrawn
    · obtain ⟨hawake, segment, tail, htail, hnext⟩ := loaded_some htailed hloaded
      have hkept : st'.segments = segment :: tail ∧ segment.st_block_index = st'.exec_block_index := by
        obtain ⟨hexec, rfl⟩ | ⟨_, rfl⟩ := hnext
        · exact ⟨htail, (htailed segment hexec).1⟩
        · exact ⟨by simpa using htail, by simp⟩
      have hother := hkept.2.trans_ne hindex'
      have hqueue : st'.segments ++ coming = st.segments ++ coming := by rw [hkept.1, htail]
      cases h with
      | waiting hnonempty before hindex hothers hsegments hnone =>
        refine .before hnonempty hindex' hkept.1 hother hothers (hqueue.trans hsegments) ?_
        intro a
        rw [hnone a, pulsed_interrupt word i st hawake, if_neg hindex]
      | drawing rest done hdrawing =>
        obtain ⟨_, rfl⟩ | ⟨hidle, rfl⟩ := hnext
        · exact absurd hdrawing.index hindex'
        · have hsegments := hdrawing.segments
          cases rest with
          | nil =>
            rw [List.map_nil, List.nil_append] at hsegments
            refine .past hindex' hkept.1 (by rw [hqueue, hsegments]; exact hblock.others) ?_
            intro a
            rw [pulsed_interrupt word i st hawake, if_pos hdrawing.index]
            exact hdrawing.exact hidle a
          | cons cut later =>
            rw [htail, List.map_cons, List.cons_append, List.cons_append, List.cons.injEq] at hsegments
            exact absurd (by rw [hsegments.1, cut.segment_st_block_index]) hother
      | finished hindex hothers hexact =>
        refine .past hindex' hkept.1 (by rwa [hqueue]) ?_
        intro a
        rw [pulsed_interrupt word i st hawake, if_neg hindex]
        exact hexact a

/-- A move of the main task leaves the stage as it is, once what it adds is counted
among the segments that were to come. -/
theorem Stage.step (h : Stage i pl_block cuts after st (added [m] ++ coming) pulses)
    (hblock : Block word i pl_block cuts after)
    (hprepared : st.st_block_buffer i = pl_block.prepared word) (htailed : st.Tailed) :
    Stage i pl_block cuts after (st.step word m) coming
      (fun a => pulses a + st.pulsed word i a m) := by
  have hrest {st' : Stepper axis} (hindex : st'.exec_block_index = st.exec_block_index)
      (hqueue : st'.segments ++ coming = st.segments ++ (added [m] ++ coming))
      (hexec : st'.exec_segment = st.exec_segment) (hcount : st'.step_count = st.step_count)
      (hsteps : st'.steps = st.steps) (hcounter : st'.counter = st.counter)
      (houtbits : st'.step_outbits = st.step_outbits) :
      Stage i pl_block cuts after st' coming pulses := by
    cases h with
    | waiting hnonempty before hfresh hothers hsegments hnone =>
      exact .waiting hnonempty before (hindex ▸ hfresh) hothers (hqueue.trans hsegments) hnone
    | drawing rest done hdrawing =>
      refine .drawing rest done ⟨hdrawing.pos, hindex.trans hdrawing.index, hqueue.trans hdrawing.segments, ?_, ?_, ?_⟩
      · rw [hexec]
        exact hdrawing.idle
      · rw [hexec, hcount, hsteps]
        exact hdrawing.busy
      · rw [hcounter, houtbits]
        exact hdrawing.balanced
    | finished hfresh hothers hexact =>
      exact .finished (hindex ▸ hfresh) (by rwa [hqueue]) hexact
  cases m with
  | interrupt => exact Stage.interrupt h hblock hprepared htailed
  | wake_up => exact hrest rfl rfl rfl rfl rfl rfl rfl
  | block => exact hrest rfl rfl rfl rfl rfl rfl rfl
  | segment new =>
    refine hrest rfl ?_ rfl rfl rfl rfl rfl
    simp [Stepper.step, added]

/-- The data of a slot stays as long as no other block is put there. -/
theorem step_prepared (hprepared : st.st_block_buffer i = pl_block.prepared word) (htailed : st.Tailed)
    (hkept : ∀ b, m ≠ .block i b) : (st.step word m).st_block_buffer i = pl_block.prepared word := by
  cases m with
  | interrupt =>
    unfold step
    cases hloaded : st.loaded with
    | none =>
      obtain ⟨_, hnext⟩ | ⟨_, hnext⟩ := pulse_func_of_idle word hloaded
      · rwa [hnext]
      · rwa [hnext]
    | some st' =>
      rw [pulse_func_of_loaded word hloaded, execute_st_block_buffer]
      obtain ⟨_, _, _, _, ⟨_, rfl⟩ | ⟨_, rfl⟩⟩ := loaded_some htailed hloaded
      · exact hprepared
      · simpa using hprepared
  | wake_up => exact hprepared
  | block j b =>
    have hother : i ≠ j := fun hsame => hkept b (by rw [hsame])
    simp only [step, if_neg hother, hprepared]
  | segment => exact hprepared

/-- What the counters hold while the block is drawn. -/
theorem Stage.bounds (h : Stage i pl_block cuts after st coming pulses) (hblock : Block word i pl_block cuts after)
    (hprepared : st.st_block_buffer i = pl_block.prepared word) (htailed : st.Tailed)
    (hloaded : st.loaded = some st') (hindex' : st'.exec_block_index = i) (a : axis) :
    st'.exec_block.step_event_count = 8 * pl_block.step_event_count ∧
      st'.counter a + st'.steps a ≤ 16 * pl_block.step_event_count ∧
      (st'.execute word).counter a ≤ 8 * pl_block.step_event_count := by
  obtain ⟨hprepared', hoff, ⟨segment, tail, hexec, htail⟩, rest, done, hdrawing⟩ :=
    h.loaded hblock hprepared htailed hloaded hindex'
  refine ⟨?_, ?_, ?_⟩
  · unfold exec_block
    rw [hindex', hprepared', prepared_step_event_count hblock.holds]
  · have hcounter := (hdrawing.balanced a).le
    have hsteps := hdrawing.steps_le hblock.steps_le hexec a
    omega
  · obtain ⟨_, _, hdrawn⟩ := hdrawing.execute hprepared' hblock.holds hblock.steps_le hoff hexec htail
    exact (hdrawn.balanced a).le

/-- Along a run the block goes from stage to stage, every pulse is counted, and the
counters keep their bounds. -/
theorem Stage.run (hblock : Block word i pl_block cuts after) (moves : List (Move axis)) :
    ∀ (st : Stepper axis) (pulses : axis → Nat), Stage i pl_block cuts after st (added moves) pulses →
      st.st_block_buffer i = pl_block.prepared word → st.Tailed → (∀ b, Move.block i b ∉ moves) →
      Stage i pl_block cuts after (Transition.run (Stepper.step word) st moves) []
          (fun a => pulses a + st.pulses word i a moves) ∧
        Transition.Throughout (Stepper.step word) (PulsedOnce word i) st moves ∧
        (pl_block.step_event_count < 2 ^ 28 → Transition.Throughout (Stepper.step word) (NoOverflow i) st moves) := by
  induction moves with
  | nil =>
    intro st pulses h _ _ _
    exact ⟨h, trivial, fun _ => trivial⟩
  | cons m moves ih =>
    intro st pulses h hprepared htailed hkept
    have hadded : added (m :: moves) = added [m] ++ added moves := by
      unfold added
      rw [← List.filterMap_append, List.singleton_append]
    rw [hadded] at h
    have hnext := h.step hblock hprepared htailed
    have hkept' : ∀ b, m ≠ .block i b := fun b hsame => hkept b (hsame ▸ List.mem_cons_self)
    obtain ⟨hstage, honce, hfits⟩ := ih (st.step word m) _ hnext (step_prepared hprepared htailed hkept')
      (step_tailed word st m htailed) fun b hmem => hkept b (List.mem_cons_of_mem _ hmem)
    refine ⟨?_, ⟨?_, honce⟩, fun hsmall => ⟨?_, hfits hsmall⟩⟩
    · simpa [Stepper.pulses, Transition.trace, Nat.add_assoc] using hstage
    · intro a
      constructor
      · cases m with
        | interrupt =>
          unfold pulsed
          split_ifs
          · exact Bool.toNat_le _
          · exact Nat.zero_le _
        | _ => exact Nat.zero_le _
      · intro st' hinterrupt hloaded hindex'
        obtain ⟨hcount, _, hcounter⟩ := h.bounds hblock hprepared htailed hloaded hindex' a
        rwa [hcount]
    · intro st' hinterrupt hloaded hindex' a
      obtain ⟨hcount, hsum, _⟩ := h.bounds hblock hprepared htailed hloaded hindex' a
      omega

/-- A block that nothing of is left has had all its pulses. -/
theorem Stage.pulses_of_drained (h : Stage i pl_block cuts after st [] pulses) (hdrained : st.Drained i)
    (htailed : st.Tailed) (a : axis) : pulses a = pl_block.steps a := by
  cases h with
  | waiting hnonempty before hindex hothers hsegments hnone =>
    obtain ⟨first, later, rfl⟩ := List.exists_cons_of_ne_nil hnonempty
    rw [List.append_nil] at hsegments
    exact absurd (first.segment_st_block_index i) (hdrained.segments _ (by simp [hsegments]))
  | drawing rest done hdrawing =>
    have hsegments := hdrawing.segments
    rw [List.append_nil] at hsegments
    cases rest with
    | nil =>
      have hidle : st.exec_segment = none := by
        rw [Option.eq_none_iff_forall_ne_some]
        intro segment hexec
        obtain ⟨hindex, tail, htail⟩ := htailed segment hexec
        exact hdrained.segments segment (by simp [htail]) (hindex.trans hdrawing.index)
      have hexact := hdrawing.exact hidle a
      rw [hdrained.outbits hdrawing.index a] at hexact
      exact hexact
    | cons cut later =>
      exact absurd (cut.segment_st_block_index i) (hdrained.segments _ (by simp [hsegments]))
  | finished _ _ hexact => exact hexact a

end Block

/-- The step interrupt draws a block exactly, however `prep_buffer` cuts it up and
whatever else the two do meanwhile, in arithmetic without a bound and, for blocks
of less than `2 ^ 28` steps, in that of the source. -/
theorem block_is_drawn_exactly (word i : Nat) (pl_block : StBlock axis) (cuts : List Cut)
    (st_block_buffer : Nat → StBlock axis) (history moves : List (Move axis))
    (hword : word = 0 ∨ (word = 2 ^ 32 ∧ pl_block.step_event_count < 2 ^ 28))
    (hsteps : ∀ a, pl_block.steps a ≤ pl_block.step_event_count) :
    let st := Transition.run (step word) (reset st_block_buffer) history
    CutInto word i pl_block cuts st moves → (Transition.run (step word) st moves).Drained i →
      (∀ a, st.pulses word i a moves = pl_block.steps a) ∧
        Transition.Throughout (step word) (PulsedOnce word i) st moves ∧
        (pl_block.step_event_count < 2 ^ 28 → Transition.Throughout (step word) (NoOverflow i) st moves) := by
  intro st hcut hdrained
  have hstep : ∀ st (m : Move axis), Tailed st → (st.step word m).Tailed := step_tailed word
  have htailed : st.Tailed :=
    (Transition.always_of_step hstep (reset_tailed st_block_buffer) history).last
  have hholds : Holds word pl_block := by
    intro n hn
    obtain rfl | ⟨rfl, hsmall⟩ := hword
    · exact Nat.mod_zero n
    · exact Nat.mod_eq_of_lt (by omega)
  obtain ⟨before, after, hothers, hsegments⟩ := hcut.segments
  rw [List.append_assoc] at hsegments
  have hblock : Block word i pl_block cuts after :=
    { holds := hholds
      steps_le := hsteps
      total := hcut.total
      others := fun segment hmem => hothers segment (List.mem_append_right _ hmem) }
  have hstage : Stage i pl_block cuts after st (added moves) fun _ => 0 := by
    cases cuts with
    | nil =>
      have hempty : pl_block.step_event_count = 0 := hcut.total.symm
      refine .finished hcut.fresh ?_ fun a => ?_
      · rw [hsegments]
        exact hothers
      · have hnone := hsteps a
        omega
    | cons first later =>
      exact .waiting (List.cons_ne_nil _ _) before hcut.fresh
        (fun segment hmem => hothers segment (List.mem_append_left _ hmem)) hsegments fun _ => rfl
  obtain ⟨hend, honce, hfits⟩ := Stage.run hblock moves st _ hstage hcut.prepared htailed hcut.kept
  refine ⟨fun a => ?_, honce, hfits⟩
  have htailed' := (Transition.always_of_step hstep htailed moves).last
  have hexact := hend.pulses_of_drained hdrained htailed' a
  rwa [Nat.zero_add] at hexact

/-- Two steps of one axis to one of the other. -/
private def slant : StBlock (Fin 2) where
  steps a := if a = 0 then 2 else 1
  step_event_count := 2
  direction_bits := 0

/-- The first of them smoothed, the second not. -/
private def slantCuts : List Cut :=
  [{ count := 1, level := 1, isrPeriod := 20000, pos := by decide, level_le := by decide, fits := by decide },
    { count := 1, level := 0, isrPeriod := 2000, pos := by decide, level_le := by decide, fits := by decide }]

private def slantMoves : List (Move (Fin 2)) :=
  slantCuts.map (fun cut => .segment (cut.segment 1)) ++ [.interrupt, .interrupt, .interrupt, .interrupt]

theorem slant_is_drawn_exactly :
    let st := Transition.run (step (2 ^ 32)) (reset fun _ => slant) [.block 1 slant, .wake_up]
    (∀ a, st.pulses (2 ^ 32) 1 a slantMoves = slant.steps a) ∧
      Transition.Throughout (step (2 ^ 32)) (PulsedOnce (2 ^ 32) 1) st slantMoves ∧
      (slant.step_event_count < 2 ^ 28 → Transition.Throughout (step (2 ^ 32)) (NoOverflow 1) st slantMoves) :=
  block_is_drawn_exactly (2 ^ 32) 1 slant slantCuts _ [.block 1 slant, .wake_up] slantMoves
    (.inr ⟨rfl, by decide⟩) (by decide)
    { prepared := rfl
      kept := by simp [slantMoves, slantCuts]
      fresh := by decide
      total := rfl
      segments := ⟨[], [], by simp, rfl⟩ }
    { segments := by decide
      outbits := by decide }

end Stepper

end DuneWeaver
