import DuneWeaver.Homing.Runs

namespace DuneWeaver.Homing

variable {ρ : Type} {axes : Axes ρ} {k : Kinematics} {unhomed : AxisMask} {m : Machine ρ} {c : Course}

/-- The kinematics stops the motion when an axis drops out, and lets none go on once all switches are active. -/
structure Kinematics.Lawful (k : Kinematics) : Prop where
  stops : ∀ axisMask motors limited,
    (k.limitReached axisMask motors limited).1 ≠ axisMask → (k.limitReached axisMask motors limited).2.2 = true
  all : ∀ axisMask motors, (k.limitReached axisMask motors (BitVec.allOnes 32)).1 = 0

theorem cartesian_lawful : Cartesian.Lawful where
  stops _ _ _ h := decide_eq_true h
  all axisMask motors := by
    change motors_to_axes (motors &&& ~~~BitVec.allOnes 32) = 0
    rw [BitVec.not_allOnes, BitVec.and_zero]
    rfl

theorem coreXY_lawful (homingMask : AxisMask) : (CoreXY homingMask).Lawful where
  stops axisMask _ limited h := by
    refine decide_eq_true fun hnone => h ?_
    change axisMask &&& ~~~limited.setWidth 16 = axisMask
    refine BitVec.eq_of_getLsbD_eq fun i hi => ?_
    have hbit := congrArg (fun mask => BitVec.getLsbD mask i) hnone
    simp only [BitVec.getLsbD_and, BitVec.getLsbD_not, hi] at hbit ⊢
    cases haxis : axisMask.getLsbD i with
    | false => rfl
    | true =>
      have hclear : limited.getLsbD i = false := by simpa [hi, haxis] using hbit
      simp [hi, hclear]
  all axisMask motors := by
    change axisMask &&& ~~~(BitVec.allOnes 32).setWidth 16 = 0
    rw [show (BitVec.allOnes 32).setWidth 16 = BitVec.allOnes 16 from rfl, BitVec.not_allOnes, BitVec.and_zero]
    rfl

/-- The axis is homed, or some cycle that is still to come has it. -/
def Planned (axes : Axes ρ) (m : Machine ρ) (axis : Nat) : Prop :=
  m.unhomed_axes.getLsbD axis = false ∨ ∃ cycle ∈ m.remainingCycles, (cycle &&& axes.homingMask).getLsbD axis = true

/-- The axis is homed, or it is one of the cycle under way or of one still to come. -/
def Due (axes : Axes ρ) (m : Machine ρ) (axis : Nat) : Prop := m.cycleAxes.getLsbD axis = true ∨ Planned axes m axis

/-- The machine is homing, and some cycle is under way. -/
structure Alive (axes : Axes ρ) (m : Machine ρ) : Prop where
  state : m.state = .Homing
  abort : m.abort = false
  current : m.journal.current ≠ none
  approach : m.phase.approach = true → m.phaseAxes ≠ 0
  some : m.cycleAxes ≠ 0
  cycleAxes : ∀ axis, m.cycleAxes.getLsbD axis = true → axes.homingMask.getLsbD axis = true

/-- Homing has ended, and all axes that were due are homed. -/
structure Ended (axes : Axes ρ) (due : Nat → Prop) (m : Machine ρ) : Prop where
  state : m.state = .Idle ∨ m.state = .Alarm
  abort : m.abort = false
  cycles : m.remainingCycles = []
  homed : ∀ axis, due axis → m.unhomed_axes.getLsbD axis = false

theorem axesWith_mem {p : Axis ρ → Bool} {axis : Nat} (h : (axes.axesWith p).getLsbD axis = true) :
    ∃ a, (a, axis) ∈ axes.axis.zipIdx ∧ p a = true := by
  have hloop : ∀ (l : List (Axis ρ × Nat)) (mask : AxisMask),
      (l.foldl (fun mask a => if p a.1 then mask ||| bitnum_to_mask a.2 else mask) mask).getLsbD axis = true →
      mask.getLsbD axis = true ∨ ∃ a, (a, axis) ∈ l ∧ p a = true := by
    intro l
    induction l with
    | nil => exact fun mask h => .inl h
    | cons a l ih =>
      intro mask h
      rw [List.foldl_cons] at h
      rcases ih _ h with h | ⟨a', hmem, ha'⟩
      · split_ifs at h with ha
        · rw [BitVec.getLsbD_or, bitnum_to_mask, BitVec.getLsbD_twoPow, Bool.or_eq_true] at h
          rcases h with h | h
          · exact .inl h
          · rw [Bool.and_eq_true] at h
            have hsame : a.2 = axis := of_decide_eq_true h.2
            exact .inr ⟨a.1, hsame ▸ List.mem_cons_self, ha⟩
        · exact .inl h
      · exact .inr ⟨a', List.mem_cons_of_mem _ hmem, ha'⟩
  rcases hloop _ 0 h with h | h
  · simp at h
  · exact h

theorem homeAxis_clear (a : Axis ρ × Nat) {axis : Nat} (h : m.unhomed_axes.getLsbD axis = false) :
    (m.homeAxis a).unhomed_axes.getLsbD axis = false := by
  unfold Machine.homeAxis
  split
  · split
    · change (m.unhomed_axes &&& ~~~bitnum_to_mask a.2).getLsbD axis = false
      rw [BitVec.getLsbD_and, h, Bool.false_and]
    · exact h
  · exact h

/-- What is homed stays homed, and the axes of the cycle are now. -/
theorem set_mpos_homed {axis : Nat}
    (h : m.unhomed_axes.getLsbD axis = false ∨
      m.cycleAxes.getLsbD axis = true ∧ axes.homingMask.getLsbD axis = true) :
    (m.set_mpos axes).unhomed_axes.getLsbD axis = false := by
  have hclear : ∀ (l : List (Axis ρ × Nat)) (m : Machine ρ), m.unhomed_axes.getLsbD axis = false →
      (l.foldl Machine.homeAxis m).unhomed_axes.getLsbD axis = false := by
    intro l
    induction l with
    | nil => exact fun m h => h
    | cons a l ih => exact fun m h => ih _ (homeAxis_clear a h)
  have hloop : ∀ (l : List (Axis ρ × Nat)) (m : Machine ρ), m.cycleAxes.getLsbD axis = true →
      (∃ a : Axis ρ, (a, axis) ∈ l ∧ a.homing.isSome = true) →
      (l.foldl Machine.homeAxis m).unhomed_axes.getLsbD axis = false := by
    intro l
    induction l with
    | nil => exact fun m _ ⟨_, hmem, _⟩ => absurd hmem List.not_mem_nil
    | cons a l ih =>
      rintro m hcycle ⟨a', hmem, hhoming⟩
      rw [List.foldl_cons]
      rcases List.mem_cons.mp hmem with rfl | hmem
      · apply hclear
        obtain ⟨homing, hsome⟩ := Option.isSome_iff_exists.mp hhoming
        unfold Machine.homeAxis
        rw [hsome]
        dsimp only
        rw [if_pos hcycle]
        change (m.unhomed_axes &&& ~~~bitnum_to_mask axis).getLsbD axis = false
        rw [BitVec.getLsbD_and, BitVec.getLsbD_not, bitnum_to_mask, BitVec.getLsbD_twoPow]
        simp
      · obtain ⟨unhomed_axes, mpos, ha⟩ := Machine.homeAxis_eq m a
        exact ih _ (by rw [ha]; exact hcycle) ⟨a', hmem, hhoming⟩
  rcases h with h | ⟨hcycle, hhoming⟩
  · exact hclear _ _ h
  · obtain ⟨a, hmem, ha⟩ := axesWith_mem hhoming
    refine hloop _ _ hcycle ⟨a, hmem, ?_⟩
    cases hsome : a.homing with
    | none => rw [hsome] at ha; cases ha
    | some homing => rfl

/-- No motors are asked where there are no axes. -/
theorem set_homing_mode_zero : axes.set_homing_mode 0 = 0 := by
  have hloop : ∀ (l : List (Axis ρ × Nat)) (mask : MotorMask), l.foldl (fun mask a =>
      if (0 : AxisMask).getLsbD a.2 then
        a.1.motors.zipIdx.foldl (fun mask motor =>
          if motor.1 = some true then mask ||| BitVec.twoPow 32 (motor_bit a.2 motor.2) else mask) mask
      else mask) mask = mask := by
    intro l
    induction l with
    | nil => exact fun _ => rfl
    | cons a l ih =>
      intro mask
      rw [List.foldl_cons, if_neg (by simp)]
      exact ih mask
  exact hloop _ 0

/-- A move has been begun: the cycle is under way. -/
theorem Alive.of_move (hstate : m.state = .Homing) (habort : m.abort = false) (hcurrent : m.journal.current ≠ none)
    (hsome : m.cycleAxes ≠ 0)
    (hcycle : ∀ axis, m.cycleAxes.getLsbD axis = true → axes.homingMask.getLsbD axis = true) :
    Alive axes m.beginPhase.startMove where
  state := hstate
  abort := habort
  current := by
    rw [journal_startMove]
    exact fun hnone => hcurrent (Option.map_eq_none_iff.mp hnone)
  approach := fun _ => hsome
  some := hsome
  cycleAxes := hcycle

/-- What comes of `nextCycle` where there has been no reset. -/
theorem nextCycle_outcome (axes : Axes ρ) (hstate : m.state = .Homing) (habort : m.abort = false) :
    Ended axes (Planned axes m) (m.nextCycle axes) ∨
      Alive axes (m.nextCycle axes) ∧ (∀ axis, Planned axes m axis → Due axes (m.nextCycle axes) axis) ∧
        (m.nextCycle axes).remainingCycles.length < m.remainingCycles.length := by
  obtain ⟨l, hl⟩ : ∃ l, m.remainingCycles = l := ⟨_, rfl⟩
  induction l generalizing m with
  | nil =>
    refine .inl ?_
    rw [Machine.nextCycle, if_neg (by rw [hstate]; decide)]
    split
    · rw [Machine.done, if_neg (by rw [habort]; decide)]
      refine ⟨?_, habort, hl, ?_⟩
      · dsimp only
        split_ifs
        · exact .inr rfl
        · exact .inl rfl
      · rintro axis (h | ⟨cycle, hcycle, -⟩)
        · exact h
        · rw [hl] at hcycle
          exact absurd hcycle List.not_mem_nil
    next hcons => rw [hl] at hcons; cases hcons
  | cons cycle rest ih =>
    have hdue : ∀ axis, Planned axes m axis → m.unhomed_axes.getLsbD axis = false ∨
        (cycle &&& axes.homingMask).getLsbD axis = true ∨
        ∃ cycle ∈ rest, (cycle &&& axes.homingMask).getLsbD axis = true := by
      rintro axis (h | ⟨cycle', hmem, haxis⟩)
      · exact .inl h
      · rw [hl] at hmem
        rcases List.mem_cons.mp hmem with rfl | hmem
        · exact .inr (.inl haxis)
        · exact .inr (.inr ⟨cycle', hmem, haxis⟩)
    have hmask : ∀ axis, (cycle &&& axes.homingMask).getLsbD axis = true → axes.homingMask.getLsbD axis = true := by
      intro axis h
      rw [BitVec.getLsbD_and, Bool.and_eq_true] at h
      exact h.2
    rw [Machine.nextCycle, if_neg (by rw [hstate]; decide)]
    split
    next hnil => rw [hl] at hnil; cases hnil
    next hcons =>
      rw [hl] at hcons
      cases hcons
      by_cases hmotors : (m.popCycle axes cycle rest).cycleMotors = 0
      · rw [Machine.runPhase, if_pos hmotors, Machine.nextPhase, if_neg (by intro h; cases h),
          Machine.advance_pulloff2 _ rfl, if_pos (.inl rfl)]
        obtain ⟨unhomed_axes, mpos, heq⟩ := Machine.set_mpos_eq axes (Machine.report
          { (m.popCycle axes cycle rest).beginPhase with phase := .CycleDone } (.nextPhase .CycleDone))
        have hplanned : ∀ axis, Planned axes m axis → Planned axes (Machine.set_mpos axes (Machine.report
            { (m.popCycle axes cycle rest).beginPhase with phase := .CycleDone } (.nextPhase .CycleDone))) axis := by
          intro axis haxis
          rcases hdue axis haxis with h | h | h
          · exact .inl (set_mpos_homed (.inl h))
          · exact .inl (set_mpos_homed (.inr ⟨h, hmask axis h⟩))
          · refine .inr ?_
            rw [heq]
            exact h
        have hrest := ih (m := Machine.set_mpos axes (Machine.report
          { (m.popCycle axes cycle rest).beginPhase with phase := .CycleDone } (.nextPhase .CycleDone)))
          (by rw [heq]; exact hstate) (by rw [heq]; exact habort) (by rw [heq]; rfl)
        rcases hrest with hended | ⟨halive, hrest, hless⟩
        · exact .inl ⟨hended.state, hended.abort, hended.cycles, fun axis haxis =>
            hended.homed axis (hplanned axis haxis)⟩
        · refine .inr ⟨halive, fun axis haxis => hrest axis (hplanned axis haxis), hless.trans ?_⟩
          rw [heq, hl]
          exact Nat.lt_succ_self _
      · refine .inr ?_
        have hsome : (m.popCycle axes cycle rest).cycleAxes ≠ 0 := by
          intro hzero
          apply hmotors
          change axes.set_homing_mode (cycle &&& axes.homingMask) = 0
          rw [show cycle &&& axes.homingMask = 0 from hzero, set_homing_mode_zero]
        have hcurrent : (m.popCycle axes cycle rest).journal.current ≠ none := by
          rw [popCycle_journal]
          intro h
          cases h
        have hnext : ∀ axis, Planned axes m axis → (cycle &&& axes.homingMask).getLsbD axis = true ∨
            m.unhomed_axes.getLsbD axis = false ∨ ∃ cycle ∈ rest, (cycle &&& axes.homingMask).getLsbD axis = true := by
          intro axis haxis
          rcases hdue axis haxis with h | h | h
          · exact .inr (.inl h)
          · exact .inl h
          · exact .inr (.inr h)
        have hless : rest.length < m.remainingCycles.length := by
          rw [hl]
          exact Nat.lt_succ_self _
        by_cases hpre : (m.popCycle axes cycle rest).phase = .PrePulloff ∧
            (m.popCycle axes cycle rest).limited &&& (m.popCycle axes cycle rest).cycleMotors = 0
        · rw [Machine.runPhase, if_neg hmotors, if_pos hpre]
          have hgoes : ¬ (m.popCycle axes cycle rest).beginPhase.advance.cycleOver axes := by
            rw [advance_succ (by intro h; cases h) (by intro h; cases h)]
            rintro (h | ⟨h, -⟩) <;> cases h
          obtain ⟨phase, runs, -, hmove⟩ := nextPhase_move (m := (m.popCycle axes cycle rest).beginPhase) hmotors
            ⟨(by intro h; cases h), (by intro h; cases h)⟩ hgoes
          rw [hmove]
          refine ⟨.of_move hstate habort ?_ hsome hmask, hnext, hless⟩
          rw [journal_report]
          change ((m.popCycle axes cycle rest).journal.read (.nextPhase phase)).current ≠ none
          rw [Journal.read, popCycle_journal]
          intro h
          cases h
        · rw [runPhase_move hmotors hpre]
          exact ⟨.of_move hstate habort hcurrent hsome hmask, hnext, hless⟩

/-- How many phases of the cycle are left. -/
def Machine.phasesLeft (axes : Axes ρ) (m : Machine ρ) : Nat :=
  (todo (axes.needsPulloff2 m.cycleMotors) m.phase m.runs.toNat).length

/-- Homing goes on: a cycle is under way, and fewer phases or cycles are left. -/
structure GoesOn (axes : Axes ρ) (m m' : Machine ρ) : Prop where
  alive : Alive axes m'
  due : ∀ axis, Due axes m axis → Due axes m' axis
  less : m'.remainingCycles.length < m.remainingCycles.length ∨
    m'.remainingCycles.length = m.remainingCycles.length ∧ m'.phasesLeft axes < m.phasesLeft axes

/-- What comes of `nextPhase` where there has been no reset. -/
theorem nextPhase_outcome (hstate : m.state = .Homing) (habort : m.abort = false)
    (hcurrent : m.journal.current ≠ none) (hsome : m.cycleAxes ≠ 0)
    (hcycle : ∀ axis, m.cycleAxes.getLsbD axis = true → axes.homingMask.getLsbD axis = true)
    (hmotors : m.cycleMotors ≠ 0) (hcounts : m.Counts axes) :
    Ended axes (Due axes m) (m.nextPhase axes) ∨ GoesOn axes m (m.nextPhase axes) := by
  have hphase : m.phase ≠ .CycleDone ∧ m.phase ≠ .None := by
    constructor <;> intro hphase <;> rw [Machine.Counts, hphase] at hcounts <;> exact hcounts
  obtain ⟨htodo, -, -⟩ := todo_advance hcounts
  by_cases hgoes : m.advance.cycleOver axes
  · obtain ⟨phase, runs, hadvance⟩ := m.advance_eq
    rw [Machine.nextPhase, if_neg hphase.1, if_pos hgoes, hadvance]
    obtain ⟨unhomed_axes, mpos, heq⟩ :=
      Machine.set_mpos_eq axes (Machine.report { m with phase, runs } (.nextPhase phase))
    have hplanned : ∀ axis, Due axes m axis →
        Planned axes (Machine.set_mpos axes (Machine.report { m with phase, runs } (.nextPhase phase))) axis := by
      rintro axis (h | h | h)
      · exact .inl (set_mpos_homed (.inr ⟨h, hcycle axis h⟩))
      · exact .inl (set_mpos_homed (.inl h))
      · refine .inr ?_
        rw [heq]
        exact h
    have hrest :=
      nextCycle_outcome axes (m := Machine.set_mpos axes (Machine.report { m with phase, runs } (.nextPhase phase)))
      (by rw [heq]; exact hstate) (by rw [heq]; exact habort)
    rcases hrest with hended | ⟨halive, hrest, hless⟩
    · exact .inl ⟨hended.state, hended.abort, hended.cycles, fun axis haxis => hended.homed axis (hplanned axis haxis)⟩
    · refine .inr ⟨halive, fun axis haxis => hrest axis (hplanned axis haxis), .inl ?_⟩
      rw [Machine.set_mpos_remainingCycles] at hless
      exact hless
  · obtain ⟨phase, runs, hadvance, hmove⟩ := nextPhase_move hmotors hphase hgoes
    refine .inr ⟨?_, ?_, .inr ⟨?_, ?_⟩⟩
    · rw [hmove]
      refine .of_move hstate habort ?_ hsome hcycle
      rw [journal_report]
      change (m.journal.read (.nextPhase phase)).current ≠ none
      rw [Journal.read]
      simpa using hcurrent
    · rw [hmove]
      exact fun _ haxis => haxis
    · rw [hmove]
      rfl
    · rw [hmove, Machine.phasesLeft, Machine.phasesLeft, htodo, hadvance]
      exact Nat.lt_succ_self _

/-- The events that bring the phase the machine is in to its end: all switches are reached, or the
motors come to rest off all of them. -/
def Machine.drive (m : Machine ρ) : List Event :=
  if m.phase.approach then [.switches (BitVec.allOnes 32) 0, .limit] else [.switches 0 0, .cycleStop]

/-- Each phase can be brought to its end. -/
theorem drive_outcome (hk : k.Lawful) (hinv : Inv axes k unhomed m)
    (h : Alive axes m) :
    Ended axes (Due axes m) (Transition.run (Machine.handle axes k) m m.drive) ∨
      GoesOn axes m (Transition.run (Machine.handle axes k) m m.drive) := by
  obtain ⟨c, hcurrent⟩ := Option.ne_none_iff_exists'.mp h.current
  obtain ⟨hunder, hpending⟩ := hinv.current c hcurrent
  have hmotors : m.cycleMotors ≠ 0 := hunder.cycleMotors ▸ hunder.moves
  unfold Machine.drive
  cases happroach : m.phase.approach with
  | true =>
    have hrun : Transition.run (Machine.handle axes k) m [.switches (BitVec.allOnes 32) 0, .limit] =
        Machine.nextPhase axes { Machine.report { m with posLimitMask := BitVec.allOnes 32, negLimitMask := 0 }
            (.limited (BitVec.allOnes 32)) with
          phaseAxes := 0, phaseMotors := (k.limitReached m.phaseAxes m.phaseMotors (BitVec.allOnes 32)).2.1 } := by
      have hall := hk.all m.phaseAxes m.phaseMotors
      have hstop :=
        hk.stops m.phaseAxes m.phaseMotors (BitVec.allOnes 32) (by rw [hall]; exact (h.approach happroach).symm)
      have hlimited : Machine.limited { m with posLimitMask := BitVec.allOnes 32, negLimitMask := 0 } =
          BitVec.allOnes 32 :=
        BitVec.or_zero
      change Machine.handle axes k { m with posLimitMask := BitVec.allOnes 32, negLimitMask := 0 } .limit = _
      rw [Machine.handle, if_pos h.state, Machine.limitReached, if_pos happroach]
      dsimp only
      rw [hlimited, if_pos hstop, hall, if_neg (by simp)]
    rw [if_pos rfl, hrun]
    refine (nextPhase_outcome (m := { Machine.report { m with posLimitMask := BitVec.allOnes 32, negLimitMask := 0 }
        (.limited (BitVec.allOnes 32)) with
      phaseAxes := 0, phaseMotors := (k.limitReached m.phaseAxes m.phaseMotors (BitVec.allOnes 32)).2.1 })
      h.state h.abort ?_ h.some h.cycleAxes hmotors hunder.counts).imp id fun h => ⟨h.alive, h.due, h.less⟩
    change (Machine.report { m with posLimitMask := BitVec.allOnes 32, negLimitMask := 0 }
      (.limited (BitVec.allOnes 32))).journal.current ≠ none
    rw [journal_report]
    change (m.journal.read (.limited (BitVec.allOnes 32))).current ≠ none
    rw [Journal.read]
    simpa using h.current
  | false =>
    have hrun : Transition.run (Machine.handle axes k) m [.switches 0 0, .cycleStop] =
        Machine.nextPhase axes { Machine.report { m with posLimitMask := 0, negLimitMask := 0 } (.CycleStop 0) with
          phaseMotors := 0 } := by
      have hlimited : Machine.limited { m with posLimitMask := 0, negLimitMask := 0 } = 0 := BitVec.or_zero
      change Machine.handle axes k { m with posLimitMask := 0, negLimitMask := 0 } .cycleStop = _
      rw [Machine.handle, if_pos h.state, Machine.cycleStop, hlimited]
      rw [if_neg (by rw [Machine.report]; simpa using happroach), if_neg]
      rw [not_not, Machine.limited]
      simp [Machine.report]
    rw [if_neg (by decide), hrun]
    refine (nextPhase_outcome (m := { Machine.report { m with posLimitMask := 0, negLimitMask := 0 } (.CycleStop 0) with
      phaseMotors := 0 }) h.state h.abort ?_ h.some h.cycleAxes hmotors hunder.counts).imp id
      fun h => ⟨h.alive, h.due, h.less⟩
    change (Machine.report { m with posLimitMask := 0, negLimitMask := 0 } (.CycleStop 0)).journal.current ≠ none
    rw [journal_report]
    change (m.journal.read (.CycleStop 0)).current ≠ none
    rw [Journal.read]
    simpa using h.current

/-- Without a reset a machine that is homing has a cycle under way. -/
structure Live (axes : Axes ρ) (m : Machine ρ) : Prop where
  abort : m.abort = false
  homing : m.state = .Homing → Alive axes m

theorem Live.of_left (habort : m.abort = false) (hstate : m.state ≠ .Homing) : Live axes m :=
  ⟨habort, fun h => absurd h hstate⟩

theorem Live.of_outcome {m' : Machine ρ} {due : Nat → Prop} (habort : m'.abort = false)
    (h : Ended axes due m' ∨ Alive axes m') : Live axes m' := by
  refine ⟨habort, fun hstate => ?_⟩
  rcases h with h | h
  · rcases h.state with hleft | hleft <;> rw [hleft] at hstate <;> cases hstate
  · exact h

theorem Live.of_goesOn {m' : Machine ρ} {due : Nat → Prop} (h : Ended axes due m' ∨ GoesOn axes m m') : Live axes m' :=
  .of_outcome (h.elim Ended.abort fun h => h.alive.abort) (h.imp id GoesOn.alive)

/-- What is not the state, the phase or the axes may change, and the journal may go on. -/
theorem Alive.of_eq {m' : Machine ρ} (h : Alive axes m)
    (hvariables : (m'.state, m'.abort, m'.phase, m'.cycleAxes) = (m.state, m.abort, m.phase, m.cycleAxes))
    (hcurrent : m'.journal.current ≠ none) (happroach : m.phase.approach = true → m'.phaseAxes ≠ 0) :
    Alive axes m' := by
  obtain ⟨hstate, habort, hphase, haxes⟩ : _ ∧ _ ∧ _ ∧ _ := by simpa only [Prod.mk.injEq] using hvariables
  exact ⟨hstate.trans h.state, habort.trans h.abort, hcurrent, fun hyes => happroach (hphase ▸ hyes), haxes ▸ h.some,
    haxes ▸ h.cycleAxes⟩

theorem report_current {r : Report} (h : m.journal.current ≠ none) (hr : ∀ axisMask, r ≠ .Homed axisMask) :
    (m.report r).journal.current ≠ none := by
  rw [journal_report]
  cases r with
  | Homed axisMask => exact absurd rfl (hr axisMask)
  | HomingCycle axisMask motors =>
    intro h
    cases h
  | alarm => exact h
  | move | nextPhase | limited | CycleStop =>
    rw [Journal.read]
    simpa using h

theorem Live.limit (hk : k.Lawful) (hinv : Inv axes k unhomed m) (h : Live axes m) :
    Live axes (m.handle axes k .limit) := by
  rw [Machine.handle]
  split_ifs with hstate
  · have halive := h.homing hstate
    rw [Machine.limitReached]
    split_ifs with happroach
    · have hcurrent : (m.report (.limited m.limited)).journal.current ≠ none :=
        report_current halive.current (by intro _ h; cases h)
      obtain ⟨c, hsome⟩ := Option.ne_none_iff_exists'.mp halive.current
      obtain ⟨hunder, -⟩ := hinv.current c hsome
      dsimp only
      split_ifs with hstop hmore
      · refine ⟨h.abort, fun _ => halive.of_eq rfl ?_ fun _ => hmore⟩
        exact report_current (m := { m.report (.limited m.limited) with
          phaseAxes := (k.limitReached m.phaseAxes m.phaseMotors m.limited).1
          phaseMotors := (k.limitReached m.phaseAxes m.phaseMotors m.limited).2.1 }) hcurrent (by intro _ h; cases h)
      · exact .of_goesOn (nextPhase_outcome (m := { m.report (.limited m.limited) with
          phaseAxes := (k.limitReached m.phaseAxes m.phaseMotors m.limited).1
          phaseMotors := (k.limitReached m.phaseAxes m.phaseMotors m.limited).2.1 }) hstate h.abort hcurrent
          halive.some halive.cycleAxes (hunder.cycleMotors ▸ hunder.moves) hunder.counts)
      · have hsame : (k.limitReached m.phaseAxes m.phaseMotors m.limited).1 = m.phaseAxes :=
          not_not.mp fun hne => hstop (hk.stops _ _ _ hne)
        refine ⟨h.abort, fun _ => halive.of_eq rfl hcurrent fun _ => ?_⟩
        change (k.limitReached m.phaseAxes m.phaseMotors m.limited).1 ≠ 0
        rw [hsame]
        exact halive.approach happroach
    · exact h
  · exact h

theorem Live.cycleStop (hinv : Inv axes k unhomed m) (h : Live axes m) : Live axes (m.handle axes k .cycleStop) := by
  rw [Machine.handle]
  split_ifs with hstate
  · have halive := h.homing hstate
    have hcurrent : (m.report (.CycleStop m.limited)).journal.current ≠ none :=
      report_current halive.current (by intro _ h; cases h)
    obtain ⟨c, hsome⟩ := Option.ne_none_iff_exists'.mp halive.current
    obtain ⟨hunder, -⟩ := hinv.current c hsome
    have hfail : ∀ alarm, Live axes ((m.report (.CycleStop m.limited)).fail alarm) := fun alarm =>
      ⟨h.abort, fun _ => halive.of_eq rfl (report_current hcurrent (by intro _ h; cases h)) halive.approach⟩
    rw [Machine.cycleStop]
    split_ifs
    · exact hfail _
    · exact hfail _
    · exact .of_goesOn (nextPhase_outcome (m := { m.report (.CycleStop m.limited) with phaseMotors := 0 }) hstate
        h.abort hcurrent halive.some halive.cycleAxes (hunder.cycleMotors ▸ hunder.moves) hunder.counts)
  · exact h

theorem Live.home (h : Live axes m) (axisMask : AxisMask) : Live axes (m.handle axes k (.home axisMask)) := by
  rw [Machine.handle]
  split_ifs with hstate
  · exact h
  · rw [Machine.run_cycles]
    split_ifs
    · exact h
    · obtain ⟨mpos, hset⟩ := setMposOnly_eq axes.axis.zipIdx axisMask m
      generalize Machine.setMposOnly axes.axis.zipIdx axisMask m = r at hset
      obtain ⟨m', rest⟩ := r
      obtain rfl : m' = { m with mpos } := hset
      cases rest with
      | none => exact .of_left h.abort hstate
      | some axisMask =>
        dsimp only
        split_ifs
        · exact .of_left h.abort (by intro h; cases h)
        · have hnext := nextCycle_outcome axes (m := { m with
            mpos, remainingCycles := Machine.cyclesOf axes axisMask, state := .Homing }) rfl h.abort
          exact .of_outcome (hnext.elim Ended.abort fun hgoes => hgoes.1.abort) (hnext.imp id And.left)
    · exact .of_left h.abort (by intro h; cases h)

/-- Every event but a reset keeps a cycle under way while the machine is homing. -/
theorem Live.handle (hk : k.Lawful) (hinv : Inv axes k unhomed m) (h : Live axes m)
    (e : Event) (hreset : e ≠ .rtReset) : Live axes (m.handle axes k e) := by
  cases e with
  | rtReset => exact absurd rfl hreset
  | switches pos neg =>
    exact ⟨h.abort, fun hstate => (h.homing hstate).of_eq rfl (h.homing hstate).current (h.homing hstate).approach⟩
  | limit => exact h.limit hk hinv
  | cycleStop => exact h.cycleStop hinv
  | safetyDoor =>
    rw [Machine.handle]
    split_ifs
    · exact .of_left h.abort (by intro h; cases h)
    · exact h
  | sleep => exact .of_left h.abort (by intro h; cases h)
  | alarm alarm =>
    rw [Machine.handle, Machine.protocol_do_alarm]
    split_ifs
    · refine .of_left ?_ (by intro h; cases h)
      rw [Machine.set_all_axes_unhomed]
      split_ifs <;> exact h.abort
    · exact .of_left h.abort (by intro h; cases h)
    · exact .of_left h.abort (by intro h; cases h)
  | restart =>
    have hsame : (m.state, false, m.phase, m.cycleAxes) = (m.state, m.abort, m.phase, m.cycleAxes) := by rw [h.abort]
    exact ⟨rfl, fun hstate => (h.homing hstate).of_eq hsame (h.homing hstate).current (h.homing hstate).approach⟩
  | disable_alarm_lock =>
    rw [Machine.handle]
    split_ifs
    · exact .of_left h.abort (by intro h; cases h)
    · exact h
  | crashHome =>
    rw [Machine.handle]
    split_ifs
    · exact h
    · exact .of_left h.abort (by intro h; cases h)
  | leave state =>
    rw [Machine.handle]
    split_ifs with hboth
    · exact h
    · exact .of_left h.abort fun hstate => hboth (.inr hstate)
  | home axisMask => exact h.home axisMask

/-- The events that belong to homing itself. -/
def Event.Drives (e : Event) : Prop := e = .limit ∨ e = .cycleStop ∨ ∃ pos neg, e = .switches pos neg

theorem drive_drives : ∀ e ∈ m.drive, e.Drives := by
  intro e he
  unfold Machine.drive at he
  split_ifs at he
  · rcases List.mem_cons.mp he with rfl | he
    · exact .inr (.inr ⟨_, _, rfl⟩)
    · exact .inl (List.mem_singleton.mp he)
  · rcases List.mem_cons.mp he with rfl | he
    · exact .inr (.inr ⟨_, _, rfl⟩)
    · exact .inr (.inl (List.mem_singleton.mp he))

theorem Alive.finishes (hruns : 1 ≤ axes.homing_runs.toNat) (hk : k.Lawful) (hinv : Inv axes k 0 m) (h : Alive axes m) :
    ∃ more, (∀ e ∈ more, e.Drives) ∧ Ended axes (Due axes m) (Transition.run (Machine.handle axes k) m more) := by
  obtain ⟨cycles, hcycles⟩ : ∃ n, m.remainingCycles.length = n := ⟨_, rfl⟩
  obtain ⟨phases, hphases⟩ : ∃ n, m.phasesLeft axes = n := ⟨_, rfl⟩
  -- by the number of cycles that are left, and for each by the number of phases
  induction cycles using Nat.strong_induction_on generalizing m phases with
  | _ cycles ihcycles =>
    induction phases using Nat.strong_induction_on generalizing m with
    | _ phases ihphases =>
      rcases drive_outcome hk hinv h with hended | hgoes
      · exact ⟨m.drive, drive_drives, hended⟩
      · have hinv' : Inv axes k 0 (Transition.run (Machine.handle axes k) m m.drive) :=
          hinv.run hruns fun _ _ => .inr rfl
        have hmore : ∃ more, (∀ e ∈ more, e.Drives) ∧
            Ended axes (Due axes (Transition.run (Machine.handle axes k) m m.drive))
              (Transition.run (Machine.handle axes k) (Transition.run (Machine.handle axes k) m m.drive) more) := by
          rcases hgoes.less with hless | ⟨hsame, hless⟩
          · exact ihcycles _ (hcycles ▸ hless) hinv' hgoes.alive rfl _ rfl
          · exact ihphases _ (hphases ▸ hless) hinv' hgoes.alive (hsame.trans hcycles) rfl
        obtain ⟨more, hdrives, hended⟩ := hmore
        refine ⟨m.drive ++ more, ?_, ?_⟩
        · intro e he
          rcases List.mem_append.mp he with he | he
          · exact drive_drives e he
          · exact hdrives e he
        · rw [Transition.run_append]
          exact ⟨hended.state, hended.abort, hended.cycles, fun axis haxis => hended.homed axis (hgoes.due axis haxis)⟩

/-- Homing is never stuck: wherever a run without a reset has left it, the switches and the stops of the
motors can still bring it to its end, with all axes homed that were to be. -/
theorem homing_can_finish (hruns : 1 ≤ axes.homing_runs.toNat) (hk : k.Lawful) (hboot : m.Boot)
    (habort : m.abort = false)
    {events : List Event} (hreset : ∀ e ∈ events, e ≠ .rtReset)
    (hhoming : (Transition.run (Machine.handle axes k) m events).state = .Homing) :
    ∃ more, (∀ e ∈ more, e.Drives) ∧
      Ended axes (Due axes (Transition.run (Machine.handle axes k) m events))
        (Transition.run (Machine.handle axes k) m (events ++ more)) := by
  have hlive : Inv axes k 0 (Transition.run (Machine.handle axes k) m events) ∧
      Live axes (Transition.run (Machine.handle axes k) m events) :=
    (Transition.always_of_invariant (I := fun m => Inv axes k 0 m ∧ Live axes m) (Q := fun _ e => e ≠ .rtReset)
      (fun _ e h he => ⟨h.1.handle hruns e (.inr rfl), h.2.handle hk h.1 e he⟩)
      ⟨.of_boot hboot (.inr rfl), .of_left habort hboot.state⟩ (Transition.throughout_of_mem hreset m)).last
  obtain ⟨more, hdrives, hended⟩ := (hlive.2.homing hhoming).finishes hruns hk hlive.1
  refine ⟨more, hdrives, ?_⟩
  rw [Transition.run_append]
  exact hended

theorem homing_can_finish_one :
    ∃ more, (∀ e ∈ more, e.Drives) ∧
      Ended oneAxis (Due oneAxis (Transition.run (Machine.handle oneAxis Cartesian) booted [.home 0]))
        (Transition.run (Machine.handle oneAxis Cartesian) booted ([.home 0] ++ more)) :=
  homing_can_finish (by decide) cartesian_lawful ⟨by decide, rfl, rfl⟩ rfl (by decide)
    (congrArg Machine.state booted_seeks)

end DuneWeaver.Homing
