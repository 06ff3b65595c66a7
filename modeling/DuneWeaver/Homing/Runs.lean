import DuneWeaver.Homing.Cycles

namespace DuneWeaver.Homing

variable {ρ : Type} {axes : Axes ρ} {k : Kinematics} {unhomed : AxisMask} {m : Machine ρ} {c : Course}

/-- Some cycle of the list had the axis. -/
def Covered (homed : List Course) (axis : Nat) : Prop := ∃ c ∈ homed, c.axes.getLsbD axis = true

/-- The cycles that are complete are sound, and account for the axes that have been homed since they were
those of `unhomed`. -/
structure Complete (axes : Axes ρ) (k : Kinematics) (unhomed : AxisMask) (m : Machine ρ) : Prop where
  sound : ∀ c ∈ m.journal.homed, c.Sound axes k
  covered : ∀ axis, axes.homingMask.getLsbD axis = true → unhomed.getLsbD axis = true →
    m.unhomed_axes.getLsbD axis = false → Covered m.journal.homed axis

/-- The invariant of homing. -/
structure Inv (axes : Axes ρ) (k : Kinematics) (unhomed : AxisMask) (m : Machine ρ) : Prop
    extends Complete axes k unhomed m where
  current : ∀ c, m.journal.current = some c → Underway axes k m c ∧ Pending k m c
  known : m.journal.current = none → ∀ axis, m.cycleAxes.getLsbD axis = true → Covered m.journal.homed axis
  ended : m.journal.current = none → m.state = .Homing → m.phase = .Pulloff2 ∨ m.phase = .CycleDone

theorem Covered.append {homed : List Course} {axis : Nat} (h : Covered homed axis) (more : List Course) :
    Covered (homed ++ more) axis := by
  obtain ⟨c, hc, haxis⟩ := h
  exact ⟨c, List.mem_append_left _ hc, haxis⟩

theorem getLsbD_clear (mask : AxisMask) (axis other : Nat)
    (h : (mask &&& ~~~bitnum_to_mask other).getLsbD axis = false) : mask.getLsbD axis = false ∨ axis = other := by
  by_cases hother : axis = other
  · exact .inr hother
  · refine .inl ?_
    have hbit : (bitnum_to_mask other).getLsbD axis = false := by
      rw [bitnum_to_mask, BitVec.getLsbD_twoPow]
      simp [Ne.symm hother]
    rw [BitVec.getLsbD_and, BitVec.getLsbD_not, hbit] at h
    by_cases haxis : axis < 16
    · simpa [haxis] using h
    · exact BitVec.getLsbD_of_ge mask axis (by omega)

/-- Only the axes of the cycle are marked homed. -/
theorem set_mpos_unhomed (axis : Nat) (h : (m.set_mpos axes).unhomed_axes.getLsbD axis = false) :
    m.unhomed_axes.getLsbD axis = false ∨ m.cycleAxes.getLsbD axis = true := by
  have hloop : ∀ (l : List (Axis ρ × Nat)) (m : Machine ρ),
      (l.foldl Machine.homeAxis m).unhomed_axes.getLsbD axis = false →
      m.unhomed_axes.getLsbD axis = false ∨ m.cycleAxes.getLsbD axis = true := by
    intro l
    induction l with
    | nil => exact fun m h => .inl h
    | cons a l ih =>
      intro m h
      rw [List.foldl_cons] at h
      rcases ih _ h with h | h
      · unfold Machine.homeAxis at h
        split at h
        · split_ifs at h with hcycle
          · rcases getLsbD_clear _ _ _ h with h | h
            · exact .inl h
            · exact .inr (h ▸ hcycle)
          · exact .inl h
        · exact .inl h
      · obtain ⟨unhomed_axes, mpos, ha⟩ := Machine.homeAxis_eq m a
        rw [ha] at h
        exact .inr h
  exact hloop axes.axis.zipIdx m h

theorem runPhase_move (hmotors : m.cycleMotors ≠ 0)
    (hpre : ¬ (m.phase = .PrePulloff ∧ m.limited &&& m.cycleMotors = 0)) :
    m.runPhase axes = m.beginPhase.startMove := by
  rw [Machine.runPhase, if_neg hmotors, if_neg hpre]

/-- While the cycle is not over the next phase begins with a move. -/
theorem nextPhase_move (hmotors : m.cycleMotors ≠ 0) (hphase : m.phase ≠ .CycleDone ∧ m.phase ≠ .None)
    (hgoes : ¬ m.advance.cycleOver axes) : ∃ phase runs, m.advance = { m with phase, runs } ∧
      m.nextPhase axes = (Machine.report { m with phase, runs } (.nextPhase phase)).beginPhase.startMove := by
  obtain ⟨phase, runs, hadvance⟩ := m.advance_eq
  refine ⟨phase, runs, hadvance, ?_⟩
  have hpre : phase ≠ .PrePulloff := by
    intro h
    exact hphase.2 (m.advance_prePulloff (by rw [hadvance]; exact h))
  rw [Machine.nextPhase, if_neg hphase.1, if_neg hgoes, hadvance]
  exact runPhase_move (m := Machine.report { m with phase, runs } (.nextPhase phase)) hmotors fun hboth => hpre hboth.1

/-- A move is no more than a report. -/
theorem Inv.startMove (h : Inv axes k unhomed m) : Inv axes k unhomed m.startMove where
  sound := by
    rw [journal_startMove]
    exact h.sound
  covered := by
    rw [journal_startMove]
    exact h.covered
  current := by
    intro c' hc'
    rw [journal_startMove] at hc'
    obtain ⟨c, hc, rfl⟩ := Option.map_eq_some_iff.mp hc'
    obtain ⟨hunder, hpending⟩ := h.current c hc
    exact ⟨⟨hunder.cycleAxes, hunder.cycleMotors, hunder.moves, hunder.here, hunder.counts, hunder.phases,
      hunder.passed⟩,
      hpending.approach, hpending.pulloff⟩
  known := by
    rw [journal_startMove]
    exact fun hnone => h.known (Option.map_eq_none_iff.mp hnone)
  ended := by
    rw [journal_startMove]
    exact fun hnone => h.ended (Option.map_eq_none_iff.mp hnone)

/-- A phase that begins with a move. -/
theorem Inv.of_move (h : Complete axes k unhomed m) (hcurrent : m.journal.current = some c)
    (hunder : Underway axes k m c)
    (htouched : c.here.touched = []) : Inv axes k unhomed m.beginPhase.startMove := by
  have hsome {p : Prop} (hnone : m.beginPhase.journal.current = none) : p := by
    cases hcurrent.symm.trans hnone
  refine Inv.startMove { sound := h.sound, covered := h.covered, current := ?_, known := hsome, ended := hsome }
  intro c' hc'
  obtain rfl : c = c' := Option.some.inj (hcurrent.symm.trans hc')
  refine ⟨⟨hunder.cycleAxes, hunder.cycleMotors, hunder.moves, hunder.here, hunder.counts, hunder.phases,
    hunder.passed⟩,
    ?_, fun _ => rfl⟩
  intro _
  rw [htouched, hunder.cycleAxes, hunder.cycleMotors]
  rfl

/-- The phase is over, and the cycle goes on with the next. -/
theorem Inv.of_phase (h : Complete axes k unhomed m) (hcurrent : m.journal.current = some c)
    (hunder : Underway axes k m c)
    (hover : c.here.Over k c.axes c.motors) (hgoes : ¬ m.advance.cycleOver axes) :
    Inv axes k unhomed (m.nextPhase axes) := by
  have hphase : m.phase ≠ .CycleDone ∧ m.phase ≠ .None := by
    have hcounts := hunder.counts
    constructor <;> intro hphase <;> rw [Machine.Counts, hphase] at hcounts <;> exact hcounts
  obtain ⟨htodo, -, hcounts⟩ := todo_advance hunder.counts
  obtain ⟨phase, runs, hadvance, hnext⟩ := nextPhase_move (hunder.cycleMotors ▸ hunder.moves) hphase hgoes
  rw [hnext]
  rw [hadvance] at hgoes hcounts htodo
  have hjournal : Machine.journal (Machine.report { m with phase, runs } (.nextPhase phase)) =
      { m.journal with current := some { c with before := c.before ++ [c.here], here := { phase } } } := by
    rw [journal_report]
    change m.journal.read (.nextPhase phase) = _
    rw [Journal.read, hcurrent]
    rfl
  refine Inv.of_move ⟨?_, ?_⟩ (congrArg Journal.current hjournal) ?_ rfl
  · rw [hjournal]
    exact h.sound
  · rw [hjournal]
    exact h.covered
  · refine ⟨hunder.cycleAxes, hunder.cycleMotors, hunder.moves, rfl, hcounts hgoes, ?_, ?_⟩
    · have hphases := hunder.phases
      rw [hunder.cycleMotors, htodo] at hphases
      rw [List.map_append, List.append_assoc]
      change _ ++ (c.here.phase :: todo (axes.needsPulloff2 c.motors) phase runs.toNat) =
        program _ (axes.needsPulloff2 c.motors)
      rw [hunder.here, hunder.cycleMotors]
      exact hphases
    · intro v hv
      rcases List.mem_append.mp hv with hv | hv
      · exact hunder.passed v hv
      · rw [List.mem_singleton.mp hv]
        exact hover

/-- The cycle is complete, and its axes are marked homed. -/
theorem Inv.of_homed (h : Complete axes k unhomed m) (hcurrent : m.journal.current = some c)
    (haxes : c.axes = m.cycleAxes)
    (hsound : c.Sound axes k) (hover : m.cycleOver axes) : Inv axes k unhomed (m.set_mpos axes) := by
  obtain ⟨unhomed_axes, mpos, heq⟩ := m.set_mpos_eq axes
  have hjournal : (m.set_mpos axes).journal = { current := none, homed := m.journal.homed ++ [c] } := by
    rw [heq, journal_report]
    change m.journal.read (.Homed m.cycleAxes) = _
    rw [Journal.read, hcurrent]
    rfl
  have hcover : ∀ axis, m.cycleAxes.getLsbD axis = true → Covered (m.journal.homed ++ [c]) axis := fun axis haxis =>
    ⟨c, List.mem_append_right _ (List.mem_singleton_self c), haxes ▸ haxis⟩
  refine { sound := ?_, covered := ?_, current := ?_, known := ?_, ended := ?_ }
  · rw [hjournal]
    intro c' hc'
    rcases List.mem_append.mp hc' with hc' | hc'
    · exact h.sound c' hc'
    · rw [List.mem_singleton.mp hc']
      exact hsound
  · rw [hjournal]
    intro axis haxis hbefore hafter
    rcases set_mpos_unhomed axis hafter with hold | hcycle
    · exact (h.covered axis haxis hbefore hold).append [c]
    · exact hcover axis hcycle
  · rw [hjournal]
    intro c' hc'
    cases hc'
  · rw [hjournal]
    intro _ axis haxis
    have hsame : (m.set_mpos axes).cycleAxes = m.cycleAxes := by
      rw [heq]
      rfl
    exact hcover axis (hsame ▸ haxis)
  · intro _ _
    rw [heq]
    rcases hover with hphase | ⟨hphase, -⟩
    · exact .inr hphase
    · exact .inl hphase

/-- A change of what the cycles do not depend on. -/
theorem Inv.of_eq {m' : Machine ρ} (h : Inv axes k unhomed m)
    (hvariables : (m'.phase, m'.cycleAxes, m'.phaseAxes, m'.cycleMotors, m'.phaseMotors, m'.runs) =
      (m.phase, m.cycleAxes, m.phaseAxes, m.cycleMotors, m.phaseMotors, m.runs))
    (hjournal : m'.journal = m.journal) (hstate : m'.state = .Homing → m.state = .Homing)
    (hunhomed : ∀ axis, axes.homingMask.getLsbD axis = true → unhomed.getLsbD axis = true →
      m'.unhomed_axes.getLsbD axis = false → m.unhomed_axes.getLsbD axis = false) : Inv axes k unhomed m' := by
  obtain ⟨hphase, haxes, hphaseAxes, hmotors, hphaseMotors, hruns⟩ : _ ∧ _ ∧ _ ∧ _ ∧ _ ∧ _ := by
    simpa only [Prod.mk.injEq] using hvariables
  refine { sound := hjournal ▸ h.sound, covered := ?_, current := ?_, known := ?_, ended := ?_ }
  · intro axis haxis hbefore hafter
    rw [hjournal]
    exact h.covered axis haxis hbefore (hunhomed axis haxis hbefore hafter)
  · intro c hc
    obtain ⟨hunder, hpending⟩ := h.current c (hjournal ▸ hc)
    refine ⟨⟨haxes ▸ hunder.cycleAxes, hmotors ▸ hunder.cycleMotors, hunder.moves, hphase ▸ hunder.here, ?_, ?_,
      hunder.passed⟩,
      ?_, ?_⟩
    · have hcounts := hunder.counts
      unfold Machine.Counts at hcounts ⊢
      rw [hphase, hruns, hmotors]
      exact hcounts
    · rw [hphase, hruns]
      exact hunder.phases
    · rw [hphase, hphaseAxes, hphaseMotors]
      exact hpending.approach
    · rw [hphase, hphaseMotors, hmotors]
      exact hpending.pulloff
  · intro hnone axis haxis
    rw [hjournal] at hnone ⊢
    exact h.known hnone axis (haxes ▸ haxis)
  · intro hnone hhoming
    rw [hphase]
    exact h.ended (hjournal ▸ hnone) (hstate hhoming)

/-- The cycle that `popCycle` begins. -/
def Course.start (axes : Axes ρ) (cycle : AxisMask) : Course where
  axes := cycle &&& axes.homingMask
  motors := axes.set_homing_mode (cycle &&& axes.homingMask)
  before := []
  here := { phase := .PrePulloff }

theorem popCycle_journal (cycle : AxisMask) (rest : List AxisMask) :
    (m.popCycle axes cycle rest).journal = { m.journal with current := some (Course.start axes cycle) } := by
  rw [Machine.popCycle, journal_report]
  rfl

theorem popCycle_complete (h : Complete axes k unhomed m) (cycle : AxisMask) (rest : List AxisMask) :
    Complete axes k unhomed (m.popCycle axes cycle rest) := by
  constructor
  · rw [popCycle_journal]
    exact h.sound
  · rw [popCycle_journal]
    exact h.covered

theorem popCycle_underway (hruns : 1 ≤ axes.homing_runs.toNat) (cycle : AxisMask) (rest : List AxisMask)
    (hmoves : (Course.start axes cycle).motors ≠ 0) :
    Underway axes k (m.popCycle axes cycle rest) (Course.start axes cycle) where
  cycleAxes := rfl
  cycleMotors := rfl
  moves := hmoves
  here := rfl
  counts := hruns
  phases := rfl
  passed := fun _ hv => absurd hv List.not_mem_nil

/-- `nextCycle` begins a new cycle, runs those whose motors have nothing to do, and ends homing when
there is none left. -/
theorem Inv.of_cycles (hruns : 1 ≤ axes.homing_runs.toNat) (h : Complete axes k unhomed m)
    (hrest : Inv axes k unhomed m ∨ m.remainingCycles ≠ [] ∧ m.state ≠ .Alarm) :
    Inv axes k unhomed (m.nextCycle axes) := by
  obtain ⟨l, hl⟩ : ∃ l, m.remainingCycles = l := ⟨_, rfl⟩
  induction l generalizing m with
  | nil =>
    have hinv : Inv axes k unhomed m := hrest.resolve_right fun hcons => hcons.1 hl
    rw [Machine.nextCycle]
    split_ifs
    · exact hinv.of_eq rfl rfl id (fun _ _ _ => id)
    · split
      · unfold Machine.done
        split_ifs
        · exact hinv
        · exact hinv.of_eq rfl rfl (by intro h; cases h) (fun _ _ _ => id)
        · exact hinv.of_eq rfl rfl (by intro h; cases h) (fun _ _ _ => id)
      next hcons => rw [hl] at hcons; cases hcons
  | cons cycle rest ih =>
    rw [Machine.nextCycle]
    split_ifs with halarm
    · exact (hrest.resolve_right fun hcons => hcons.2 halarm).of_eq rfl rfl id (fun _ _ _ => id)
    · split
      next hnil => rw [hl] at hnil; cases hnil
      next hcons =>
        rw [hl] at hcons
        cases hcons
        have hcomplete := popCycle_complete h cycle rest
        have hcurrent : (m.popCycle axes cycle rest).journal.current = some (Course.start axes cycle) := by
          rw [popCycle_journal]
        by_cases hmotors : (m.popCycle axes cycle rest).cycleMotors = 0
        · -- nothing moves: the cycle goes to its end at once
          rw [Machine.runPhase, if_pos hmotors, Machine.nextPhase, if_neg (by intro h; cases h),
            Machine.advance_pulloff2 _ rfl, if_pos (.inl rfl)]
          have hinv : Inv axes k unhomed (Machine.set_mpos axes (Machine.report
              { (m.popCycle axes cycle rest).beginPhase with phase := .CycleDone } (.nextPhase .CycleDone))) := by
            refine .of_homed (c := { Course.start axes cycle with
              before := [{ phase := .PrePulloff }], here := { phase := .CycleDone } }) ?_ ?_ rfl (.inl hmotors)
                (.inl rfl)
            · constructor
              · rw [journal_report]
                exact hcomplete.sound
              · rw [journal_report]
                exact hcomplete.covered
            · rw [journal_report]
              change ((m.popCycle axes cycle rest).journal.read (.nextPhase .CycleDone)).current = _
              rw [Journal.read, hcurrent]
              rfl
          refine ih hinv.toComplete (.inl hinv) ?_
          rw [Machine.set_mpos_remainingCycles]
          rfl
        · have hunder := popCycle_underway (k := k) (m := m) hruns cycle rest hmotors
          by_cases hpre : (m.popCycle axes cycle rest).phase = .PrePulloff ∧
              (m.popCycle axes cycle rest).limited &&& (m.popCycle axes cycle rest).cycleMotors = 0
          · rw [Machine.runPhase, if_neg hmotors, if_pos hpre]
            refine .of_phase (m := (m.popCycle axes cycle rest).beginPhase) ⟨hcomplete.sound, hcomplete.covered⟩
              hcurrent
              ⟨rfl, rfl, hmotors, rfl, hruns, rfl, hunder.passed⟩ (fun hmoved => Bool.noConfusion hmoved) ?_
            rw [advance_succ (by intro h; cases h) (by intro h; cases h)]
            rintro (h | ⟨h, -⟩) <;> cases h
          · rw [runPhase_move hmotors hpre]
            exact .of_move hcomplete hcurrent hunder rfl

theorem Inv.nextCycle (hruns : 1 ≤ axes.homing_runs.toNat) (h : Inv axes k unhomed m) :
    Inv axes k unhomed (m.nextCycle axes) := .of_cycles hruns h.toComplete (.inl h)

/-- A phase that is over is followed by the next one, the next cycle or the end. -/
theorem Inv.nextPhase (hruns : 1 ≤ axes.homing_runs.toNat) (h : Complete axes k unhomed m)
    (hcurrent : m.journal.current = some c) (hunder : Underway axes k m c) (hover : c.here.Over k c.axes c.motors) :
    Inv axes k unhomed (m.nextPhase axes) := by
  by_cases hgoes : m.advance.cycleOver axes
  · obtain ⟨htodo, hlast, -⟩ := todo_advance hunder.counts
    have hdone : m.phase ≠ .CycleDone := by
      intro hphase
      have hcounts := hunder.counts
      rw [Machine.Counts, hphase] at hcounts
      exact hcounts
    rw [Machine.nextPhase, if_neg hdone, if_pos hgoes]
    refine Inv.nextCycle hruns
      (.of_homed (c := { c with before := c.before ++ [c.here], here := { phase := m.advance.phase } })
      ?_ ?_ ?_ (.inr ⟨?_, ?_⟩) hgoes)
    · obtain ⟨phase, runs, hadvance⟩ := m.advance_eq
      rw [hadvance]
      constructor
      · rw [journal_report]
        exact h.sound
      · rw [journal_report]
        exact h.covered
    · obtain ⟨phase, runs, hadvance⟩ := m.advance_eq
      rw [hadvance, journal_report]
      change (m.journal.read (.nextPhase phase)).current = _
      rw [Journal.read, hcurrent]
      rfl
    · obtain ⟨phase, runs, hadvance⟩ := m.advance_eq
      rw [hadvance]
      exact hunder.cycleAxes
    · have hphases := hunder.phases
      rw [hunder.cycleMotors, htodo, hlast hgoes] at hphases
      rw [Course.phases, List.map_append, List.map_append, List.append_assoc]
      change _ ++ (c.here.phase :: [m.advance.phase]) = program _ (axes.needsPulloff2 c.motors)
      rw [hunder.here, hunder.cycleMotors]
      exact hphases
    · intro v hv
      rcases List.mem_append.mp hv with hv | hv
      · exact hunder.passed v hv
      · rw [List.mem_singleton.mp hv]
        exact hover
  · exact .of_phase h hcurrent hunder hover hgoes

/-- After a reset `done` has left the machine in its state. A stop marks the axes homed once more,
and the next one counts past the last phase. -/
theorem Inv.nextPhase_again (hruns : 1 ≤ axes.homing_runs.toNat) (h : Complete axes k unhomed m)
    (hcurrent : m.journal.current = none)
    (hknown : ∀ axis, m.cycleAxes.getLsbD axis = true → Covered m.journal.homed axis)
    (hended : m.phase = .Pulloff2 ∨ m.phase = .CycleDone) : Inv axes k unhomed (m.nextPhase axes) := by
  rw [Machine.nextPhase]
  split_ifs with hdone hover
  · refine ⟨⟨h.sound, h.covered⟩, ?_, fun _ => hknown, fun _ _ => .inr hdone⟩
    intro c hc
    cases hcurrent.symm.trans hc
  · have hphase := hended.resolve_right hdone
    rw [m.advance_pulloff2 hphase]
    obtain ⟨unhomed_axes, mpos, heq⟩ := Machine.set_mpos_eq axes (Machine.report { m with phase := .CycleDone }
      (.nextPhase .CycleDone))
    have hjournal :
        (Machine.set_mpos axes (Machine.report { m with phase := .CycleDone } (.nextPhase .CycleDone))).journal =
        m.journal := by
      rw [heq, journal_report]
      change ((Machine.report { m with phase := .CycleDone } (.nextPhase .CycleDone)).journal).read _ = _
      rw [journal_report]
      change (m.journal.read (.nextPhase .CycleDone)).read _ = _
      rw [Journal.read, Journal.read, hcurrent, Option.map_none, Option.toList_none, List.append_nil, ← hcurrent]
    refine .nextCycle hruns { sound := ?_, covered := ?_, current := ?_, known := ?_, ended := ?_ }
    · rw [hjournal]
      exact h.sound
    · rw [hjournal]
      intro axis haxis hbefore hafter
      rcases set_mpos_unhomed axis hafter with hold | hcycle
      · exact h.covered axis haxis hbefore hold
      · exact hknown axis hcycle
    · rw [hjournal]
      intro c hc
      cases hcurrent.symm.trans hc
    · rw [hjournal, heq]
      exact fun _ => hknown
    · rw [heq]
      exact fun _ _ => .inr rfl
  · exfalso
    rw [m.advance_pulloff2 (hended.resolve_right hdone)] at hover
    exact hover (.inl rfl)

theorem left_append (axisMask : AxisMask) (motors : MotorMask) (touched : List MotorMask) (limited : MotorMask) :
    k.left axisMask motors (touched ++ [limited]) =
      ((k.limitReached (k.left axisMask motors touched).1 (k.left axisMask motors touched).2 limited).1,
        (k.limitReached (k.left axisMask motors touched).1 (k.left axisMask motors touched).2 limited).2.1) := by
  rw [Kinematics.left, List.foldl_append]
  rfl

/-- An approach goes on while a motor has not reached its switch. -/
theorem Inv.limitReached (hruns : 1 ≤ axes.homing_runs.toNat) (h : Inv axes k unhomed m) (hstate : m.state = .Homing) :
    Inv axes k unhomed (m.limitReached axes k) := by
  rw [Machine.limitReached]
  split
  case isFalse => exact h
  case isTrue happroach =>
  have hcurrent : ∃ c, m.journal.current = some c := by
    cases hcurrent : m.journal.current with
    | some c => exact ⟨c, rfl⟩
    | none =>
      rcases h.ended hcurrent hstate with hphase | hphase <;> rw [hphase] at happroach <;> cases happroach
  obtain ⟨c, hcurrent⟩ := hcurrent
  obtain ⟨hunder, hpending⟩ := h.current c hcurrent
  have hleft : k.left c.axes c.motors (c.here.touched ++ [m.limited]) =
      ((k.limitReached m.phaseAxes m.phaseMotors m.limited).1,
      (k.limitReached m.phaseAxes m.phaseMotors m.limited).2.1) := by
    rw [left_append, hpending.approach happroach]
  have hjournal : ∀ (phaseAxes : AxisMask) (phaseMotors : MotorMask),
      Machine.journal { m.report (.limited m.limited) with phaseAxes, phaseMotors } =
        { m.journal with current := some { c with here := { c.here with touched := c.here.touched ++ [m.limited] } }
          } := by
    intro phaseAxes phaseMotors
    change (m.report (.limited m.limited)).journal = _
    rw [journal_report, Journal.read, hcurrent]
    rfl
  generalize k.limitReached m.phaseAxes m.phaseMotors m.limited = r at hleft
  have hcomplete :
      Complete axes k unhomed { m.report (.limited m.limited) with phaseAxes := r.1, phaseMotors := r.2.1 } := by
    constructor
    · rw [hjournal]
      exact h.sound
    · rw [hjournal]
      exact h.covered
  have hunder' : Underway axes k { m.report (.limited m.limited) with phaseAxes := r.1, phaseMotors := r.2.1 }
      { c with here := { c.here with touched := c.here.touched ++ [m.limited] } } :=
    ⟨hunder.cycleAxes, hunder.cycleMotors, hunder.moves, hunder.here, hunder.counts, hunder.phases, hunder.passed⟩
  have hinv : Inv axes k unhomed { m.report (.limited m.limited) with phaseAxes := r.1, phaseMotors := r.2.1 } := by
    refine { toComplete := hcomplete, current := ?_, known := ?_, ended := ?_ }
    · intro c' hc'
      rw [hjournal] at hc'
      obtain rfl := Option.some.inj hc'
      exact ⟨hunder', fun _ => hleft, fun hno => absurd (happroach.symm.trans hno) (by decide)⟩
    · intro hnone
      rw [hjournal] at hnone
      cases hnone
    · intro hnone
      rw [hjournal] at hnone
      cases hnone
  dsimp only
  split_ifs with hstop hmore
  · exact hinv.startMove
  · refine .nextPhase hruns hcomplete (hjournal _ _ ▸ rfl) hunder' ?_
    have hnone : (k.left c.axes c.motors (c.here.touched ++ [m.limited])).1 = 0 := by
      rw [hleft]
      exact not_not.mp hmore
    have hphase : c.here.phase = .FastApproach ∨ c.here.phase = .SlowApproach := by
      rw [hunder.here]
      simpa [Phase.approach] using happroach
    rcases hphase with hphase | hphase <;> rw [Visit.Over, hphase] <;> exact ⟨List.concat_ne_nil _ _, hnone⟩
  · exact hinv

/-- A stop ends a pull-off, unless a switch is still active. -/
theorem Inv.cycleStop (hruns : 1 ≤ axes.homing_runs.toNat) (h : Inv axes k unhomed m) (hstate : m.state = .Homing) :
    Inv axes k unhomed (m.cycleStop axes) := by
  rw [Machine.cycleStop]
  cases hcurrent : m.journal.current with
  | none =>
    -- homing has ended, but for a reset that keeps it from leaving its state
    have hjournal : (m.report (.CycleStop m.limited)).journal = m.journal := by
      rw [journal_report, Journal.read, hcurrent, Option.map_none, ← hcurrent]
    have hinv : Inv axes k unhomed (m.report (.CycleStop m.limited)) := h.of_eq rfl hjournal id (fun _ _ _ => id)
    have hfail : ∀ alarm, Inv axes k unhomed ((m.report (.CycleStop m.limited)).fail alarm) := by
      intro alarm
      refine hinv.of_eq rfl ?_ id (fun _ _ _ => id)
      rw [Machine.fail, journal_report]
      rfl
    split_ifs
    · exact hfail _
    · exact hfail _
    · exact .nextPhase_again hruns (m := { m.report (.CycleStop m.limited) with phaseMotors := 0 })
        ⟨hinv.sound, hinv.covered⟩ (by rw [← hcurrent]; exact congrArg Journal.current hjournal)
        (hinv.known (by rw [← hcurrent]; exact congrArg Journal.current hjournal)) (h.ended hcurrent hstate)
  | some c =>
    obtain ⟨hunder, hpending⟩ := h.current c hcurrent
    have hjournal : (m.report (.CycleStop m.limited)).journal =
        { m.journal with current := some { c with here := { c.here with stops := c.here.stops ++ [m.limited] } } } := by
      rw [journal_report, Journal.read, hcurrent]
      rfl
    have hcomplete : Complete axes k unhomed (m.report (.CycleStop m.limited)) := by
      constructor
      · rw [hjournal]
        exact h.sound
      · rw [hjournal]
        exact h.covered
    have hunder' : Underway axes k (m.report (.CycleStop m.limited))
        { c with here := { c.here with stops := c.here.stops ++ [m.limited] } } :=
      ⟨hunder.cycleAxes, hunder.cycleMotors, hunder.moves, hunder.here, hunder.counts, hunder.phases, hunder.passed⟩
    have hinv : Inv axes k unhomed (m.report (.CycleStop m.limited)) := by
      refine { toComplete := hcomplete, current := ?_, known := ?_, ended := ?_ }
      · intro c' hc'
        rw [hjournal] at hc'
        obtain rfl := Option.some.inj hc'
        exact ⟨hunder', hpending.approach, hpending.pulloff⟩
      · intro hnone
        rw [hjournal] at hnone
        cases hnone
      · intro hnone
        rw [hjournal] at hnone
        cases hnone
    have hfail : ∀ alarm, Inv axes k unhomed ((m.report (.CycleStop m.limited)).fail alarm) := by
      intro alarm
      refine hinv.of_eq rfl ?_ id (fun _ _ _ => id)
      rw [Machine.fail, journal_report]
      rfl
    split_ifs with happroach hactive
    · exact hfail _
    · exact hfail _
    · refine .nextPhase hruns (m := { m.report (.CycleStop m.limited) with phaseMotors := 0 })
        ⟨hcomplete.sound, hcomplete.covered⟩ (congrArg Journal.current hjournal)
        ⟨hunder'.cycleAxes, hunder'.cycleMotors, hunder'.moves, hunder'.here, hunder'.counts, hunder'.phases,
        hunder'.passed⟩ ?_
      have hclear : ∃ limited, (c.here.stops ++ [m.limited]).getLast? = some limited ∧ limited &&& c.motors = 0 := by
        refine ⟨m.limited, List.getLast?_concat, ?_⟩
        rw [hunder.cycleMotors, ← hpending.pulloff (by simpa using happroach)]
        exact not_not.mp hactive
      unfold Visit.Over
      cases hphase : c.here.phase with
      | FastApproach | SlowApproach =>
        rw [hunder.here] at hphase
        change ¬ m.phase.approach = true at happroach
        rw [hphase] at happroach
        exact absurd rfl happroach
      | Pulloff0 | Pulloff1 | Pulloff2 => exact hclear
      | PrePulloff => exact fun _ => hclear
      | None | CycleDone => trivial

/-- The axes that do not move change only the position. -/
theorem setMposOnly_eq (l : List (Axis ρ × Nat)) (axisMask : AxisMask) (m : Machine ρ) :
    ∃ mpos, (Machine.setMposOnly l axisMask m).1 = { m with mpos } := by
  induction l generalizing axisMask m with
  | nil => exact ⟨_, rfl⟩
  | cons a l ih =>
    unfold Machine.setMposOnly
    split
    · exact ih axisMask m
    · dsimp only
      split_ifs
      · exact ⟨_, rfl⟩
      · obtain ⟨mpos, h⟩ :=
          ih (axisMask &&& ~~~bitnum_to_mask a.2) { m with mpos := m.mpos.set a.2 ‹AxisHoming ρ›.mpos }
        exact ⟨mpos, h⟩
      · exact ih axisMask m

theorem Inv.run_cycles (hruns : 1 ≤ axes.homing_runs.toNat) (h : Inv axes k unhomed m) (axisMask : AxisMask) :
    Inv axes k unhomed (m.run_cycles axes k axisMask) := by
  rw [Machine.run_cycles]
  split_ifs
  · exact h
  · obtain ⟨mpos, hset⟩ := setMposOnly_eq axes.axis.zipIdx axisMask m
    generalize Machine.setMposOnly axes.axis.zipIdx axisMask m = r at hset
    obtain ⟨m', rest⟩ := r
    obtain rfl : m' = { m with mpos } := hset
    cases rest with
    | none => exact h.of_eq rfl rfl id (fun _ _ _ => id)
    | some axisMask =>
      dsimp only
      split_ifs with hnone
      · exact h.of_eq rfl rfl (by intro h; cases h) (fun _ _ _ => id)
      · exact .of_cycles hruns ⟨h.sound, h.covered⟩ (.inr ⟨hnone, by intro h; cases h⟩)
  · exact h.of_eq rfl rfl (by intro h; cases h) (fun _ _ _ => id)

/-- Every event but the two that declare axes homed keeps the invariant, and these do where no axis is looked at. -/
theorem Inv.handle (hruns : 1 ≤ axes.homing_runs.toNat) (h : Inv axes k unhomed m) (e : Event)
    (hdeclares : e ≠ .disable_alarm_lock ∧ e ≠ .crashHome ∨ unhomed = 0) : Inv axes k unhomed (m.handle axes k e) := by
  have hnone : unhomed = 0 → ∀ axis, unhomed.getLsbD axis ≠ true := by
    rintro rfl axis haxis
    simp at haxis
  have hfail : ∀ alarm, Inv axes k unhomed (m.fail alarm) := by
    intro alarm
    refine h.of_eq rfl ?_ id (fun _ _ _ => id)
    rw [Machine.fail, journal_report]
    rfl
  cases e with
  | switches pos neg => exact h.of_eq rfl rfl id (fun _ _ _ => id)
  | limit =>
    rw [Machine.handle]
    split_ifs with hstate
    · exact h.limitReached hruns hstate
    · exact h
  | cycleStop =>
    rw [Machine.handle]
    split_ifs with hstate
    · exact h.cycleStop hruns hstate
    · exact h
  | safetyDoor =>
    rw [Machine.handle]
    split_ifs
    · exact (hfail _).of_eq rfl rfl (by intro h; cases h) (fun _ _ _ => id)
    · exact h
  | rtReset =>
    rw [Machine.handle]
    split_ifs
    · exact (hfail _).of_eq rfl rfl id (fun _ _ _ => id)
    · exact h.of_eq rfl rfl id (fun _ _ _ => id)
  | sleep => exact h.of_eq rfl rfl (by intro h; cases h) (fun _ _ _ => id)
  | alarm alarm =>
    rw [Machine.handle, Machine.protocol_do_alarm]
    split_ifs
    · rw [Machine.set_all_axes_unhomed]
      split_ifs
      · refine h.of_eq rfl rfl (by intro h; cases h) fun axis haxis _ hclear => ?_
        rw [haxis] at hclear
        cases hclear
      · exact h.of_eq rfl rfl (by intro h; cases h) (fun _ _ _ => id)
    · exact h.of_eq rfl rfl (by intro h; cases h) (fun _ _ _ => id)
    · exact h.of_eq rfl rfl (by intro h; cases h) (fun _ _ _ => id)
  | restart => exact h.of_eq rfl rfl id (fun _ _ _ => id)
  | disable_alarm_lock =>
    have hzero := hnone (hdeclares.resolve_left fun hne => hne.1 rfl)
    rw [Machine.handle]
    split_ifs
    · exact h.of_eq rfl rfl (by intro h; cases h) fun axis _ haxis => absurd haxis (hzero axis)
    · exact h
  | crashHome =>
    have hzero := hnone (hdeclares.resolve_left fun hne => hne.2 rfl)
    rw [Machine.handle]
    split_ifs
    · exact h
    · exact h.of_eq rfl rfl (by intro h; cases h) fun axis _ haxis => absurd haxis (hzero axis)
  | leave state =>
    rw [Machine.handle]
    split_ifs with hboth
    · exact h
    · exact h.of_eq rfl rfl (fun hstate => absurd (.inr hstate) hboth) (fun _ _ _ => id)
  | home axisMask =>
    rw [Machine.handle]
    split_ifs
    · exact h
    · exact h.run_cycles hruns axisMask

/-- The machine has been started, and has not been homed since. -/
structure Machine.Boot (m : Machine ρ) : Prop where
  state : m.state ≠ .Homing
  cycleAxes : m.cycleAxes = 0
  reports : m.reports = []

theorem Inv.of_boot (h : m.Boot) (hunhomed : unhomed = m.unhomed_axes ∨ unhomed = 0) : Inv axes k unhomed m := by
  have hjournal : m.journal = {} := by
    rw [Machine.journal, h.reports]
    rfl
  refine { sound := ?_, covered := ?_, current := ?_, known := ?_, ended := fun _ hstate => absurd hstate h.state }
  · rw [hjournal]
    exact fun c hc => absurd hc List.not_mem_nil
  · intro axis _ hbefore hafter
    rcases hunhomed with rfl | rfl
    · cases hbefore.symm.trans hafter
    · simp at hbefore
  · rw [hjournal]
    intro c hc
    cases hc
  · intro _ axis haxis
    rw [h.cycleAxes] at haxis
    simp at haxis

theorem Inv.run (hruns : 1 ≤ axes.homing_runs.toNat) (h : Inv axes k unhomed m) {events : List Event}
    (hdeclares : ∀ e ∈ events, e ≠ .disable_alarm_lock ∧ e ≠ .crashHome ∨ unhomed = 0) :
    Inv axes k unhomed (Transition.run (Machine.handle axes k) m events) :=
  (Transition.always_of_invariant (Q := fun _ e => e ≠ .disable_alarm_lock ∧ e ≠ .crashHome ∨ unhomed = 0)
    (fun _ e hinv hdeclares => hinv.handle hruns e hdeclares) h (Transition.throughout_of_mem hdeclares m)).last

/-- An axis that was not homed and now is has gone through a whole program, in whatever order switches,
stops, alarms, resets and requests came: each approach ended at its switches, and each pull-off, but for a
last one that nothing follows, off all of them. -/
theorem homed_after_program (hruns : 1 ≤ axes.homing_runs.toNat) (hboot : m.Boot) {events : List Event}
    (hdeclares : ∀ e ∈ events, e ≠ .disable_alarm_lock ∧ e ≠ .crashHome) {axis : Nat}
    (hhoming : axes.homingMask.getLsbD axis = true) (hbefore : m.unhomed_axes.getLsbD axis = true)
    (hafter : (Transition.run (Machine.handle axes k) m events).unhomed_axes.getLsbD axis = false) :
    ∃ c ∈ (Transition.run (Machine.handle axes k) m events).journal.homed,
      c.axes.getLsbD axis = true ∧ c.Sound axes k := by
  have hinv := (Inv.of_boot hboot (.inl rfl)).run hruns (fun e he => .inl (hdeclares e he)) (k := k)
  obtain ⟨c, hc, haxis⟩ := hinv.covered axis hhoming hbefore hafter
  exact ⟨c, hc, haxis, hinv.sound c hc⟩

/-- One axis with one motor, homed in one run. -/
def oneAxis : Axes Unit where
  axis := [{ homing := some { cycle := 1, mpos := () }, motors := [some true], extraPulloff := false }]
  homing_runs := 1
  mustHome := true

def booted : Machine Unit where
  state := .Alarm
  abort := false
  posLimitMask := 0
  negLimitMask := 0
  phase := .None
  cycleAxes := 0
  phaseAxes := 0
  cycleMotors := 0
  phaseMotors := 0
  remainingCycles := []
  runs := 0
  unhomed_axes := 1
  homed_since_boot := false
  mpos := [()]
  undefined := false
  reports := []

/-- The axis on its way to the switch, and on its way back. -/
def seeking : Machine Unit :=
  { booted with
    state := .Homing, phase := .FastApproach, cycleAxes := 1, phaseAxes := 1, cycleMotors := 1, phaseMotors := 1
    runs := 1, reports := [.HomingCycle 1 1, .nextPhase .FastApproach, .move .FastApproach 1 1] }

def pullingOff : Machine Unit :=
  { seeking with
    phase := .Pulloff0
    reports := [.HomingCycle 1 1, .nextPhase .FastApproach, .move .FastApproach 1 1, .limited 1, .nextPhase .Pulloff0,
      .move .Pulloff0 1 1] }

theorem booted_seeks : booted.handle oneAxis Cartesian (.home 0) = seeking := by
  change Machine.nextCycle oneAxis { booted with remainingCycles := [1], state := .Homing } = _
  rw [Machine.nextCycle, if_neg (by decide)]
  dsimp only
  rw [Machine.runPhase, if_neg (by decide), if_pos (by decide), Machine.nextPhase, if_neg (by decide),
    if_neg (by decide), runPhase_move (by decide) (by decide)]
  rfl

private theorem booted_home :
    (Transition.run (Machine.handle oneAxis Cartesian) booted
      [.home 0, .switches 1 0, .limit, .switches 0 0, .cycleStop]).unhomed_axes = 0 := by
  have hlimit : Machine.limitReached oneAxis Cartesian { seeking with posLimitMask := 1 } =
      { pullingOff with posLimitMask := 1 } := by
    change Machine.nextPhase oneAxis { seeking with
      posLimitMask := 1, phaseAxes := 0, phaseMotors := 0, reports := seeking.reports ++ [.limited 1] } = _
    rw [Machine.nextPhase, if_neg (by decide), if_neg (by decide), runPhase_move (by decide) (by decide)]
    rfl
  have hstop : (Machine.cycleStop oneAxis pullingOff).unhomed_axes = 0 := by
    change (Machine.nextPhase oneAxis { pullingOff with
      phaseMotors := 0, reports := pullingOff.reports ++ [.CycleStop 0] }).unhomed_axes = 0
    rw [Machine.nextPhase, if_neg (by decide), if_pos (by decide), Machine.nextCycle, if_neg (by decide)]
    rfl
  rw [Transition.run_cons, booted_seeks]
  change (Machine.handle oneAxis Cartesian (Machine.handle oneAxis Cartesian
    (Machine.limitReached oneAxis Cartesian { seeking with posLimitMask := 1 })
    (.switches 0 0)) .cycleStop).unhomed_axes = 0
  rw [hlimit]
  exact hstop

theorem homed_after_program_one :
    ∃ c ∈ (Transition.run (Machine.handle oneAxis Cartesian) booted
        [.home 0, .switches 1 0, .limit, .switches 0 0, .cycleStop]).journal.homed,
      c.axes.getLsbD 0 = true ∧ c.Sound oneAxis Cartesian :=
  homed_after_program (by decide) ⟨by decide, rfl, rfl⟩ (by decide) (by decide) (by decide)
    (by rw [booted_home]; decide)

end DuneWeaver.Homing
