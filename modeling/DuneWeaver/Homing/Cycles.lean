import DuneWeaver.Protocol.Drive

namespace DuneWeaver.Homing

/-- Bits indexed by axis number. -/
abbrev AxisMask := BitVec 16

/-- Bits indexed by `motor_num * 16 + axis`. -/
abbrev MotorMask := BitVec 32

def motors_to_axes (motors : MotorMask) : AxisMask := motors.setWidth 16 ||| (motors >>> 16).setWidth 16

def bitnum_to_mask (axis : Nat) : AxisMask := BitVec.twoPow 16 axis

def motor_bit (axis motor : Nat) : Nat := if motor ≠ 0 then axis + 16 else axis

/-- `Homing::Phase`, with the values 0 to 7. -/
inductive Phase where
  | None
  | PrePulloff
  | FastApproach
  | Pulloff0
  | SlowApproach
  | Pulloff1
  | Pulloff2
  | CycleDone
  deriving DecidableEq

/-- The phase with the next value. There is none behind the last, where `nextPhase` does not ask for it. -/
def Phase.succ : Phase → Phase
  | .None => .PrePulloff
  | .PrePulloff => .FastApproach
  | .FastApproach => .Pulloff0
  | .Pulloff0 => .SlowApproach
  | .SlowApproach => .Pulloff1
  | .Pulloff1 => .Pulloff2
  | .Pulloff2 | .CycleDone => .CycleDone

def Phase.approach (phase : Phase) : Bool := phase = .FastApproach || phase = .SlowApproach

/-- The homing section of an axis. -/
structure AxisHoming (ρ : Type) where
  cycle : Int
  mpos : ρ

/-- An axis: for each of its motors what the driver answers to `set_homing_mode`, and whether
the pulloffs of its motors differ. -/
structure Axis (ρ : Type) where
  homing : Option (AxisHoming ρ)
  motors : List (Option Bool)
  extraPulloff : Bool

structure Axes (ρ : Type) where
  axis : List (Axis ρ)
  homing_runs : UInt32
  mustHome : Bool

/-- What the kinematics decides about homing. `limitReached` changes the axes and the motors of
the phase, and answers whether the motion has to stop. -/
structure Kinematics where
  kinematics_homing : AxisMask → Bool
  canHome : AxisMask → MotorMask → MotorMask → Bool
  limitReached : AxisMask → MotorMask → MotorMask → AxisMask × MotorMask × Bool

/-- What homing reports as it goes on: the lines of its log, the moves it plans and the alarms
it raises. -/
inductive Report where
  | HomingCycle (axes : AxisMask) (motors : MotorMask)
  | nextPhase (phase : Phase)
  | move (phase : Phase) (axes : AxisMask) (motors : MotorMask)
  | limited (motors : MotorMask)
  | CycleStop (limited : MotorMask)
  | Homed (axes : AxisMask)
  | alarm (alarm : ExecAlarm)
  deriving DecidableEq

/-- The variables of homing and those of the machine that it reads. `undefined` is set once the
phase has been counted past its last value. -/
structure Machine (ρ : Type) where
  state : State
  abort : Bool
  posLimitMask : MotorMask
  negLimitMask : MotorMask
  phase : Phase
  cycleAxes : AxisMask
  phaseAxes : AxisMask
  cycleMotors : MotorMask
  phaseMotors : MotorMask
  remainingCycles : List AxisMask
  runs : UInt32
  unhomed_axes : AxisMask
  homed_since_boot : Bool
  mpos : List ρ
  undefined : Bool
  reports : List Report

/-- Each motor has a switch of its own. -/
def Cartesian : Kinematics where
  kinematics_homing _ := false
  canHome _ posLimitMask negLimitMask := posLimitMask &&& negLimitMask = 0
  limitReached axisMask motorMask limited :=
    let motorMask := motorMask &&& ~~~limited
    (motors_to_axes motorMask, motorMask, motors_to_axes motorMask ≠ axisMask)

/-- The switches belong to the axes, whose moves take both motors. -/
def CoreXY (homingMask : AxisMask) : Kinematics where
  kinematics_homing _ := false
  canHome axisMask posLimitMask negLimitMask :=
    ¬ (axisMask ≠ 0 ∧ axisMask &&& homingMask = 0) ∧ posLimitMask &&& negLimitMask = 0
  limitReached axisMask motors limited :=
    (axisMask &&& ~~~limited.setWidth 16, motors &&& ~~~limited, axisMask &&& limited.setWidth 16 ≠ 0)

variable {ρ : Type}

namespace Axes

variable (axes : Axes ρ)

/-- The axes that meet a condition. -/
def axesWith (p : Axis ρ → Bool) : AxisMask :=
  axes.axis.zipIdx.foldl (fun mask a => if p a.1 then mask ||| bitnum_to_mask a.2 else mask) 0

/-- `Axes::homingMask`: the axes whose `_homing->_cycle` is not negative. -/
def homingMask : AxisMask := axes.axesWith fun a => a.homing.any fun homing => 0 ≤ homing.cycle

def axis_mask_from_cycle (cycle : Int) : AxisMask :=
  axes.axesWith fun a => a.homing.any fun homing => homing.cycle = cycle

/-- The motors of the axes whose drivers can do homing. -/
def set_homing_mode (axisMask : AxisMask) : MotorMask :=
  axes.axis.zipIdx.foldl (fun mask a =>
    if axisMask.getLsbD a.2 then
      a.1.motors.zipIdx.foldl (fun mask motor =>
        if motor.1 = some true then mask ||| BitVec.twoPow 32 (motor_bit a.2 motor.2) else mask) mask
    else mask) 0

/-- An axis with two motors in the cycle has different pulloffs for them. -/
def needsPulloff2 (motors : MotorMask) : Bool :=
  let squaredAxes : AxisMask := (motors &&& (motors >>> 16)).setWidth 16
  axes.axis.zipIdx.any fun a => squaredAxes.getLsbD a.2 && a.1.extraPulloff

end Axes

namespace Machine

variable (axes : Axes ρ) (k : Kinematics) (m : Machine ρ)

def report (r : Report) : Machine ρ := { m with reports := m.reports ++ [r] }

/-- The limit switches that are active. -/
def limited : MotorMask := m.posLimitMask ||| m.negLimitMask

def startMove : Machine ρ := m.report (.move m.phase m.phaseAxes m.phaseMotors)

/-- The motors stop and the alarm is posted. It is handled when its turn comes. -/
def fail (alarm : ExecAlarm) : Machine ρ := m.report (.alarm alarm)

def set_axis_homed (axis : Nat) : Machine ρ := { m with unhomed_axes := m.unhomed_axes &&& ~~~bitnum_to_mask axis }

/-- The turn of one axis in the loop of `set_mpos`. -/
def homeAxis (m : Machine ρ) (a : Axis ρ × Nat) : Machine ρ :=
  match a.1.homing with
  | some homing =>
    if m.cycleAxes.getLsbD a.2 then { m.set_axis_homed a.2 with mpos := m.mpos.set a.2 homing.mpos } else m
  | none => m

/-- The axes of the cycle have been homed. -/
def set_mpos : Machine ρ := (axes.axis.zipIdx.foldl homeAxis m).report (.Homed m.cycleAxes)

/-- All cycles have been run. -/
def done : Machine ρ :=
  if m.abort then m
  else
    { m with
      homed_since_boot := m.homed_since_boot || m.unhomed_axes = 0
      state := if m.unhomed_axes ≠ 0 then .Alarm else .Idle }

/-- The count of `nextPhase`: the last approach is followed by `Pulloff2`, the others by
`Pulloff1` and another approach. -/
def advance : Machine ρ :=
  if m.phase.succ = .SlowApproach ∧ m.runs = 1 then { m with phase := .Pulloff2 }
  else if m.phase.succ = .Pulloff2 then
    if 1 < m.runs - 1 then { m with phase := .SlowApproach, runs := m.runs - 1 }
    else { m with phase := .Pulloff2, runs := m.runs - 1 }
  else { m with phase := m.phase.succ }

/-- The cycle is over once the motors of its axes need not be squared any more. -/
def cycleOver : Prop := m.phase = .CycleDone ∨ m.phase = .Pulloff2 ∧ axes.needsPulloff2 m.cycleMotors = false

instance : Decidable (m.cycleOver axes) := inferInstanceAs (Decidable (_ ∨ _))

/-- Nothing is left of the phases and cycles but what `nextCycle` takes from the queue. -/
def popCycle (cycle : AxisMask) (rest : List AxisMask) : Machine ρ :=
  let cycleAxes := cycle &&& axes.homingMask
  { m with
    remainingCycles := rest
    cycleAxes
    cycleMotors := axes.set_homing_mode cycleAxes
    phase := .PrePulloff
    runs := axes.homing_runs }.report (.HomingCycle cycleAxes (axes.set_homing_mode cycleAxes))

/-- The axes and the motors a phase begins with. -/
def beginPhase : Machine ρ := { m with phaseAxes := m.cycleAxes, phaseMotors := m.cycleMotors }

/-- How often `nextPhase` and `runPhase` still call each other before the next cycle or a move. -/
def nextRank : Nat := if m.phase = .Pulloff2 then 1 else if m.cycleMotors = 0 ∨ m.phase = .None then 3 else 1

def runRank : Nat := if m.cycleMotors = 0 ∨ m.phase = .PrePulloff then 2 else 0

@[simp] theorem report_remainingCycles (r : Report) : (m.report r).remainingCycles = m.remainingCycles := rfl

@[simp] theorem report_cycleMotors (r : Report) : (m.report r).cycleMotors = m.cycleMotors := rfl

@[simp] theorem report_phase (r : Report) : (m.report r).phase = m.phase := rfl

/-- The loop changes only the position and the axes that are homed. -/
theorem homeAxis_eq (m : Machine ρ) (a : Axis ρ × Nat) :
    ∃ unhomed_axes mpos, homeAxis m a = { m with unhomed_axes, mpos } := by
  unfold homeAxis
  split
  · split
    · exact ⟨_, _, rfl⟩
    · exact ⟨_, _, rfl⟩
  · exact ⟨_, _, rfl⟩

theorem set_mpos_eq : ∃ unhomed_axes mpos,
    m.set_mpos axes = { m with unhomed_axes, mpos }.report (.Homed m.cycleAxes) := by
  have hloop : ∀ (l : List (Axis ρ × Nat)) (m : Machine ρ), ∃ unhomed_axes mpos,
      l.foldl homeAxis m = { m with unhomed_axes, mpos } := by
    intro l
    induction l with
    | nil => exact fun m => ⟨_, _, rfl⟩
    | cons a l ih =>
      intro m
      obtain ⟨unhomed_axes, mpos, ha⟩ := homeAxis_eq m a
      obtain ⟨unhomed_axes', mpos', hl⟩ := ih { m with unhomed_axes, mpos }
      exact ⟨unhomed_axes', mpos', by rw [List.foldl_cons, ha, hl]⟩
  obtain ⟨unhomed_axes, mpos, h⟩ := hloop axes.axis.zipIdx m
  exact ⟨unhomed_axes, mpos, by rw [set_mpos, h]⟩

/-- What `nextPhase` counts are the phase and the runs. -/
theorem advance_eq : ∃ phase runs, m.advance = { m with phase, runs } := by
  unfold advance
  split_ifs <;> exact ⟨_, _, rfl⟩

theorem advance_remainingCycles : m.advance.remainingCycles = m.remainingCycles := by
  obtain ⟨phase, runs, h⟩ := m.advance_eq
  rw [h]

theorem advance_cycleMotors : m.advance.cycleMotors = m.cycleMotors := by
  obtain ⟨phase, runs, h⟩ := m.advance_eq
  rw [h]

theorem set_mpos_remainingCycles : (m.set_mpos axes).remainingCycles = m.remainingCycles := by
  obtain ⟨unhomed_axes, mpos, h⟩ := m.set_mpos_eq axes
  rw [h]
  rfl

theorem advance_pulloff2 (h : m.phase = .Pulloff2) : m.advance = { m with phase := .CycleDone } := by
  unfold advance
  rw [h]
  rfl

/-- Only from `None` does the count come to `PrePulloff`. -/
theorem advance_prePulloff (h : m.advance.phase = .PrePulloff) : m.phase = .None := by
  unfold advance at h
  split_ifs at h
  cases hphase : m.phase with
  | None => rfl
  | _ =>
    rw [hphase] at h
    cases h

/-- A cycle that is not over after `nextPhase` is in a phase that comes later. -/
theorem runRank_advance (hover : ¬ m.advance.cycleOver axes) :
    m.advance.runRank < m.nextRank := by
  unfold runRank nextRank
  rw [advance_cycleMotors]
  have hpulloff2 : m.phase ≠ .Pulloff2 := by
    intro h
    apply hover
    rw [m.advance_pulloff2 h]
    exact .inl rfl
  rw [if_neg hpulloff2]
  by_cases hmotors : m.cycleMotors = 0
  · rw [if_pos (.inl hmotors), if_pos (.inl hmotors)]
    decide
  · by_cases hnone : m.phase = .None
    · rw [if_pos (.inr hnone : _ ∨ m.phase = .None)]
      split_ifs <;> decide
    · have hpre : ¬ (m.cycleMotors = 0 ∨ m.advance.phase = .PrePulloff) := by
        rintro (h | h)
        · exact hmotors h
        · exact hnone (m.advance_prePulloff h)
      rw [if_neg hpre]
      split_ifs <;> decide

theorem nextRank_pos : 0 < m.nextRank := by
  unfold nextRank
  split_ifs <;> decide

mutual

def nextPhase (m : Machine ρ) : Machine ρ :=
  if m.phase = .CycleDone then { m with undefined := true }
  else if m.advance.cycleOver axes then nextCycle ((m.advance.report (.nextPhase m.advance.phase)).set_mpos axes)
  else runPhase (m.advance.report (.nextPhase m.advance.phase))
  termination_by (m.remainingCycles.length, m.nextRank)
  decreasing_by
    · rw [set_mpos_remainingCycles, report_remainingCycles, advance_remainingCycles]
      exact Prod.Lex.right _ m.nextRank_pos
    · rw [report_remainingCycles, advance_remainingCycles]
      exact Prod.Lex.right _ (m.runRank_advance axes ‹_›)

def runPhase (m : Machine ρ) : Machine ρ :=
  if m.cycleMotors = 0 then nextPhase { m.beginPhase with phase := .Pulloff2 }
  else if m.phase = .PrePulloff ∧ m.limited &&& m.cycleMotors = 0 then nextPhase m.beginPhase
  else m.beginPhase.startMove
  termination_by (m.remainingCycles.length, m.runRank)
  decreasing_by
    · refine Prod.Lex.right _ ?_
      rw [runRank, if_pos (.inl ‹_›)]
      exact (by decide : 1 < 2)
    · refine Prod.Lex.right _ ?_
      have hphase : m.phase = .PrePulloff := (‹_ ∧ _› : _ ∧ _).1
      have hnext : m.beginPhase.nextRank = 1 := by
        rw [nextRank, if_neg (by rw [beginPhase, hphase]; decide), if_neg]
        rintro (h | h)
        · exact absurd h ‹_›
        · rw [beginPhase, hphase] at h
          cases h
      rw [hnext, runRank, if_pos (.inr hphase)]
      decide

def nextCycle (m : Machine ρ) : Machine ρ :=
  if m.state = .Alarm then { m with remainingCycles := [] }
  else
    match _hcycles : m.remainingCycles with
    | [] => m.done
    | cycle :: rest => runPhase (m.popCycle axes cycle rest)
  termination_by (m.remainingCycles.length, 0)
  decreasing_by
    refine Prod.Lex.left _ _ ?_
    rw [_hcycles]
    exact Nat.lt_succ_self _

end

/-- A switch has tripped. Where the kinematics stops the motion, the axes that are left are
planned again, and behind the last of them comes the next phase. -/
def limitReached : Machine ρ :=
  if m.phase.approach then
    let r := k.limitReached m.phaseAxes m.phaseMotors m.limited
    let m' : Machine ρ := { m.report (.limited m.limited) with phaseAxes := r.1, phaseMotors := r.2.1 }
    if r.2.2 then if r.1 ≠ 0 then m'.startMove else m'.nextPhase axes
    else m'
  else m

/-- The motion that was planned has run out. -/
def cycleStop : Machine ρ :=
  let m := m.report (.CycleStop m.limited)
  if m.phase.approach then m.fail .HomingFailApproach
  else if m.limited &&& m.phaseMotors ≠ 0 then m.fail .HomingFailPulloff
  else { m with phaseMotors := 0 }.nextPhase axes

def set_all_axes_unhomed : Machine ρ := if axes.mustHome then { m with unhomed_axes := axes.homingMask } else m

/-- The axes whose cycle is `set_mpos_only` do not move. Homing one of them alone ends here. -/
def setMposOnly : List (Axis ρ × Nat) → AxisMask → Machine ρ → Machine ρ × Option AxisMask
  | [], axisMask, m => (m, some axisMask)
  | a :: rest, axisMask, m =>
    match a.1.homing with
    | none => setMposOnly rest axisMask m
    | some homing =>
      if homing.cycle = -1 ∧ (axisMask = 0 ∨ axisMask.getLsbD a.2) then
        let m := { m with mpos := m.mpos.set a.2 homing.mpos }
        if axisMask = bitnum_to_mask a.2 then (m, none)
        else setMposOnly rest (axisMask &&& ~~~bitnum_to_mask a.2) m
      else setMposOnly rest axisMask m

/-- The cycles that are to be run: of the axes asked for, or else all of the configuration. -/
def cyclesOf (axisMask : AxisMask) : List AxisMask :=
  if axisMask ≠ 0 then [axisMask]
  else ((List.range 6).map fun cycle => axes.axis_mask_from_cycle (cycle + 1)).filter (· ≠ 0)

def run_cycles (axisMask : AxisMask) : Machine ρ :=
  if k.kinematics_homing axisMask then m
  else if ¬ k.canHome axisMask m.posLimitMask m.negLimitMask then { m with state := .Alarm }
  else
    match setMposOnly axes.axis.zipIdx axisMask m with
    | (m, none) => m
    | (m, some axisMask) =>
      if cyclesOf axes axisMask = [] then { m with remainingCycles := [], state := .Alarm }
      else { m with remainingCycles := cyclesOf axes axisMask, state := .Homing }.nextCycle axes

/-- `protocol_do_alarm`. -/
def protocol_do_alarm (alarm : ExecAlarm) : Machine ρ :=
  if alarm = .HardLimit ∨ alarm = .HardStop then { m.set_all_axes_unhomed axes with state := .Critical }
  else if alarm = .SoftLimit then { m with state := .Critical }
  else { m with state := .Alarm }

end Machine

/-- What happens to the machine. `leave` stands for the handlers that have nothing to do with
homing, `home` for `$H`, which the main task does not leave before homing has ended. -/
inductive Event where
  | switches (pos neg : MotorMask)
  | limit
  | cycleStop
  | safetyDoor
  | rtReset
  | sleep
  | alarm (alarm : ExecAlarm)
  | restart
  | disable_alarm_lock
  | crashHome
  | leave (state : State)
  | home (axisMask : AxisMask)
  deriving DecidableEq

def Machine.handle (axes : Axes ρ) (k : Kinematics) (m : Machine ρ) : Event → Machine ρ
  | .switches pos neg => { m with posLimitMask := pos, negLimitMask := neg }
  | .limit => if m.state = .Homing then m.limitReached axes k else m
  | .cycleStop => if m.state = .Homing then m.cycleStop axes else m
  | .safetyDoor => if m.state = .Homing then { m.fail .HomingFailDoor with state := .SafetyDoor } else m
  | .rtReset => if m.state = .Homing then { m.fail .HomingFailReset with abort := true } else { m with abort := true }
  | .sleep => { m with state := .Sleep }
  | .alarm alarm => m.protocol_do_alarm axes alarm
  | .restart => { m with abort := false }
  | .disable_alarm_lock => if m.state = .Alarm then { m with unhomed_axes := 0, state := .Idle } else m
  | .crashHome =>
    if m.state = .Homing then m
    else { (m.set_axis_homed 0).set_axis_homed 1 with homed_since_boot := true, state := .Idle }
  | .leave state => if m.state = .Homing ∨ state = .Homing then m else { m with state }
  | .home axisMask => if m.state = .Homing then m else m.run_cycles axes k axisMask

/-- What the reports tell of one phase: whether the axes were moved, and the switches at each trip and at
each stop of the motors. -/
structure Visit where
  phase : Phase
  moved : Bool := false
  touched : List MotorMask := []
  stops : List MotorMask := []
  deriving DecidableEq

/-- What they tell of one cycle: the phases that are over, and the one it is in. -/
structure Course where
  axes : AxisMask
  motors : MotorMask
  before : List Visit
  here : Visit
  deriving DecidableEq

/-- The cycle that has been begun last, until its axes are homed, and those whose axes have been. -/
structure Journal where
  current : Option Course := none
  homed : List Course := []
  deriving DecidableEq

def Journal.read (j : Journal) : Report → Journal
  | .HomingCycle axes motors =>
    { j with current := some { axes, motors, before := [], here := { phase := .PrePulloff } } }
  | .nextPhase phase =>
    { j with current := j.current.map fun c => { c with before := c.before ++ [c.here], here := { phase } } }
  | .limited motors =>
    { j with current := j.current.map fun c =>
    { c with here := { c.here with touched := c.here.touched ++ [motors] } } }
  | .CycleStop limited =>
    { j with current := j.current.map fun c => { c with here := { c.here with stops := c.here.stops ++ [limited] } } }
  | .Homed _ => { current := none, homed := j.homed ++ j.current.toList }
  | .move .. => { j with current := j.current.map fun c => { c with here := { c.here with moved := true } } }
  | .alarm _ => j

/-- An approach to the switches and a pull-off, as often as it says. -/
def rounds (n : Nat) : List Phase := (List.replicate n [.SlowApproach, .Pulloff1]).flatten

/-- The end of a cycle, where the motors of an axis may have to be squared. -/
def squaring (square : Bool) : List Phase := .Pulloff2 :: if square then [.CycleDone] else []

/-- The phases of a whole cycle: one fast approach, and slow ones up to the number of runs, each
followed by a pull-off. -/
def program (runs : Nat) (square : Bool) : List Phase :=
  [.PrePulloff, .FastApproach, .Pulloff0] ++ (rounds (runs - 1) ++ squaring square)

/-- The axes and the motors that are left of a phase after some trips of switches. -/
def Kinematics.left (k : Kinematics) (axes : AxisMask) (motors : MotorMask) (touched : List MotorMask) :
    AxisMask × MotorMask :=
  touched.foldl (fun p limited => ((k.limitReached p.1 p.2 limited).1, (k.limitReached p.1 p.2 limited).2.1))
    (axes, motors)

/-- The phase has ended as it should: an approach with the trip that left no axis, a pull-off with a stop at
which no switch of the motors was active. The one in front of the cycle is passed over where no axis was moved. -/
def Visit.Over (k : Kinematics) (axes : AxisMask) (motors : MotorMask) (v : Visit) : Prop :=
  match v.phase with
  | .FastApproach | .SlowApproach => v.touched ≠ [] ∧ (k.left axes motors v.touched).1 = 0
  | .Pulloff0 | .Pulloff1 | .Pulloff2 => ∃ limited, v.stops.getLast? = some limited ∧ limited &&& motors = 0
  | .PrePulloff => v.moved = true → ∃ limited, v.stops.getLast? = some limited ∧ limited &&& motors = 0
  | .None | .CycleDone => True

def Course.phases (c : Course) : List Phase := (c.before ++ [c.here]).map Visit.phase

/-- The cycle went through its whole program. One whose drivers home by themselves, or cannot, has none. -/
def Course.Sound {ρ : Type} (axes : Axes ρ) (k : Kinematics) (c : Course) : Prop :=
  c.motors = 0 ∨
    c.phases = program axes.homing_runs.toNat (axes.needsPulloff2 c.motors) ∧ ∀ v ∈ c.before, v.Over k c.axes c.motors

/-- What the reports of a machine tell of its cycles. -/
def Machine.journal {ρ : Type} (m : Machine ρ) : Journal := m.reports.foldl Journal.read {}

/-- The rest of the program, the phase the cycle is in included. -/
def todo (square : Bool) : Phase → Nat → List Phase
  | .PrePulloff, runs => .PrePulloff :: .FastApproach :: .Pulloff0 :: (rounds (runs - 1) ++ squaring square)
  | .FastApproach, runs => .FastApproach :: .Pulloff0 :: (rounds (runs - 1) ++ squaring square)
  | .Pulloff0, runs => .Pulloff0 :: (rounds (runs - 1) ++ squaring square)
  | .SlowApproach, runs => .SlowApproach :: .Pulloff1 :: (rounds (runs - 2) ++ squaring square)
  | .Pulloff1, runs => .Pulloff1 :: (rounds (runs - 2) ++ squaring square)
  | .Pulloff2, _ => squaring square
  | .CycleDone, _ => [.CycleDone]
  | .None, _ => []

variable {axes : Axes ρ} {k : Kinematics} {m : Machine ρ} {c : Course}

/-- The count of the runs fits the phase. -/
def Machine.Counts (axes : Axes ρ) (m : Machine ρ) : Prop :=
  match m.phase with
  | .PrePulloff | .FastApproach | .Pulloff0 => 1 ≤ m.runs.toNat
  | .SlowApproach | .Pulloff1 => 2 ≤ m.runs.toNat
  | .Pulloff2 => axes.needsPulloff2 m.cycleMotors = true
  | .None | .CycleDone => False

/-- The cycle the journal has last agrees with the variables of the machine. -/
structure Underway (axes : Axes ρ) (k : Kinematics) (m : Machine ρ) (c : Course) : Prop where
  cycleAxes : c.axes = m.cycleAxes
  cycleMotors : c.motors = m.cycleMotors
  moves : c.motors ≠ 0
  here : c.here.phase = m.phase
  counts : m.Counts axes
  phases : c.before.map Visit.phase ++ todo (axes.needsPulloff2 c.motors) m.phase m.runs.toNat =
    program axes.homing_runs.toNat (axes.needsPulloff2 c.motors)
  passed : ∀ v ∈ c.before, v.Over k c.axes c.motors

/-- The axes and the motors of the phase are those that are left of it. -/
structure Pending (k : Kinematics) (m : Machine ρ) (c : Course) : Prop where
  approach : m.phase.approach = true → k.left c.axes c.motors c.here.touched = (m.phaseAxes, m.phaseMotors)
  pulloff : m.phase.approach = false → m.phaseMotors = m.cycleMotors

@[simp] theorem journal_report (r : Report) : (m.report r).journal = m.journal.read r := by
  rw [Machine.journal, Machine.report, List.foldl_append]
  rfl

theorem journal_startMove : m.startMove.journal =
    { m.journal with current := m.journal.current.map fun c => { c with here := { c.here with moved := true } } } := by
  rw [Machine.startMove, journal_report]
  rfl

theorem rounds_succ (n : Nat) : rounds (n + 1) = .SlowApproach :: .Pulloff1 :: rounds n := by
  rw [rounds, List.replicate_succ, List.flatten_cons]
  rfl

theorem toNat_sub_one {runs : UInt32} (h : 1 ≤ runs.toNat) : (runs - 1).toNat = runs.toNat - 1 :=
  UInt32.toNat_sub_of_le runs 1 (UInt32.le_iff_toNat_le.mpr h)

/-- After a pull-off the count of the runs decides whether another approach comes. -/
theorem advance_pulloff1 (hphase : m.phase = .Pulloff1) (hruns : 2 ≤ m.runs.toNat) :
    m.advance = { m with phase := if m.runs.toNat = 2 then .Pulloff2 else .SlowApproach, runs := m.runs - 1 } := by
  have hless : 1 < m.runs - 1 ↔ m.runs.toNat ≠ 2 := by
    rw [UInt32.lt_iff_toNat_lt, toNat_sub_one (by omega), show (1 : UInt32).toNat = 1 from rfl]
    omega
  rw [Machine.advance, hphase, if_neg (by rintro ⟨h, -⟩; cases h),
    if_pos (by decide : Phase.Pulloff1.succ = .Pulloff2)]
  by_cases htwo : m.runs.toNat = 2
  · rw [if_neg (fun h => hless.mp h htwo), if_pos htwo]
  · rw [if_pos (hless.mpr htwo), if_neg htwo]

/-- With one run the fast approach is the only one. -/
theorem advance_pulloff0 (hphase : m.phase = .Pulloff0) :
    m.advance = { m with phase := if m.runs.toNat = 1 then .Pulloff2 else .SlowApproach } := by
  have hone : m.runs = 1 ↔ m.runs.toNat = 1 := by
    rw [← UInt32.toNat_inj]
    rfl
  rw [Machine.advance, hphase]
  by_cases h : m.runs.toNat = 1
  · rw [if_pos ⟨rfl, hone.mpr h⟩, if_pos h]
  · rw [if_neg (fun hpair => h (hone.mp hpair.2)), if_neg (by decide), if_neg h]
    rfl

/-- Elsewhere the phases follow one another as they are numbered. -/
theorem advance_succ (hzero : m.phase ≠ .Pulloff0) (hone : m.phase ≠ .Pulloff1) :
    m.advance = { m with phase := m.phase.succ } := by
  rw [Machine.advance]
  cases hphase : m.phase with
  | Pulloff0 => exact absurd hphase hzero
  | Pulloff1 => exact absurd hphase hone
  | _ => rw [if_neg (by rintro ⟨h, -⟩; cases h), if_neg (by intro h; cases h)]

/-- The count of `nextPhase` goes along the program, and says of a phase that the cycle is over
when nothing of the program comes behind it. -/
theorem todo_advance (hcounts : m.Counts axes) :
    todo (axes.needsPulloff2 m.cycleMotors) m.phase m.runs.toNat =
        m.phase :: todo (axes.needsPulloff2 m.cycleMotors) m.advance.phase m.advance.runs.toNat ∧
      (m.advance.cycleOver axes → todo (axes.needsPulloff2 m.cycleMotors) m.advance.phase m.advance.runs.toNat =
        [m.advance.phase]) ∧
      (¬ m.advance.cycleOver axes → m.advance.Counts axes) := by
  have hsquaring : ∀ square, squaring square = .Pulloff2 :: if square then [.CycleDone] else [] := fun _ => rfl
  have hlast : ∀ m' : Machine ρ, m'.phase = .Pulloff2 → m'.cycleMotors = m.cycleMotors →
      (m'.cycleOver axes → squaring (axes.needsPulloff2 m.cycleMotors) = [m'.phase]) ∧
      (¬ m'.cycleOver axes → m'.Counts axes) := by
    intro m' hphase hmotors
    rw [Machine.cycleOver, Machine.Counts, hphase, hmotors]
    constructor
    · rintro (h | ⟨-, h⟩)
      · cases h
      · rw [h]
        rfl
    · intro h
      cases hneeds : axes.needsPulloff2 m.cycleMotors with
      | true => rfl
      | false => exact absurd (.inr ⟨rfl, hneeds⟩) h
  have hmiddle : ∀ m' : Machine ρ, m'.phase ≠ .Pulloff2 → m'.phase ≠ .CycleDone → ¬ m'.cycleOver axes := by
    rintro m' htwo hdone (h | ⟨h, -⟩)
    · exact hdone h
    · exact htwo h
  unfold Machine.Counts at hcounts
  cases hphase : m.phase with
  | None | CycleDone =>
    rw [hphase] at hcounts
    exact hcounts.elim
  | PrePulloff | FastApproach | SlowApproach =>
    rw [hphase] at hcounts
    rw [advance_succ (by rw [hphase]; decide) (by rw [hphase]; decide), hphase]
    refine ⟨rfl, fun h => absurd h (hmiddle _ (by simp [Phase.succ]) (by simp [Phase.succ])), fun _ => hcounts⟩
  | Pulloff0 =>
    rw [hphase] at hcounts
    rw [advance_pulloff0 hphase]
    by_cases hone : m.runs.toNat = 1
    · rw [if_pos hone, hone]
      exact ⟨rfl, hlast _ rfl rfl⟩
    · rw [if_neg hone]
      have hruns : m.runs.toNat = m.runs.toNat - 2 + 1 + 1 := by
        change 1 ≤ m.runs.toNat at hcounts
        omega
      refine ⟨?_, fun h => absurd h (hmiddle _ (by simp) (by simp)), fun _ => ?_⟩
      · change _ :: (rounds (m.runs.toNat - 1) ++ _) = _ :: _ :: _ :: (rounds (m.runs.toNat - 2) ++ _)
        rw [show m.runs.toNat - 1 = m.runs.toNat - 2 + 1 by omega, rounds_succ]
        rfl
      · change 2 ≤ m.runs.toNat
        omega
  | Pulloff1 =>
    rw [hphase] at hcounts
    change 2 ≤ m.runs.toNat at hcounts
    rw [advance_pulloff1 hphase hcounts]
    by_cases htwo : m.runs.toNat = 2
    · rw [if_pos htwo, htwo]
      exact ⟨rfl, hlast _ rfl rfl⟩
    · rw [if_neg htwo]
      refine ⟨?_, fun h => absurd h (hmiddle _ (by simp) (by simp)), fun _ => ?_⟩
      · change _ :: (rounds (m.runs.toNat - 2) ++ _) = _ :: _ :: _ :: (rounds ((m.runs - 1).toNat - 2) ++ _)
        rw [toNat_sub_one (by omega), show m.runs.toNat - 2 = m.runs.toNat - 1 - 2 + 1 by omega, rounds_succ]
        rfl
      · change 2 ≤ (m.runs - 1).toNat
        rw [toNat_sub_one (by omega)]
        omega
  | Pulloff2 =>
    rw [hphase] at hcounts
    rw [advance_succ (by rw [hphase]; decide) (by rw [hphase]; decide), hphase]
    refine ⟨?_, fun _ => rfl, fun h => absurd (.inl rfl) h⟩
    change squaring _ = [.Pulloff2, .CycleDone]
    rw [show axes.needsPulloff2 m.cycleMotors = true from hcounts]
    rfl

end DuneWeaver.Homing
