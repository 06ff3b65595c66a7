import DuneWeaver.Binary32.Order
import Mathlib.Data.Nat.Bitwise
import Mathlib.Tactic.Order

namespace DuneWeaver.Kinematics

open Binary32 (Value Extended)
open Binary32.Value

/-- What of an axis' `_homing` the limits depend on. -/
structure HomingSettings where
  mpos : Value
  positiveDirection : Bool

/-- What `constrain_jog` reads of an axis: its travel and the pulloff of its first motor, which the configuration
keeps positive. -/
structure AxisSettings where
  softLimits : Bool
  homing : Option HomingSettings
  maxTravel : Value
  pulloff : Value
  maxTravel_pos : lt zero maxTravel = true
  pulloff_pos : lt zero pulloff = true

def AxisSettings.mpos (a : AxisSettings) : Value :=
  match a.homing with
  | none => zero
  | some homing => homing.mpos

/-- `!homing || homing->_positiveDirection` -/
def AxisSettings.towardsMax (a : AxisSettings) : Bool :=
  match a.homing with
  | none => true
  | some homing => homing.positiveDirection

def limitsMaxPosition (a : AxisSettings) : Value := if a.towardsMax then a.mpos else a.mpos.add a.maxTravel

def limitsMinPosition (a : AxisSettings) : Value := if a.towardsMax then a.mpos.sub a.maxTravel else a.mpos

/-- The limit switches of the motors, as bit masks. -/
structure LimitState where
  posLimitMask : Nat
  negLimitMask : Nat

def limits_get_state (l : LimitState) : Nat := l.posLimitMask ||| l.negLimitMask

def motor_bit (axis motor : Nat) : Nat := if motor = 0 then axis else axis + 16

def axes_to_motors (axes : Nat) : Nat := axes ||| axes <<< 16

/-- One axis of `constrain_jog`: the target that it leaves. -/
def constrain_axis (l : LimitState) (axis : Nat) (a : AxisSettings) (current target : Value) : Value :=
  if a.softLimits = true ∧ eq target current = false then
    let move_positive := lt current target
    if (move_positive = false ∧ lt current (limitsMinPosition a)) ∨
        (move_positive ∧ lt (limitsMaxPosition a) current) then
      if (limits_get_state l).testBit (motor_bit axis 0) = false ∧
          (limits_get_state l).testBit (motor_bit axis 1) = false then current
      else
        let jog_dist := target.sub current
        let axisMotors := axes_to_motors (1 <<< axis)
        let posLimited := l.posLimitMask &&& axisMotors ≠ 0
        let negLimited := l.negLimitMask &&& axisMotors ≠ 0
        if ¬(posLimited ↔ negLimited) ∧ ((negLimited ∧ lt jog_dist zero) ∨ (posLimited ∧ lt zero jog_dist)) then current
        else
          let nudge_max := a.pulloff
          if lt nudge_max jog_dist.fabsf then
            if le zero jog_dist then current.add nudge_max else current.add nudge_max
          else target
    else if lt target (limitsMinPosition a) then limitsMinPosition a
    else if lt (limitsMaxPosition a) target then limitsMaxPosition a
    else target
  else target

/-- `constrain_jog`, axis by axis. -/
def constrain_jog (l : LimitState) (axes : Nat → AxisSettings) (n_axis : Nat) (current target : Nat → Value) :
    Nat → Value :=
  (List.range n_axis).foldl (fun target axis =>
    Function.update target axis (constrain_axis l axis (axes axis) (current axis) (target axis))) target

section Loop

variable {l : LimitState} {axes : Nat → AxisSettings} {n_axis axis : Nat} {current target : Nat → Value}

theorem constrain_jog_succ (l : LimitState) (axes : Nat → AxisSettings) (n_axis : Nat) (current target : Nat → Value) :
    constrain_jog l axes (n_axis + 1) current target =
      Function.update (constrain_jog l axes n_axis current target) n_axis
        (constrain_axis l n_axis (axes n_axis) (current n_axis)
          (constrain_jog l axes n_axis current target n_axis)) := by
  unfold constrain_jog
  rw [List.range_succ, List.foldl_append]
  rfl

/-- Each axis is constrained by itself. -/
theorem constrain_jog_apply (l : LimitState) (axes : Nat → AxisSettings) (n_axis : Nat) (current target : Nat → Value)
    (axis : Nat) : constrain_jog l axes n_axis current target axis =
      if axis < n_axis then constrain_axis l axis (axes axis) (current axis) (target axis) else target axis := by
  induction n_axis generalizing axis with
  | zero =>
    rw [if_neg (Nat.not_lt_zero axis)]
    rfl
  | succ n_axis ih =>
    rw [constrain_jog_succ]
    by_cases hlast : axis = n_axis
    · subst hlast
      rw [Function.update_self, ih, if_neg (lt_irrefl axis), if_pos (Nat.lt_succ_self axis)]
    · rw [Function.update_of_ne hlast, ih]
      have hlt : axis < n_axis ↔ axis < n_axis + 1 := by omega
      simp only [hlt]

end Loop

section Axis

variable {l : LimitState} {axis : Nat} {a : AxisSettings} {current target : Value}

/-- A switch of the axis is active. -/
def SwitchActive (l : LimitState) (axis : Nat) : Prop :=
  (limits_get_state l).testBit (motor_bit axis 0) = true ∨ (limits_get_state l).testBit (motor_bit axis 1) = true

/-- The jog is held off by the only kind of switch that is active, at the end that it leads to. -/
def Blocked (l : LimitState) (axis : Nat) (current target : Value) : Prop :=
  ¬(l.posLimitMask &&& axes_to_motors (1 <<< axis) ≠ 0 ↔ l.negLimitMask &&& axes_to_motors (1 <<< axis) ≠ 0) ∧
    ((l.negLimitMask &&& axes_to_motors (1 <<< axis) ≠ 0 ∧ lt (target.sub current) zero = true) ∨
      (l.posLimitMask &&& axes_to_motors (1 <<< axis) ≠ 0 ∧ lt zero (target.sub current) = true))

/-- The jog is of more than the pulloff, as far as its rounded length tells. -/
def Far (a : AxisSettings) (current target : Value) : Prop := lt a.pulloff (fabsf (target.sub current)) = true

/-- What a jog of an axis may be constrained to. How far it leads out is measured without rounding. -/
structure Shortens (l : LimitState) (axis : Nat) (a : AxisSettings) (current target left : Value) : Prop where
  between : (le current left = true ∧ le left target = true) ∨ (le target left = true ∧ le left current = true)
  inside : le (limitsMinPosition a) current = true → le current (limitsMaxPosition a) = true →
    le (limitsMinPosition a) left = true ∧ le left (limitsMaxPosition a) = true
  below : lt current (limitsMinPosition a) = true → lt left current = true →
    current.ext ≤ left.ext + a.pulloff.ext ∧ SwitchActive l axis
  above : lt (limitsMaxPosition a) current = true → lt current left = true →
    left.ext ≤ current.ext + a.pulloff.ext ∧ SwitchActive l axis

/-- A jog of more than the pulloff that leads further out of the lower end of the range, with a switch active that does
not block it. -/
def Reverses (l : LimitState) (axis : Nat) (a : AxisSettings) (current target : Value) : Prop :=
  lt target current = true ∧ lt current (limitsMinPosition a) = true ∧ SwitchActive l axis ∧
    ¬Blocked l axis current target ∧ Far a current target ∧ lt current (current.add a.pulloff) = true

/-- A jog from outside of the range that leads towards it and ends before it. -/
def FallsShort (a : AxisSettings) (current target : Value) : Prop :=
  (lt current target = true ∧ lt target (limitsMinPosition a) = true) ∨
    (lt (limitsMaxPosition a) target = true ∧ lt target current = true)

/-- A nudge out of the range that the rounding makes longer than the pulloff: the end of a jog that is cut is
rounded up, or the length of one that is not is rounded down. -/
def Stretches (l : LimitState) (axis : Nat) (a : AxisSettings) (current target : Value) : Prop :=
  SwitchActive l axis ∧ ¬Blocked l axis current target ∧
    ((lt current target = true ∧ lt (limitsMaxPosition a) current = true ∧
        ((Far a current target ∧ current.ext + a.pulloff.ext < (current.add a.pulloff).ext) ∨
          (¬Far a current target ∧ current.ext + a.pulloff.ext < target.ext))) ∨
      (lt target current = true ∧ lt current (limitsMinPosition a) = true ∧ ¬Far a current target ∧
        target.ext + a.pulloff.ext < current.ext))

/-- The jog leads further out of the range that the axis is out of already. -/
def LeadsOut (a : AxisSettings) (current target : Value) : Prop :=
  (lt target current = true ∧ lt current (limitsMinPosition a) = true) ∨
    (lt current target = true ∧ lt (limitsMaxPosition a) current = true)

/-- What `constrain_axis` can make of a target. -/
inductive Constrained (l : LimitState) (axis : Nat) (a : AxisSettings) (current target : Value) : Value → Prop where
  | still (h : eq target current = true) : Constrained l axis a current target target
  | cancelled (hout : LeadsOut a current target) (h : ¬SwitchActive l axis ∨ Blocked l axis current target) :
      Constrained l axis a current target current
  | nudged (hout : LeadsOut a current target) (hactive : SwitchActive l axis) (hfree : ¬Blocked l axis current target)
      (hfar : Far a current target) : Constrained l axis a current target (current.add a.pulloff)
  | near (hout : LeadsOut a current target) (hactive : SwitchActive l axis) (hfree : ¬Blocked l axis current target)
      (hnear : ¬Far a current target) : Constrained l axis a current target target
  | low (hin : ¬LeadsOut a current target) (h : lt target (limitsMinPosition a) = true) :
      Constrained l axis a current target (limitsMinPosition a)
  | high (hin : ¬LeadsOut a current target) (h : lt (limitsMaxPosition a) target = true) :
      Constrained l axis a current target (limitsMaxPosition a)
  | within (hin : ¬LeadsOut a current target) (hmin : ¬lt target (limitsMinPosition a) = true)
      (hmax : ¬lt (limitsMaxPosition a) target = true) : Constrained l axis a current target target

theorem leadsOut_iff (hcurrent : current ≠ nan) (htarget : target ≠ nan) (hmove : ¬eq target current = true) :
    LeadsOut a current target ↔ (lt current target = false ∧ lt current (limitsMinPosition a)) ∨
      (lt current target ∧ lt (limitsMaxPosition a) current) := by
  have hless : lt target current = true ↔ lt current target = false := by
    rw [eq_iff htarget hcurrent] at hmove
    rw [← Bool.not_eq_true, lt_iff htarget hcurrent, lt_iff hcurrent htarget, not_lt]
    exact ⟨le_of_lt, fun h => lt_of_le_of_ne h hmove⟩
  rw [LeadsOut, hless]

theorem constrain_axis_cases (hsoft : a.softLimits = true) (hcurrent : current ≠ nan) (htarget : target ≠ nan) :
    Constrained l axis a current target (constrain_axis l axis a current target) := by
  unfold constrain_axis
  by_cases hmove : eq target current = true
  · rw [if_neg fun h => absurd (hmove.symm.trans h.2) (by decide)]
    exact .still hmove
  rw [if_pos ⟨hsoft, Bool.eq_false_of_not_eq_true hmove⟩]
  dsimp only
  by_cases hout : LeadsOut a current target
  · rw [if_pos ((leadsOut_iff hcurrent htarget hmove).mp hout)]
    split_ifs with hidle hblocked hfar hpositive
    · refine .cancelled hout (.inl fun hactive => ?_)
      obtain hactive | hactive := hactive
      · exact absurd (hidle.1.symm.trans hactive) Bool.false_ne_true
      · exact absurd (hidle.2.symm.trans hactive) Bool.false_ne_true
    · exact .cancelled hout (.inr hblocked)
    all_goals
      have hactive : SwitchActive l axis := by
        rw [not_and_or, Bool.not_eq_false, Bool.not_eq_false] at hidle
        exact hidle
    · exact .nudged hout hactive hblocked hfar
    · exact .nudged hout hactive hblocked hfar
    · exact .near hout hactive hblocked hfar
  · rw [if_neg (mt (leadsOut_iff hcurrent htarget hmove).mpr hout)]
    split_ifs with hlow hhigh
    · exact .low hout hlow
    · exact .high hout hhigh
    · exact .within hout hlow hhigh

/-- The limits are in order wherever they are numbers. -/
theorem limitsMin_le_max (hmax : limitsMaxPosition a ≠ nan) :
    (limitsMinPosition a).ext ≤ (limitsMaxPosition a).ext := by
  have htravel := ext_lt a.maxTravel_pos
  rw [ext_zero] at htravel
  unfold limitsMaxPosition at hmax
  unfold limitsMinPosition limitsMaxPosition
  by_cases htowards : a.towardsMax = true
  · rw [if_pos htowards] at hmax ⊢
    rw [if_pos htowards]
    exact sub_le_self htravel hmax
  · rw [if_neg htowards] at hmax ⊢
    rw [if_neg htowards]
    exact le_add_self htravel hmax

theorem limits_of_lt {x y : Value} (hlow : lt x (limitsMinPosition a) = true)
    (hhigh : lt (limitsMaxPosition a) y = true) : x.ext < y.ext := by
  have hrange := limitsMin_le_max (number_of_lt hhigh).1
  have hx := ext_lt hlow
  have hy := ext_lt hhigh
  order

theorem not_lt_of_lt {x y : Value} (h : lt x y = true) : ¬lt y x = true := fun h' => lt_asymm (ext_lt h) (ext_lt h')

theorem le_of_lt_value {x y : Value} (h : lt x y = true) : le x y = true := by
  rw [le, h, Bool.true_or]

theorem le_refl_value {x : Value} (hx : x ≠ nan) : le x x = true := (le_iff hx hx).mpr le_rfl

/-- A jog that leads out of the range does not fall short of it. -/
theorem LeadsOut.not_fallsShort (h : LeadsOut a current target) : ¬FallsShort a current target := by
  rintro (⟨hon, hshort⟩ | ⟨hshort, hback⟩)
  · obtain ⟨hless, -⟩ | ⟨-, hhigh⟩ := h
    · exact not_lt_of_lt hon hless
    · exact lt_asymm (ext_lt hon) (limits_of_lt hshort hhigh)
  · obtain ⟨-, hlow⟩ | ⟨hless, -⟩ := h
    · exact lt_asymm (ext_lt hback) (limits_of_lt hlow hshort)
    · exact not_lt_of_lt hback hless

/-- Only jogs that lead out are reversed or stretched. -/
theorem Reverses.leadsOut (h : Reverses l axis a current target) : LeadsOut a current target := .inl ⟨h.1, h.2.1⟩

theorem Stretches.leadsOut (h : Stretches l axis a current target) : LeadsOut a current target := by
  obtain ⟨-, -, ⟨hless, hhigh, -⟩ | ⟨hless, hlow, -⟩⟩ := h
  · exact .inr ⟨hless, hhigh⟩
  · exact .inl ⟨hless, hlow⟩

/-- A target that is left as it is. -/
theorem Shortens.of_kept (hcurrent : current ≠ nan) (htarget : target ≠ nan)
    (hinside : le (limitsMinPosition a) current = true → le current (limitsMaxPosition a) = true →
      le (limitsMinPosition a) target = true ∧ le target (limitsMaxPosition a) = true)
    (hbelow : lt target current = true → lt current (limitsMinPosition a) = true →
      current.ext ≤ target.ext + a.pulloff.ext ∧ SwitchActive l axis)
    (habove : lt current target = true → lt (limitsMaxPosition a) current = true →
      target.ext ≤ current.ext + a.pulloff.ext ∧ SwitchActive l axis) :
    Shortens l axis a current target target where
  between := by
    rw [le_iff hcurrent htarget, le_iff htarget htarget, le_iff htarget hcurrent]
    exact (le_total current.ext target.ext).imp (fun h => ⟨h, le_rfl⟩) fun h => ⟨le_rfl, h⟩
  inside := hinside
  below := fun hlow hback => hbelow hback hlow
  above := fun hhigh hon => habove hon hhigh

theorem shortens_cancelled (hcurrent : current ≠ nan) (htarget : target ≠ nan) :
    Shortens l axis a current target current where
  between := by
    rw [le_iff hcurrent hcurrent, le_iff hcurrent htarget, le_iff htarget hcurrent]
    exact (le_total current.ext target.ext).imp (fun h => ⟨le_rfl, h⟩) fun h => ⟨h, le_rfl⟩
  inside := fun hmin hmax => ⟨hmin, hmax⟩
  below := fun _ hback => absurd (ext_lt hback) (lt_irrefl _)
  above := fun _ hon => absurd (ext_lt hon) (lt_irrefl _)

/-- The position and the pulloff of a jog that is cut are finite, and it does not pass its target. -/
theorem nudge_up (hless : lt current target = true) (hhigh : lt (limitsMaxPosition a) current = true)
    (hfar : Far a current target) : current.add a.pulloff ≠ nan ∧ current.ext ≤ (current.add a.pulloff).ext ∧
      (current.add a.pulloff).ext ≤ target.ext := by
  have htarget := (number_of_lt hless).2
  have hpulloff := ext_lt a.pulloff_pos
  rw [ext_zero] at hpulloff
  obtain ⟨s, c, rfl⟩ := finite_of_between (lt_of_le_of_lt bot_le (ext_lt hhigh))
    (lt_of_lt_of_le (ext_lt hless) (Extended.le_infinity _))
  obtain ⟨t, p, hp⟩ := finite_of_between (lt_of_le_of_lt bot_le hpulloff)
    (lt_of_lt_of_le (ext_lt hfar) (Extended.le_infinity _))
  unfold Far at hfar
  rw [hp] at hpulloff hfar ⊢
  have hsum : (finite s c).add (finite t p) ≠ nan := ofRat_ne_nan _ _
  exact ⟨hsum, le_add_self hpulloff hsum, add_le htarget (add_le_of_lt_fabsf_sub (ext_lt hless) hfar)⟩

theorem nudge_down (hless : lt target current = true) (hlow : lt current (limitsMinPosition a) = true)
    (hfar : Far a current target) : current.add a.pulloff ≠ nan ∧ current.ext ≤ (current.add a.pulloff).ext := by
  have hpulloff := ext_lt a.pulloff_pos
  rw [ext_zero] at hpulloff
  obtain ⟨s, c, rfl⟩ := finite_of_between (lt_of_le_of_lt bot_le (ext_lt hless))
    (lt_of_lt_of_le (ext_lt hlow) (Extended.le_infinity _))
  obtain ⟨t, p, hp⟩ := finite_of_between (lt_of_le_of_lt bot_le hpulloff)
    (lt_of_lt_of_le (ext_lt hfar) (Extended.le_infinity _))
  rw [hp] at hpulloff ⊢
  have hsum : (finite s c).add (finite t p) ≠ nan := ofRat_ne_nan _ _
  exact ⟨hsum, le_add_self hpulloff hsum⟩

/-- A nudge is shortened unless it is reversed or stretched. -/
theorem shortens_nudged (hout : LeadsOut a current target) (hactive : SwitchActive l axis)
    (hfree : ¬Blocked l axis current target) (hfar : Far a current target) :
    Shortens l axis a current target (current.add a.pulloff) ↔
      ¬Reverses l axis a current target ∧ ¬Stretches l axis a current target := by
  obtain ⟨hless, hlow⟩ | ⟨hless, hhigh⟩ := hout
  · -- the pulloff is added in either direction
    obtain ⟨hcurrent, -⟩ := number_of_lt hlow
    obtain ⟨hsum, hup⟩ := nudge_down hless hlow hfar
    have hback := ext_lt hless
    have hstretch : ¬Stretches l axis a current target := by
      rintro ⟨-, -, ⟨hon, -⟩ | ⟨-, -, hnear, -⟩⟩
      · exact not_lt_of_lt hless hon
      · exact hnear hfar
    by_cases hmoved : lt current (current.add a.pulloff) = true
    · refine iff_of_false (fun h => ?_) fun h => h.1 ⟨hless, hlow, hactive, hfree, hfar, hmoved⟩
      have hon := ext_lt hmoved
      obtain ⟨-, hle⟩ | ⟨-, hle⟩ := h.between
      · have htarget := ext_le hle
        order
      · have hstill := ext_le hle
        order
    · rw [lt_iff hcurrent hsum] at hmoved
      refine iff_of_true ⟨.inr ⟨?_, ?_⟩, fun hmin _ => ?_, fun _ hless' => ?_, fun hhigh => ?_⟩
        ⟨fun h => hmoved (ext_lt h.2.2.2.2.2), hstretch⟩
      · exact (le_iff (number_of_lt hless).1 hsum).mpr (hback.le.trans hup)
      · exact (le_iff hsum hcurrent).mpr (not_lt.mp hmoved)
      · exact absurd (ext_le hmin) (not_le.mpr (ext_lt hlow))
      · exact absurd (ext_lt hless') (not_lt.mpr hup)
      · exact absurd (limits_of_lt hlow hhigh) (lt_irrefl _)
  · obtain ⟨hcurrent, htarget⟩ := number_of_lt hless
    obtain ⟨hsum, hup, hon⟩ := nudge_up hless hhigh hfar
    have hreverses : ¬Reverses l axis a current target := fun h => not_lt_of_lt hless h.1
    constructor
    · refine fun h => ⟨hreverses, ?_⟩
      rintro ⟨-, -, ⟨-, -, ⟨-, hlong⟩ | ⟨hnear, -⟩⟩ | ⟨hback, -⟩⟩
      · have hpulloff := ext_lt a.pulloff_pos
        rw [ext_zero] at hpulloff
        have hexact : current.ext ≤ current.ext + a.pulloff.ext := le_add_of_nonneg_right hpulloff.le
        have hmoved := (lt_iff hcurrent hsum).mpr (lt_of_le_of_lt hexact hlong)
        exact absurd (h.above hhigh hmoved).1 (not_le.mpr hlong)
      · exact hnear hfar
      · exact not_lt_of_lt hless hback
    · rintro ⟨-, hstretch⟩
      refine ⟨.inl ⟨(le_iff hcurrent hsum).mpr hup, (le_iff hsum htarget).mpr hon⟩, fun _ hmax => ?_,
        fun hlow => ?_, fun _ _ => ⟨not_lt.mp fun hlong => hstretch ?_, hactive⟩⟩
      · exact absurd (ext_le hmax) (not_le.mpr (ext_lt hhigh))
      · exact absurd (limits_of_lt hlow hhigh) (lt_irrefl _)
      · exact ⟨hactive, hfree, .inl ⟨hless, hhigh, .inl ⟨hfar, hlong⟩⟩⟩

/-- So is a jog out of the range that is not cut. -/
theorem shortens_near (hout : LeadsOut a current target) (hactive : SwitchActive l axis)
    (hfree : ¬Blocked l axis current target) (hnear : ¬Far a current target) :
    Shortens l axis a current target target ↔
      ¬Reverses l axis a current target ∧ ¬Stretches l axis a current target := by
  have hreverses : ¬Reverses l axis a current target := fun h => hnear h.2.2.2.2.1
  have hnumbers : current ≠ nan ∧ target ≠ nan := by
    obtain ⟨hless, -⟩ | ⟨hless, -⟩ := hout
    · exact (number_of_lt hless).symm
    · exact number_of_lt hless
  constructor
  · refine fun h => ⟨hreverses, ?_⟩
    rintro ⟨-, -, ⟨hless, hhigh, ⟨hfar, -⟩ | ⟨-, hlong⟩⟩ | ⟨hless, hlow, -, hlong⟩⟩
    · exact hnear hfar
    · exact absurd (h.above hhigh hless).1 (not_le.mpr hlong)
    · exact absurd (h.below hlow hless).1 (not_le.mpr hlong)
  · rintro ⟨-, hstretch⟩
    refine .of_kept hnumbers.1 hnumbers.2 (fun hmin hmax => ?_)
      (fun hless hlow => ⟨not_lt.mp fun hlong => hstretch ?_, hactive⟩)
      fun hless hhigh => ⟨not_lt.mp fun hlong => hstretch ?_, hactive⟩
    · obtain ⟨-, hlow⟩ | ⟨-, hhigh⟩ := hout
      · exact absurd (ext_le hmin) (not_le.mpr (ext_lt hlow))
      · exact absurd (ext_le hmax) (not_le.mpr (ext_lt hhigh))
    · exact ⟨hactive, hfree, .inr ⟨hless, hlow, hnear, hlong⟩⟩
    · exact ⟨hactive, hfree, .inl ⟨hless, hhigh, .inr ⟨hnear, hlong⟩⟩⟩

/-- A jog to below the range is cut at its lower end, which lies on the way unless the axis is below it too. -/
theorem shortens_low (hcurrent : current ≠ nan) (hin : ¬LeadsOut a current target) (hmove : ¬eq target current = true)
    (hlow : lt target (limitsMinPosition a) = true) :
    Shortens l axis a current target (limitsMinPosition a) ↔ ¬FallsShort a current target := by
  obtain ⟨htarget, hmin⟩ := number_of_lt hlow
  have hbelow := ext_lt hlow
  by_cases houtside : lt current (limitsMinPosition a) = true
  · have hon : lt current target = true := by
      by_contra hback
      refine hin ((leadsOut_iff hcurrent htarget hmove).mpr (.inl ⟨?_, houtside⟩))
      exact Bool.eq_false_of_not_eq_true hback
    refine iff_of_false (fun h => ?_) fun h => h (.inl ⟨hon, hlow⟩)
    have hout := ext_lt houtside
    obtain ⟨-, hle⟩ | ⟨-, hle⟩ := h.between
    · have htop := ext_le hle
      order
    · have htop := ext_le hle
      order
  · have hinside := houtside
    rw [lt_iff hcurrent hmin, not_lt] at hinside
    refine iff_of_true ⟨.inr ⟨le_of_lt_value hlow, (le_iff hmin hcurrent).mpr hinside⟩, fun _ hmax => ?_,
      fun h => absurd h houtside, fun hhigh hon => ?_⟩ ?_
    · have hnumber := (number_of_le hmax).2
      exact ⟨le_refl_value hmin, (le_iff hmin hnumber).mpr (limitsMin_le_max hnumber)⟩
    · exact absurd (ext_lt hon) (not_lt.mpr hinside)
    · rintro (⟨hon, -⟩ | ⟨hhigh, -⟩)
      · have htop := ext_lt hon
        order
      · exact absurd (limits_of_lt hlow hhigh) (lt_irrefl _)

theorem shortens_high (hcurrent : current ≠ nan) (hin : ¬LeadsOut a current target) (hmove : ¬eq target current = true)
    (hhigh : lt (limitsMaxPosition a) target = true) :
    Shortens l axis a current target (limitsMaxPosition a) ↔ ¬FallsShort a current target := by
  obtain ⟨hmax, htarget⟩ := number_of_lt hhigh
  have habove := ext_lt hhigh
  have hrange := limitsMin_le_max hmax
  by_cases houtside : lt (limitsMaxPosition a) current = true
  · have hback : lt target current = true := by
      rw [lt_iff htarget hcurrent]
      refine lt_of_le_of_ne (not_lt.mp fun hon => hin (.inr ⟨(lt_iff hcurrent htarget).mpr hon, houtside⟩)) fun h => ?_
      exact hmove ((eq_iff htarget hcurrent).mpr h)
    refine iff_of_false (fun h => ?_) fun h => h (.inr ⟨hhigh, hback⟩)
    have hout := ext_lt houtside
    obtain ⟨hle, -⟩ | ⟨hle, -⟩ := h.between
    · have htop := ext_le hle
      order
    · have htop := ext_le hle
      order
  · have hinside := houtside
    rw [lt_iff hmax hcurrent, not_lt] at hinside
    refine iff_of_true ⟨.inl ⟨(le_iff hcurrent hmax).mpr hinside, le_of_lt_value hhigh⟩, fun hmin _ => ?_,
      fun hlow hback => ?_, fun h => absurd h houtside⟩ ?_
    · exact ⟨(le_iff (number_of_le hmin).1 hmax).mpr hrange, le_refl_value hmax⟩
    · exact absurd (ext_lt hback) (not_lt.mpr hinside)
    · rintro (⟨-, hlow⟩ | ⟨-, hback⟩)
      · exact absurd (limits_of_lt hlow hhigh) (lt_irrefl _)
      · have htop := ext_lt hback
        order

/-- The three ways in which a jog between numbers is not shortened. -/
theorem constrain_axis_shortens_iff (hsoft : a.softLimits = true) :
    Shortens l axis a current target (constrain_axis l axis a current target) ↔
      (current ≠ nan ∧ target ≠ nan) ∧ ¬Reverses l axis a current target ∧ ¬FallsShort a current target ∧
        ¬Stretches l axis a current target := by
  by_cases hnumbers : current ≠ nan ∧ target ≠ nan
  · obtain ⟨hcurrent, htarget⟩ := hnumbers
    rw [and_iff_right ⟨hcurrent, htarget⟩]
    have hreverses (hin : ¬LeadsOut a current target) : ¬Reverses l axis a current target := fun h => hin h.leadsOut
    have hstretches (hin : ¬LeadsOut a current target) : ¬Stretches l axis a current target := fun h => hin h.leadsOut
    have hcases : Constrained l axis a current target _ := constrain_axis_cases hsoft hcurrent htarget
    by_cases hmove : eq target current = true
    · -- the axis stands still
      have hsame := (eq_iff htarget hcurrent).mp hmove
      have hstill : ¬lt target current = true ∧ ¬lt current target = true :=
        ⟨fun h => (ext_lt h).ne hsame, fun h => (ext_lt h).ne' hsame⟩
      have hin : ¬LeadsOut a current target := by
        rintro (⟨h, -⟩ | ⟨h, -⟩)
        · exact hstill.1 h
        · exact hstill.2 h
      have hkept : constrain_axis l axis a current target = target := by
        unfold constrain_axis
        rw [if_neg fun h => absurd (hmove.symm.trans h.2) (by decide)]
      rw [hkept]
      refine iff_of_true (.of_kept hcurrent htarget (fun hmin hmax => ?_) (fun h => absurd h hstill.1)
        fun h => absurd h hstill.2) ⟨hreverses hin, ?_, hstretches hin⟩
      · rw [le_iff (number_of_le hmin).1 htarget, le_iff htarget (number_of_le hmax).2, hsame]
        exact ⟨ext_le hmin, ext_le hmax⟩
      · rintro (⟨h, -⟩ | ⟨-, h⟩)
        · exact hstill.2 h
        · exact hstill.1 h
    · generalize constrain_axis l axis a current target = left at hcases ⊢
      cases hcases with
      | still h => exact absurd h hmove
      | cancelled hout h =>
        refine iff_of_true (shortens_cancelled hcurrent htarget)
          ⟨fun hreverses => ?_, hout.not_fallsShort, fun hstretch => ?_⟩
        · exact h.elim (fun h => h hreverses.2.2.1) hreverses.2.2.2.1
        · exact h.elim (fun h => h hstretch.1) hstretch.2.1
      | nudged hout hactive hfree hfar =>
        rw [shortens_nudged hout hactive hfree hfar, and_iff_right hout.not_fallsShort]
      | near hout hactive hfree hnear =>
        rw [shortens_near hout hactive hfree hnear, and_iff_right hout.not_fallsShort]
      | low hin hlow =>
        rw [shortens_low hcurrent hin hmove hlow, and_iff_right (hreverses hin), and_iff_left (hstretches hin)]
      | high hin hhigh =>
        rw [shortens_high hcurrent hin hmove hhigh, and_iff_right (hreverses hin), and_iff_left (hstretches hin)]
      | within hin hmin hmax =>
        refine iff_of_true (.of_kept hcurrent htarget (fun hlow hhigh => ?_) (fun hback hlow => ?_) fun hon hhigh => ?_)
          ⟨hreverses hin, ?_, hstretches hin⟩
        · rw [lt_iff htarget (number_of_le hlow).1, not_lt] at hmin
          rw [lt_iff (number_of_le hhigh).2 htarget, not_lt] at hmax
          exact ⟨(le_iff (number_of_le hlow).1 htarget).mpr hmin, (le_iff htarget (number_of_le hhigh).2).mpr hmax⟩
        · exact absurd (.inl ⟨hback, hlow⟩) hin
        · exact absurd (.inr ⟨hon, hhigh⟩) hin
        · rintro (⟨-, h⟩ | ⟨h, -⟩)
          · exact hmin h
          · exact hmax h
  · refine iff_of_false (fun h => hnumbers ?_) fun h => hnumbers h.1
    obtain ⟨hle, hle'⟩ | ⟨hle, hle'⟩ := h.between
    · exact ⟨(number_of_le hle).1, (number_of_le hle').2⟩
    · exact ⟨(number_of_le hle').2, (number_of_le hle).1⟩

end Axis

/-- A jog is shortened on every axis with soft limits exactly if on none of them it is reversed, falls short
of the range or is stretched by the rounding. -/
theorem constrain_jog_shortens_iff (l : LimitState) (axes : Nat → AxisSettings) (n_axis : Nat)
    (current target : Nat → Value) :
    (∀ axis < n_axis, (axes axis).softLimits = true →
      Shortens l axis (axes axis) (current axis) (target axis) (constrain_jog l axes n_axis current target axis)) ↔
    ∀ axis < n_axis, (axes axis).softLimits = true →
      (current axis ≠ nan ∧ target axis ≠ nan) ∧ ¬Reverses l axis (axes axis) (current axis) (target axis) ∧
        ¬FallsShort (axes axis) (current axis) (target axis) ∧
        ¬Stretches l axis (axes axis) (current axis) (target axis) := by
  refine forall_congr' fun axis => forall_congr' fun haxis => forall_congr' fun hsoft => ?_
  rw [constrain_jog_apply, if_pos haxis]
  exact constrain_axis_shortens_iff hsoft

/-- An axis that may travel from 0 to 100. -/
def hundred_axis (pulloff : Value) (hpulloff : lt zero pulloff = true) : AxisSettings where
  softLimits := true
  homing := some ⟨zero, false⟩
  maxTravel := ofRat false 100
  pulloff := pulloff
  maxTravel_pos := by decide +kernel
  pulloff_pos := hpulloff

def pulloff_one : AxisSettings := hundred_axis (ofRat false 1) (by decide +kernel)

def pulloff_tenths : AxisSettings := hundred_axis (ofRat false (3 / 10)) (by decide +kernel)

/-- With the switch at both ends active, a jog of -10 from -1 is turned into one of +1, and a jog of +1 from -5 into
one of +5. A nudge of 0.3 from 100.3 ends 0.30000305 further out. -/
theorem constrain_jog_reverses :
    constrain_jog ⟨1, 1⟩ (fun _ => pulloff_one) 1 (fun _ => ofRat false (-1)) (fun _ => ofRat false (-11)) 0 = zero ∧
    constrain_jog ⟨0, 0⟩ (fun _ => pulloff_one) 1 (fun _ => ofRat false (-5)) (fun _ => ofRat false (-4)) 0 = zero ∧
    constrain_jog ⟨1, 1⟩ (fun _ => pulloff_tenths) 1 (fun _ => ofRat false (1003 / 10)) (fun _ => ofRat false 200) 0 =
      ofRat false (3296461 / 32768) ∧
    ¬∀ (l : LimitState) (axes : Nat → AxisSettings) (n_axis : Nat) (current target : Nat → Value), ∀ axis < n_axis,
      (axes axis).softLimits = true → Shortens l axis (axes axis) (current axis) (target axis)
        (constrain_jog l axes n_axis current target axis) := by
  have hfirst :
      constrain_jog ⟨1, 1⟩ (fun _ => pulloff_one) 1 (fun _ => ofRat false (-1)) (fun _ => ofRat false (-11)) 0 =
      zero := by
    decide +kernel
  refine ⟨hfirst, by decide +kernel, by decide +kernel, fun h => ?_⟩
  have hbetween := (h ⟨1, 1⟩ (fun _ => pulloff_one) 1 (fun _ => ofRat false (-1)) (fun _ => ofRat false (-11)) 0
    (by decide) rfl).between
  rw [hfirst] at hbetween
  exact absurd hbetween (by decide +kernel)

end DuneWeaver.Kinematics
