import DuneWeaver.Kinematics.Relabelling
import Mathlib.Algebra.Group.ModEq

open AddCommGroup (ModEq)

open Transition

namespace DuneWeaver.ThetaRho

/-- The configuration of a table, with the range of each of its numbers. -/
structure Config where
  theta_mm_per_rev : ℝ
  rho_mm : ℝ
  gear_ratio : ℝ
  invert_coupling : Bool
  numberAxis : Nat
  stepsPerMm : Nat → ℝ
  theta_pos : 0 < theta_mm_per_rev
  rho_pos : 0 < rho_mm
  steps_pos : ∀ axis, 0 < stepsPerMm axis
  has_rho : 1 < numberAxis

def X_AXIS : Nat := 0

def Y_AXIS : Nat := 1

noncomputable section

def TWO_PI : ℝ := 2.0 * Real.pi

/-- `lroundf` of a number that a `long` can hold. -/
def lroundf (x : ℝ) : ℤ := if 0 ≤ x then ⌊x + 0.5⌋ else ⌈x - 0.5⌉

namespace Config

variable (c : Config)

def theta_scale : ℝ := c.theta_mm_per_rev / TWO_PI

/-- What `init` makes of the gear ratio. -/
def coupling : ℝ :=
  if c.gear_ratio ≠ 0 ∧ c.stepsPerMm Y_AXIS ≠ 0 then
    let coupling := c.stepsPerMm X_AXIS / (c.gear_ratio * c.stepsPerMm Y_AXIS)
    if c.invert_coupling then -coupling else coupling
  else 0

def transform_cartesian_to_motors (cartesian : Nat → ℝ) (axis : Nat) : ℝ :=
  if axis = X_AXIS then cartesian X_AXIS * c.theta_scale
  else if axis = Y_AXIS then cartesian Y_AXIS * c.rho_mm + cartesian X_AXIS * c.theta_scale * c.coupling
  else cartesian axis

def motors_to_cartesian (motors : Nat → ℝ) (axis : Nat) : ℝ :=
  if axis = X_AXIS then motors X_AXIS / c.theta_scale
  else if axis = Y_AXIS then (motors Y_AXIS - motors X_AXIS * c.coupling) / c.rho_mm
  else motors axis

def steps_to_mpos (steps : ℤ) (axis : Nat) : ℝ := steps / c.stepsPerMm axis

def mpos_to_steps (mpos : ℝ) (axis : Nat) : ℤ := lroundf (mpos * c.stepsPerMm axis)

def motor_steps_to_mpos (steps : Nat → ℤ) : Nat → ℝ :=
  c.motors_to_cartesian fun axis => c.steps_to_mpos (steps axis) axis

/-- The counters behind `set_motor_steps_from_mpos`. -/
def set_motor_steps_from_mpos (mpos : Nat → ℝ) (steps : Nat → ℤ) (axis : Nat) : ℤ :=
  if axis < c.numberAxis then c.mpos_to_steps (c.transform_cartesian_to_motors mpos axis) axis else steps axis

/-- `positive_mod_2pi` in arithmetic that does not round. -/
def positive_mod_2pi (angle : ℝ) : ℝ :=
  ThrTranslator.positive_mod_2pi (exact (fun _ => none) (fun _ _ => []) TWO_PI) angle

/-- The counters behind `normalize_theta`. The planner and the parser take over what is read of them. -/
def normalize_theta (steps : Nat → ℤ) : Nat → ℤ :=
  let mpos := c.motor_steps_to_mpos steps
  let theta := mpos X_AXIS
  let norm := positive_mod_2pi theta
  if |theta - norm| < 0.001 then steps
  else c.set_motor_steps_from_mpos (fun axis => if axis = X_AXIS then norm else mpos axis) steps

/-- One revolution is a whole number of steps of either motor. -/
def WholeTurns : Prop :=
  (∃ n : ℤ, c.theta_mm_per_rev * c.stepsPerMm X_AXIS = n) ∧
    ∃ n : ℤ, c.theta_mm_per_rev * c.stepsPerMm X_AXIS / c.gear_ratio = n

/-- The greatest error of an angle that is rounded to steps. -/
def theta_error : ℝ := 0.5 / c.stepsPerMm X_AXIS / c.theta_scale

/-- The greatest error of rho, for half a step of either motor. -/
def rho_error : ℝ := (0.5 / c.stepsPerMm Y_AXIS + |c.coupling| * (0.5 / c.stepsPerMm X_AXIS)) / c.rho_mm

/-- The counters are relabelled: theta is read as its representative in one turn up to half a step, and rho as before
up to half a step of each motor. The other axes are read as before. -/
structure Relabelled (steps after : Nat → ℤ) : Prop where
  theta : ∃ norm, 0 ≤ norm ∧ norm < TWO_PI ∧ c.motor_steps_to_mpos steps X_AXIS ≡ norm [PMOD TWO_PI] ∧
    |c.motor_steps_to_mpos after X_AXIS - norm| ≤ c.theta_error
  rho : |c.motor_steps_to_mpos after Y_AXIS - c.motor_steps_to_mpos steps Y_AXIS| ≤ c.rho_error
  others : ∀ axis, Y_AXIS < axis → after axis = steps axis

/-- The counters are relabelled without an error. -/
structure RelabelledExactly (steps after : Nat → ℤ) : Prop where
  nonneg : 0 ≤ c.motor_steps_to_mpos after X_AXIS
  lt_turn : c.motor_steps_to_mpos after X_AXIS < TWO_PI
  angle : c.motor_steps_to_mpos steps X_AXIS ≡ c.motor_steps_to_mpos after X_AXIS [PMOD TWO_PI]
  rho : c.motor_steps_to_mpos after Y_AXIS = c.motor_steps_to_mpos steps Y_AXIS

end Config

/-- The counters of the motors, and how far the motors have really gone. -/
structure Table where
  steps : Nat → ℤ
  turned : Nat → ℤ

/-- What happens to a table: its motors go some steps, or a job starts or ends and relabels the counters. -/
inductive TableEvent where
  | move (steps : Nat → ℤ)
  | job

/-- A table after an event. A motor that goes is counted. -/
def Config.step (c : Config) (t : Table) : TableEvent → Table
  | .move steps => ⟨fun axis => t.steps axis + steps axis, fun axis => t.turned axis + steps axis⟩
  | .job => { t with steps := c.normalize_theta t.steps }

/-- The ball is where the counters say: at the same rho, and at the same angle up to whole turns. -/
def Config.InPlace (c : Config) (t : Table) : Prop :=
  c.motor_steps_to_mpos t.steps X_AXIS ≡ c.motor_steps_to_mpos t.turned X_AXIS [PMOD TWO_PI] ∧
    c.motor_steps_to_mpos t.steps Y_AXIS = c.motor_steps_to_mpos t.turned Y_AXIS

/-- How many jobs have started or ended. -/
def jobs : List TableEvent → Nat
  | [] => 0
  | .move _ :: events => jobs events
  | .job :: events => jobs events + 1

end

section Rounding

theorem two_pi_eq : TWO_PI = 2 * Real.pi := by
  rw [TWO_PI]
  norm_num

theorem lroundf_error (x : ℝ) : |lroundf x - x| ≤ 0.5 := by
  have hhalf : (0.5 : ℝ) = 1 / 2 := by norm_num
  rw [lroundf, abs_le, hhalf]
  split_ifs
  · have hlow := Int.lt_floor_add_one (x + 1 / 2)
    have hhigh := Int.floor_le (x + 1 / 2)
    exact ⟨by linarith, by linarith⟩
  · have hlow := Int.le_ceil (x - 1 / 2)
    have hhigh := Int.ceil_lt_add_one (x - 1 / 2)
    exact ⟨by linarith, by linarith⟩

/-- A whole number is not rounded. -/
theorem lroundf_intCast (n : ℤ) : lroundf (n : ℝ) = n := by
  have herror := lroundf_error (n : ℝ)
  have hcast : |((lroundf (n : ℝ) - n : ℤ) : ℝ)| < 1 := by
    push_cast
    refine herror.trans_lt ?_
    norm_num
  have habs : |lroundf (n : ℝ) - n| < 1 := by exact_mod_cast hcast
  have hzero := Int.abs_lt_one_iff.mp habs
  omega

end Rounding

namespace Config

variable {c : Config} (steps : Nat → ℤ)

theorem two_pi_pos : 0 < TWO_PI := by
  rw [two_pi_eq]
  exact Real.two_pi_pos

theorem theta_scale_pos (c : Config) : 0 < c.theta_scale := div_pos c.theta_pos two_pi_pos

/-- The representative lies in one turn, and what is taken away are whole turns. -/
theorem positive_mod_2pi_spec (angle : ℝ) :
    0 ≤ positive_mod_2pi angle ∧ positive_mod_2pi angle < TWO_PI ∧
      ∃ k : ℤ, angle - positive_mod_2pi angle = k * TWO_PI :=
  ThrTranslator.positive_mod_2pi_exact _ _ two_pi_pos angle

theorem modEq_of_sub {a b : ℝ} {k : ℤ} (h : a - b = k * TWO_PI) : a ≡ b [PMOD TWO_PI] := by
  rw [AddCommGroup.modEq_comm, AddCommGroup.modEq_iff_zsmul']
  exact ⟨k, by rw [h, zsmul_eq_mul]⟩

section Readings

/-- Theta and rho as they are read of the counters. -/
theorem theta_eq : c.motor_steps_to_mpos steps X_AXIS = steps X_AXIS / c.stepsPerMm X_AXIS / c.theta_scale := rfl

theorem rho_eq : c.motor_steps_to_mpos steps Y_AXIS =
    (steps Y_AXIS / c.stepsPerMm Y_AXIS - steps X_AXIS / c.stepsPerMm X_AXIS * c.coupling) / c.rho_mm := rfl

variable {steps} {mpos : Nat → ℝ}

/-- The counters that a position is turned into. -/
theorem set_theta (c : Config) (mpos : Nat → ℝ) (steps : Nat → ℤ) :
    c.set_motor_steps_from_mpos mpos steps X_AXIS = lroundf (mpos X_AXIS * c.theta_scale * c.stepsPerMm X_AXIS) :=
  if_pos (Nat.zero_lt_of_lt c.has_rho)

theorem set_rho (c : Config) (mpos : Nat → ℝ) (steps : Nat → ℤ) :
    c.set_motor_steps_from_mpos mpos steps Y_AXIS =
      lroundf ((mpos Y_AXIS * c.rho_mm + mpos X_AXIS * c.theta_scale * c.coupling) * c.stepsPerMm Y_AXIS) :=
  if_pos c.has_rho

/-- An axis that is not part of the table is counted as before. -/
theorem set_other {axis : Nat} (haxis : Y_AXIS < axis) (hmpos : mpos axis = c.motor_steps_to_mpos steps axis) :
    c.set_motor_steps_from_mpos mpos steps axis = steps axis := by
  have hx : axis ≠ X_AXIS := Nat.ne_of_gt (Nat.zero_lt_of_lt haxis)
  have hy : axis ≠ Y_AXIS := Nat.ne_of_gt haxis
  have hread : c.motor_steps_to_mpos steps axis = steps axis / c.stepsPerMm axis := by
    rw [motor_steps_to_mpos, motors_to_cartesian, if_neg hx, if_neg hy, steps_to_mpos]
  rw [set_motor_steps_from_mpos, transform_cartesian_to_motors, if_neg hx, if_neg hy, hmpos, hread, mpos_to_steps,
    div_mul_cancel₀ _ (c.steps_pos axis).ne', lroundf_intCast, ite_self]

end Readings

section Relabelling

/-- A rounded counter is off by half a step at most. -/
theorem rounded_error (axis : Nat) (mm : ℝ) :
    |lroundf (mm * c.stepsPerMm axis) / c.stepsPerMm axis - mm| ≤ 0.5 / c.stepsPerMm axis := by
  have hpos := c.steps_pos axis
  have hsame : (lroundf (mm * c.stepsPerMm axis) / c.stepsPerMm axis - mm : ℝ) =
      (lroundf (mm * c.stepsPerMm axis) - mm * c.stepsPerMm axis) / c.stepsPerMm axis := by
    field_simp
  rw [hsame, abs_div, abs_of_pos hpos]
  exact div_le_div_of_nonneg_right (lroundf_error _) hpos.le

/-- What is read behind a relabelling, with theta replaced. -/
theorem relabelled_to {norm : ℝ} {mpos : Nat → ℝ} (hnorm : mpos X_AXIS = norm)
    (hrho : mpos Y_AXIS = c.motor_steps_to_mpos steps Y_AXIS) :
    |c.motor_steps_to_mpos (c.set_motor_steps_from_mpos mpos steps) X_AXIS - norm| ≤ c.theta_error ∧
    |c.motor_steps_to_mpos (c.set_motor_steps_from_mpos mpos steps) Y_AXIS - c.motor_steps_to_mpos steps Y_AXIS| ≤
      c.rho_error := by
  have hscale := c.theta_scale_pos
  have hx := c.rounded_error X_AXIS (mpos X_AXIS * c.theta_scale)
  have hy := c.rounded_error Y_AXIS (mpos Y_AXIS * c.rho_mm + mpos X_AXIS * c.theta_scale * c.coupling)
  rw [← c.set_theta mpos steps] at hx
  rw [← c.set_rho mpos steps] at hy
  rw [theta_eq, rho_eq, ← hrho, ← hnorm]
  generalize (c.set_motor_steps_from_mpos mpos steps X_AXIS : ℝ) / c.stepsPerMm X_AXIS = x at hx ⊢
  generalize (c.set_motor_steps_from_mpos mpos steps Y_AXIS : ℝ) / c.stepsPerMm Y_AXIS = y at hy ⊢
  constructor
  · have hsame : x / c.theta_scale - mpos X_AXIS = (x - mpos X_AXIS * c.theta_scale) / c.theta_scale := by
      rw [sub_div, mul_div_cancel_right₀ _ hscale.ne']
    rw [hsame, abs_div, abs_of_pos hscale]
    exact div_le_div_of_nonneg_right hx hscale.le
  · have hsame : (y - x * c.coupling) / c.rho_mm - mpos Y_AXIS =
        ((y - (mpos Y_AXIS * c.rho_mm + mpos X_AXIS * c.theta_scale * c.coupling)) -
          c.coupling * (x - mpos X_AXIS * c.theta_scale)) / c.rho_mm := by
      have hrho_pos := c.rho_pos.ne'
      field_simp
      ring
    rw [hsame, abs_div, abs_of_pos c.rho_pos]
    refine div_le_div_of_nonneg_right ((abs_sub _ _).trans (add_le_add hy ?_)) c.rho_pos.le
    rw [abs_mul]
    exact mul_le_mul_of_nonneg_left hx (abs_nonneg _)

theorem theta_error_nonneg (c : Config) : 0 ≤ c.theta_error :=
  div_nonneg (div_nonneg (by norm_num) (c.steps_pos X_AXIS).le) c.theta_scale_pos.le

theorem rho_error_nonneg (c : Config) : 0 ≤ c.rho_error :=
  div_nonneg (add_nonneg (div_nonneg (by norm_num) (c.steps_pos Y_AXIS).le)
    (mul_nonneg (abs_nonneg _) (div_nonneg (by norm_num) (c.steps_pos X_AXIS).le))) c.rho_pos.le

/-- Fewer than a thousandth of a radian are no whole turns. -/
theorem turns_eq_zero {k : ℤ} (h : |k * TWO_PI| < 0.001) : k = 0 := by
  by_contra hne
  have hone : (1 : ℝ) ≤ |(k : ℝ)| := by exact_mod_cast Int.one_le_abs hne
  have hturn : 1 < TWO_PI := by
    rw [two_pi_eq]
    linarith [Real.two_le_pi]
  rw [abs_mul, abs_of_pos two_pi_pos] at h
  have hmore : 1 * TWO_PI ≤ |(k : ℝ)| * TWO_PI := mul_le_mul_of_nonneg_right hone two_pi_pos.le
  norm_num at h
  linarith

/-- What a call does to the counters: nothing where theta lies within one turn, and otherwise they are set for its
representative. -/
theorem normalize_theta_cases (c : Config) (steps : Nat → ℤ) :
    (c.normalize_theta steps = steps ∧
      positive_mod_2pi (c.motor_steps_to_mpos steps X_AXIS) = c.motor_steps_to_mpos steps X_AXIS) ∨
    ∃ mpos : Nat → ℝ, mpos X_AXIS = positive_mod_2pi (c.motor_steps_to_mpos steps X_AXIS) ∧
      (∀ axis, axis ≠ X_AXIS → mpos axis = c.motor_steps_to_mpos steps axis) ∧
      c.normalize_theta steps = c.set_motor_steps_from_mpos mpos steps := by
  obtain ⟨-, -, k, hk⟩ := positive_mod_2pi_spec (c.motor_steps_to_mpos steps X_AXIS)
  unfold normalize_theta
  dsimp only
  split_ifs with hsmall
  · rw [hk] at hsmall
    rw [turns_eq_zero hsmall, Int.cast_zero, zero_mul, sub_eq_zero] at hk
    exact .inl ⟨rfl, hk.symm⟩
  · exact .inr ⟨_, if_pos rfl, fun axis haxis => if_neg haxis, rfl⟩

/-- A call relabels the counters. -/
theorem normalize_theta_relabels (c : Config) (steps : Nat → ℤ) : c.Relabelled steps (c.normalize_theta steps) := by
  obtain ⟨hlow, hhigh, k, hk⟩ := positive_mod_2pi_spec (c.motor_steps_to_mpos steps X_AXIS)
  rcases c.normalize_theta_cases steps with ⟨hsteps, hsame⟩ | ⟨mpos, hnorm, hmpos, hsteps⟩
  · rw [hsteps]
    refine ⟨⟨_, hlow, hhigh, modEq_of_sub hk, ?_⟩, ?_, fun _ _ => rfl⟩
    · rw [hsame, sub_self, abs_zero]
      exact c.theta_error_nonneg
    · rw [sub_self, abs_zero]
      exact c.rho_error_nonneg
  · have hother := hmpos Y_AXIS (by decide)
    obtain ⟨htheta, hrho⟩ := relabelled_to steps hnorm hother
    rw [hsteps]
    refine ⟨⟨_, hlow, hhigh, modEq_of_sub hk, htheta⟩, hrho, fun axis haxis => set_other haxis (hmpos axis ?_)⟩
    exact Nat.ne_of_gt (Nat.zero_lt_of_lt haxis)

end Relabelling

section WholeTurns

/-- The steps of rho for one revolution, where a gear couples the motors. -/
theorem coupled_steps (c : Config) (hwhole : c.WholeTurns) :
    ∃ m : ℤ, c.theta_mm_per_rev * c.coupling * c.stepsPerMm Y_AXIS = m := by
  obtain ⟨-, m, hm⟩ := hwhole
  have hy := (c.steps_pos Y_AXIS).ne'
  rw [coupling]
  by_cases hgear : c.gear_ratio = 0
  · exact ⟨0, by simp [hgear]⟩
  · have hcoupled : c.theta_mm_per_rev * (c.stepsPerMm X_AXIS / (c.gear_ratio * c.stepsPerMm Y_AXIS)) *
        c.stepsPerMm Y_AXIS = m := by
      rw [← hm]
      field_simp
    rw [if_pos ⟨hgear, hy⟩]
    dsimp only
    split_ifs
    · refine ⟨-m, ?_⟩
      push_cast
      rw [← hcoupled]
      ring
    · exact ⟨m, hcoupled⟩

/-- Where one revolution is a whole number of steps, a relabelling is exact. -/
theorem normalize_theta_exact (c : Config) (hwhole : c.WholeTurns) (steps : Nat → ℤ) :
    c.motor_steps_to_mpos (c.normalize_theta steps) X_AXIS = positive_mod_2pi (c.motor_steps_to_mpos steps X_AXIS) ∧
      c.motor_steps_to_mpos (c.normalize_theta steps) Y_AXIS = c.motor_steps_to_mpos steps Y_AXIS := by
  have hx := (c.steps_pos X_AXIS).ne'
  have hy := (c.steps_pos Y_AXIS).ne'
  have hscale := c.theta_scale_pos.ne'
  have hrho := c.rho_pos.ne'
  rcases c.normalize_theta_cases steps with ⟨hsteps, hsame⟩ | ⟨mpos, hnorm, hmpos, hsteps⟩
  · rw [hsteps, hsame]
    exact ⟨rfl, rfl⟩
  obtain ⟨m, hm⟩ := c.coupled_steps hwhole
  obtain ⟨⟨n, hn⟩, -⟩ := hwhole
  obtain ⟨-, -, k, hk⟩ := positive_mod_2pi_spec (c.motor_steps_to_mpos steps X_AXIS)
  have hscaled : TWO_PI * c.theta_scale = c.theta_mm_per_rev := mul_div_cancel₀ _ two_pi_pos.ne'
  -- the motor millimetres that theta stands for after the call
  have hmm : mpos X_AXIS * c.theta_scale = steps X_AXIS / c.stepsPerMm X_AXIS - k * c.theta_mm_per_rev := by
    have htheta : c.motor_steps_to_mpos steps X_AXIS * c.theta_scale = steps X_AXIS / c.stepsPerMm X_AXIS := by
      rw [theta_eq, div_mul_cancel₀ _ hscale]
    rw [hnorm, ← hscaled, ← htheta]
    linear_combination (-c.theta_scale) * hk
  have hother := hmpos Y_AXIS (by decide)
  have hafter : (c.normalize_theta steps X_AXIS : ℝ) = steps X_AXIS - k * n := by
    have hwhole : mpos X_AXIS * c.theta_scale * c.stepsPerMm X_AXIS = ((steps X_AXIS - k * n : ℤ) : ℝ) := by
      push_cast
      rw [hmm, ← hn]
      field_simp
    rw [hsteps, c.set_theta, hwhole, lroundf_intCast]
    push_cast
    rfl
  have hafter_rho : (c.normalize_theta steps Y_AXIS : ℝ) = steps Y_AXIS - k * m := by
    have hwhole : (mpos Y_AXIS * c.rho_mm + mpos X_AXIS * c.theta_scale * c.coupling) * c.stepsPerMm Y_AXIS =
        ((steps Y_AXIS - k * m : ℤ) : ℝ) := by
      push_cast
      rw [hother, rho_eq, hmm, ← hm]
      field_simp
      ring
    rw [hsteps, c.set_rho, hwhole, lroundf_intCast]
    push_cast
    rfl
  constructor
  · rw [← hnorm, theta_eq, hafter, div_eq_iff hscale, hmm, ← hn]
    field_simp
  · rw [rho_eq, rho_eq, hafter, hafter_rho, ← hn, ← hm]
    field_simp
    ring

end WholeTurns

section Runs

/-- What is read of the counters adds up. -/
theorem theta_add (steps more : Nat → ℤ) : c.motor_steps_to_mpos (fun axis => steps axis + more axis) X_AXIS =
    c.motor_steps_to_mpos steps X_AXIS + c.motor_steps_to_mpos more X_AXIS := by
  simp only [theta_eq, Int.cast_add, add_div]

theorem rho_add (steps more : Nat → ℤ) : c.motor_steps_to_mpos (fun axis => steps axis + more axis) Y_AXIS =
    c.motor_steps_to_mpos steps Y_AXIS + c.motor_steps_to_mpos more Y_AXIS := by
  simp only [rho_eq, Int.cast_add, add_div, add_mul, add_sub_add_comm]

theorem normalize_theta_relabels_exactly (c : Config) (hwhole : c.WholeTurns) (steps : Nat → ℤ) :
    c.RelabelledExactly steps (c.normalize_theta steps) := by
  obtain ⟨htheta, hrho⟩ := c.normalize_theta_exact hwhole steps
  obtain ⟨hlow, hhigh, k, hk⟩ := positive_mod_2pi_spec (c.motor_steps_to_mpos steps X_AXIS)
  refine ⟨?_, ?_, ?_, hrho⟩
  · rwa [htheta]
  · rwa [htheta]
  · rw [htheta]
    exact modEq_of_sub hk

/-- An event leaves the ball where the counters say. -/
theorem step_in_place (hwhole : c.WholeTurns) (t : Table) (event : TableEvent) (h : c.InPlace t) :
    c.InPlace (c.step t event) := by
  obtain ⟨htheta, hrho⟩ := h
  cases event with
  | move steps =>
    refine ⟨?_, ?_⟩
    · rw [step, theta_add, theta_add]
      exact htheta.add_right _
    · rw [step, rho_add, rho_add, hrho]
  | job =>
    have hexact := c.normalize_theta_relabels_exactly hwhole t.steps
    exact ⟨hexact.angle.symm.trans htheta, hexact.rho.trans hrho⟩

theorem in_place_always (hwhole : c.WholeTurns) {t : Table} (h : c.InPlace t) (events : List TableEvent) :
    Always c.step c.InPlace t events := by
  induction events generalizing t with
  | nil => exact h
  | cons event events ih => exact ⟨h, ih (step_in_place hwhole t event h)⟩

/-- Relabelling keeps the ball in place: up to half a step of the motors each time, and without any drift where one
revolution is a whole number of steps. -/
theorem relabelling_keeps_in_place (c : Config) :
    (∀ steps, c.Relabelled steps (c.normalize_theta steps)) ∧
      (c.WholeTurns → (∀ steps, c.RelabelledExactly steps (c.normalize_theta steps)) ∧
        ∀ steps events, Always c.step c.InPlace ⟨steps, steps⟩ events) := by
  refine ⟨c.normalize_theta_relabels, fun hwhole => ⟨c.normalize_theta_relabels_exactly hwhole, ?_⟩⟩
  intro steps events
  have hplace : c.InPlace ⟨steps, steps⟩ := ⟨AddCommGroup.modEq_rfl, rfl⟩
  exact in_place_always hwhole hplace events

/-- Where one revolution is no whole number of steps, rho drifts by the error of each job at most. -/
theorem rho_drift_le (c : Config) (t : Table) (events : List TableEvent) :
    |(c.motor_steps_to_mpos (run c.step t events).steps Y_AXIS -
        c.motor_steps_to_mpos (run c.step t events).turned Y_AXIS) -
      (c.motor_steps_to_mpos t.steps Y_AXIS - c.motor_steps_to_mpos t.turned Y_AXIS)| ≤ jobs events * c.rho_error := by
  induction events generalizing t with
  | nil => simp [jobs]
  | cons event events ih =>
    have hrest := ih (c.step t event)
    rw [run_cons]
    cases event with
    | move steps =>
      rw [jobs]
      refine le_of_eq_of_le (congrArg _ ?_) hrest
      rw [step, rho_add, rho_add]
      ring
    | job =>
      have hjob := (c.normalize_theta_relabels t.steps).rho
      rw [jobs, Nat.cast_succ, add_mul, one_mul]
      refine le_trans ?_ (add_le_add hrest hjob)
      refine le_of_eq_of_le (congrArg _ ?_) (abs_add_le _ _)
      rw [step]
      ring

end Runs

end Config

/-- A table of 1000 steps for a revolution, and 100 behind a gear of ten. -/
private def geared : Config where
  theta_mm_per_rev := 10.0
  rho_mm := 20.0
  gear_ratio := 10.0
  invert_coupling := false
  numberAxis := 2
  stepsPerMm _ := 100.0
  theta_pos := by norm_num
  rho_pos := by norm_num
  steps_pos _ := by norm_num
  has_rho := by decide

theorem relabelling_keeps_in_place_geared :
    geared.WholeTurns ∧ ∀ steps events, Always geared.step geared.InPlace ⟨steps, steps⟩ events := by
  have hwhole : geared.WholeTurns := by
    refine ⟨⟨1000, ?_⟩, 100, ?_⟩
    · norm_num [geared]
    · norm_num [geared]
  exact ⟨hwhole, ((Config.relabelling_keeps_in_place geared).2 hwhole).2⟩

end DuneWeaver.ThetaRho
