import DuneWeaver.Kinematics.ThrTranslator
import DuneWeaver.Transition.Run
import Mathlib.Algebra.Order.Floor.Ring
import Mathlib.Analysis.SpecialFunctions.Trigonometric.Basic

open Transition

namespace DuneWeaver

variable {K : Type*} [Field K] [LinearOrder K] [FloorRing K]

/-- The remainder of a division rounded towards zero. -/
def fmod (a b : K) : K := a - b * if 0 ≤ a / b then (⌊a / b⌋ : K) else (⌈a / b⌉ : K)

/-- Arithmetic that does not round. What a field reads as and how a number is printed is left open. -/
def exact (strtof : Bytes → Option (K × Bytes)) (printf : Nat → K → Bytes) (TWO_PI : K) : FloatOps K where
  strtof
  printf
  fmodf := fmod
  add := (· + ·)
  sub := (· - ·)
  lt a b := a < b
  eq a b := a = b
  zero := 0
  one := 1
  TWO_PI

namespace ThrTranslator

variable {strtof : Bytes → Option (K × Bytes)} {printf : Nat → K → Bytes} {p : K}

/-- The remainder lies in one turn, and what is taken away are whole turns. -/
theorem positive_mod_2pi_exact [IsStrictOrderedRing K] (strtof : Bytes → Option (K × Bytes))
    (printf : Nat → K → Bytes) (hp : 0 < p) (angle : K) :
    0 ≤ positive_mod_2pi (exact strtof printf p) angle ∧ positive_mod_2pi (exact strtof printf p) angle < p ∧
      ∃ k : ℤ, angle - positive_mod_2pi (exact strtof printf p) angle = k * p := by
  have hcancel : p * (angle / p) = angle := mul_div_cancel₀ angle hp.ne'
  by_cases hsign : 0 ≤ angle / p
  · have hlow := mul_le_mul_of_nonneg_left (Int.floor_le (angle / p)) hp.le
    have hhigh := mul_lt_mul_of_pos_left (Int.lt_floor_add_one (angle / p)) hp
    rw [hcancel] at hlow hhigh
    rw [mul_add, mul_one] at hhigh
    have hmod : positive_mod_2pi (exact strtof printf p) angle = angle - p * ⌊angle / p⌋ := by
      have hnot : ¬ angle - p * ⌊angle / p⌋ < 0 := by linarith
      simp only [positive_mod_2pi, exact, fmod, if_pos hsign, hnot, decide_false, Bool.false_eq_true, if_false]
    rw [hmod]
    exact ⟨by linarith, by linarith, ⌊angle / p⌋, by ring⟩
  · have hlow := mul_lt_mul_of_pos_left (Int.ceil_lt_add_one (angle / p)) hp
    have hhigh := mul_le_mul_of_nonneg_left (Int.le_ceil (angle / p)) hp.le
    rw [mul_add, mul_one, hcancel] at hlow
    rw [hcancel] at hhigh
    by_cases hneg : angle - p * ⌈angle / p⌉ < 0
    · have hmod : positive_mod_2pi (exact strtof printf p) angle = angle - p * ⌈angle / p⌉ + p := by
        simp only [positive_mod_2pi, exact, fmod, if_neg hsign, hneg, decide_true, if_true]
      rw [hmod]
      refine ⟨by linarith, by linarith, ⌈angle / p⌉ - 1, ?_⟩
      push_cast
      ring
    · have hmod : positive_mod_2pi (exact strtof printf p) angle = angle - p * ⌈angle / p⌉ := by
        simp only [positive_mod_2pi, exact, fmod, if_neg hsign, hneg, decide_false, Bool.false_eq_true, if_false]
      rw [hmod]
      exact ⟨by linarith, by linarith, ⌈angle / p⌉, by ring⟩

theorem clampRho_exact [IsStrictOrderedRing K] (rho : K) :
    clampRho (exact strtof printf p) rho = max 0 (min rho 1) := by
  simp only [clampRho, exact, decide_eq_true_eq]
  split
  case isTrue hlow => rw [min_eq_left (by linarith), max_eq_left hlow.le]
  case isFalse hlow =>
    split
    case isTrue hhigh => rw [min_eq_right hhigh.le, max_eq_right zero_le_one]
    case isFalse hhigh => rw [min_eq_left (not_lt.mp hhigh), max_eq_right (not_lt.mp hlow)]

/-- Behind `start`, the preamble lasts until the offset is locked. -/
def Started (t : ThrTranslator K) : Prop := t.in_preamble = !t.offset_locked

theorem started_start (feed : K) : Started (start (exact strtof printf p) feed) := rfl

theorem rho_only_exact (strtof : Bytes → Option (K × Bytes)) (printf : Nat → K → Bytes) (p : K)
    {t : ThrTranslator K} (ht : Started t) (theta rho : K) :
    t.rho_only (exact strtof printf p) theta rho = true ↔ t.offset_locked = false ∧ theta = 0 ∧ rho = 0 := by
  rw [rho_only, ht]
  simp [exact, and_assoc]

/-- The move for a pair of fields when `k` turns are taken from every theta. -/
def relabelled (ops : FloatOps K) (k : ℤ) (t : ThrTranslator K) (theta rho : K) : Bytes :=
  (if t.offset_locked = false ∧ theta = 0 ∧ rho = 0 then bytes "G90G1Y"
    else bytes "G90G1X" ++ ops.printf 5 (theta - k * ops.TWO_PI) ++ bytes "Y") ++
    ops.printf 5 (max 0 (min rho 1)) ++ t.feedWord ops

/-- What becomes of a line when `k` turns are taken from every theta. -/
structure Relabels (ops : FloatOps K) (k : ℤ) (t : ThrTranslator K) (line : Bytes) (outlen : Nat) : Prop where
  rejected : (t.translate ops line outlen).1 = .Skip ∨ (t.translate ops line outlen).1 = .Invalid →
    (t.translate ops line outlen).2 = t
  moved : ∀ out, (t.translate ops line outlen).1 = .Move out →
    ∃ theta rho, readPair ops line = .fields theta rho ∧ out = relabelled ops k t theta rho
  /-- The line that locks the offset is the first one that is not `0 0`, and its theta comes to lie in one turn. -/
  locked : ∀ theta rho, readPair ops line = .fields theta rho → t.offset_locked = false →
    ((t.translate ops line outlen).2.offset_locked = true ↔ ¬ (theta = 0 ∧ rho = 0)) ∧
    ((t.translate ops line outlen).2.offset_locked = true →
      0 ≤ theta - k * ops.TWO_PI ∧ theta - k * ops.TWO_PI < ops.TWO_PI)

/-- The offset is `k` turns as soon as it is locked. -/
def Turns (p : K) (k : ℤ) (t : ThrTranslator K) : Prop := t.offset_locked = true → t.theta_offset = k * p

section Step

variable {t : ThrTranslator K}

/-- The first pair that is not `0 0` locks the offset, and nothing unlocks it. -/
theorem lock_exact (strtof : Bytes → Option (K × Bytes)) (printf : Nat → K → Bytes) (p : K) (ht : Started t)
    (theta rho : K) :
    (t.offset_locked = false ∧ theta = 0 ∧ rho = 0) ∧ t.rho_only (exact strtof printf p) theta rho = true ∧
      t.lock (exact strtof printf p) theta rho = t ∨
    ¬ (t.offset_locked = false ∧ theta = 0 ∧ rho = 0) ∧ t.rho_only (exact strtof printf p) theta rho = false ∧
      (t.lock (exact strtof printf p) theta rho).in_preamble = false ∧
      (t.lock (exact strtof printf p) theta rho).offset_locked = true ∧
      (t.lock (exact strtof printf p) theta rho).theta_offset =
        if t.offset_locked then t.theta_offset else theta - positive_mod_2pi (exact strtof printf p) theta := by
  have honly := rho_only_exact strtof printf p ht theta rho
  by_cases hzero : t.offset_locked = false ∧ theta = 0 ∧ rho = 0
  · exact .inl ⟨hzero, honly.mpr hzero, by rw [lock, if_pos (honly.mpr hzero)]⟩
  · have hnot : t.rho_only (exact strtof printf p) theta rho = false :=
      Bool.eq_false_iff.mpr fun h => hzero (honly.mp h)
    refine .inr ⟨hzero, hnot, ?_⟩
    rw [lock, if_neg (by rw [hnot]; exact Bool.false_ne_true)]
    cases t.offset_locked <;> simp [exact]

theorem started_lock (ht : Started t) (theta rho : K) : Started (t.lock (exact strtof printf p) theta rho) := by
  rcases lock_exact strtof printf p ht theta rho with
    ⟨-, -, hsame⟩ | ⟨-, -, hpreamble, hlocked, -⟩
  · rw [hsame]
    exact ht
  · rw [Started, hpreamble, hlocked, Bool.not_true]

theorem started_step (ht : Started t) (input : ThrInput K) : Started (t.step (exact strtof printf p) input) := by
  cases input with
  | set_feed feed => exact ht
  | line line outlen =>
    rcases translate_cases (exact strtof printf p) t line outlen with h | h | ⟨theta, rho, hpair, -⟩
    · rw [step, h]
      exact ht
    · rw [step, h]
      exact ht
    · obtain ⟨hpreamble, hlocked, -⟩ := translate_offset (t := t) hpair outlen
      rw [Started, step, hpreamble, hlocked]
      exact started_lock ht theta rho

/-- The number of turns that are taken away is fixed by the offset that the line leaves. -/
theorem turns_of_step {k : ℤ} (ht : Started t) {input : ThrInput K}
    (hturns : Turns p k (t.step (exact strtof printf p) input)) : Turns p k t := by
  intro hlocked
  cases input with
  | set_feed feed => exact hturns hlocked
  | line line outlen =>
    rcases translate_cases (exact strtof printf p) t line outlen with h | h | ⟨theta, rho, hpair, -⟩
    · rw [step, h] at hturns
      exact hturns hlocked
    · rw [step, h] at hturns
      exact hturns hlocked
    · obtain ⟨-, hafter, hoffset⟩ := translate_offset (t := t) hpair outlen
      rw [Turns, step, hafter, hoffset] at hturns
      rcases lock_exact strtof printf p ht theta rho with
        ⟨-, -, hsame⟩ | ⟨-, -, -, hlock, hkept⟩
      · rw [hsame] at hturns
        exact hturns hlocked
      · rw [← hturns hlock, hkept, if_pos hlocked]

/-- The coordinates of a pair, once it is known how many turns the offset has. -/
theorem coordinates_exact [IsStrictOrderedRing K] {k : ℤ} (ht : Started t) {theta rho : K}
    (hturns : Turns p k (t.lock (exact strtof printf p) theta rho)) :
    (t.lock (exact strtof printf p) theta rho).coordinates (exact strtof printf p)
        (t.rho_only (exact strtof printf p) theta rho) theta (clampRho (exact strtof printf p) rho) ++
      t.feedWord (exact strtof printf p) = relabelled (exact strtof printf p) k t theta rho := by
  rw [relabelled, clampRho_exact]
  rcases lock_exact strtof printf p ht theta rho with
    ⟨hzero, honly, -⟩ | ⟨hzero, honly, -, hlocked, -⟩
  · rw [coordinates, honly, if_pos rfl, if_pos hzero]
  · have hsub : (exact strtof printf p).sub theta (t.lock (exact strtof printf p) theta rho).theta_offset =
        theta - k * (exact strtof printf p).TWO_PI := by
      rw [hturns hlocked]
      rfl
    rw [coordinates, honly, if_neg Bool.false_ne_true, if_neg hzero, hsub]

theorem relabels_of_turns [IsStrictOrderedRing K] {k : ℤ} (hp : 0 < p) (ht : Started t) {line : Bytes} {outlen : Nat}
    (hturns : Turns p k (t.step (exact strtof printf p) (.line line outlen))) :
    Relabels (exact strtof printf p) k t line outlen where
  rejected h := by
    rcases translate_cases (exact strtof printf p) t line outlen with
      hcase | hcase | ⟨theta, rho, -, hcase | hcase⟩
    · rw [hcase]
    · rw [hcase]
    · rw [hcase] at h
      simp at h
    · rw [hcase] at h
      simp at h
  moved out h := by
    rcases translate_cases (exact strtof printf p) t line outlen with
      hcase | hcase | ⟨theta, rho, hpair, hcase | hcase⟩
    · rw [hcase] at h
      cases h
    · rw [hcase] at h
      cases h
    · rw [hcase] at h
      cases h
    · rw [step, hcase] at hturns
      rw [hcase] at h
      cases h
      exact ⟨theta, rho, hpair, coordinates_exact ht hturns⟩
  locked theta rho hpair hopen := by
    obtain ⟨-, hafter, hoffset⟩ := translate_offset (t := t) hpair outlen
    rw [Turns, step, hafter, hoffset] at hturns
    rw [hafter]
    rcases lock_exact strtof printf p ht theta rho with
      ⟨hzero, -, hsame⟩ | ⟨hzero, -, -, hlock, htaken⟩
    · rw [hsame, hopen]
      exact ⟨iff_of_false Bool.false_ne_true fun h => h hzero.2, fun h => absurd h Bool.false_ne_true⟩
    · refine ⟨iff_of_true hlock fun h => hzero ⟨hopen, h⟩, fun _ => ?_⟩
      -- what the offset leaves of theta is its remainder
      rw [hopen, if_neg Bool.false_ne_true] at htaken
      obtain ⟨hlow, hhigh, -⟩ := positive_mod_2pi_exact strtof printf hp theta
      have hleft : theta - k * p = positive_mod_2pi (exact strtof printf p) theta := by
        rw [← hturns hlock, htaken, sub_sub_cancel]
      change 0 ≤ theta - k * p ∧ theta - k * p < p
      rw [hleft]
      exact ⟨hlow, hhigh⟩

/-- An offset is locked at whole turns. -/
theorem exists_turns_step [IsStrictOrderedRing K] (hp : 0 < p) (ht : Started t)
    (hwhole : ∃ k : ℤ, Turns p k t) (input : ThrInput K) :
    ∃ k : ℤ, Turns p k (t.step (exact strtof printf p) input) := by
  cases input with
  | set_feed feed => exact hwhole
  | line line outlen =>
    rcases translate_cases (exact strtof printf p) t line outlen with h | h | ⟨theta, rho, hpair, -⟩
    · rw [step, h]
      exact hwhole
    · rw [step, h]
      exact hwhole
    · obtain ⟨-, hafter, hoffset⟩ := translate_offset (t := t) hpair outlen
      simp only [Turns, step, hafter, hoffset]
      rcases lock_exact strtof printf p ht theta rho with
        ⟨-, -, hsame⟩ | ⟨-, -, -, hlock, htaken⟩
      · rw [hsame]
        exact hwhole
      · obtain ⟨-, -, k, hk⟩ := positive_mod_2pi_exact strtof printf hp theta
        obtain ⟨kept, hkept⟩ := hwhole
        cases hlocked : t.offset_locked with
        | true => exact ⟨kept, fun _ => by rw [htaken, if_pos hlocked, hkept hlocked]⟩
        | false => exact ⟨k, fun _ => by rw [htaken, hlocked, if_neg Bool.false_ne_true, hk]⟩

/-- The number of turns for a whole run is the one of the offset it ends with. -/
theorem exists_turns [IsStrictOrderedRing K] (hp : 0 < p) (ht : Started t) (hwhole : ∃ k : ℤ, Turns p k t)
    (inputs : List (ThrInput K)) :
    ∃ k : ℤ, Turns p k t ∧ Throughout (step (exact strtof printf p))
      (fun t input => ∀ line outlen, input = .line line outlen → Relabels (exact strtof printf p) k t line outlen)
      t inputs := by
  induction inputs generalizing t with
  | nil =>
    obtain ⟨k, hk⟩ := hwhole
    exact ⟨k, hk, trivial⟩
  | cons input inputs ih =>
    obtain ⟨k, hturns, hrest⟩ := ih (started_step ht input) (exists_turns_step hp ht hwhole input)
    refine ⟨k, turns_of_step ht hturns, ?_, hrest⟩
    rintro line outlen rfl
    exact relabels_of_turns hp ht hturns

end Step

/-- A translation takes the same number of whole turns from all thetas of a job. -/
theorem translate_relabels (strtof : Bytes → Option (ℝ × Bytes)) (printf : Nat → ℝ → Bytes) (feed : ℝ)
    (inputs : List (ThrInput ℝ)) :
    ∃ k : ℤ, Throughout (step (exact strtof printf (2 * Real.pi)))
      (fun t input => ∀ line outlen, input = .line line outlen →
        Relabels (exact strtof printf (2 * Real.pi)) k t line outlen)
      (start (exact strtof printf (2 * Real.pi)) feed) inputs := by
  have hopen : ∃ k : ℤ, Turns (2 * Real.pi) k (start (exact strtof printf (2 * Real.pi)) feed) :=
    ⟨0, fun h => absurd h Bool.false_ne_true⟩
  obtain ⟨k, -, hall⟩ := exists_turns Real.two_pi_pos (started_start feed) hopen inputs
  exact ⟨k, hall⟩

end ThrTranslator

end DuneWeaver
