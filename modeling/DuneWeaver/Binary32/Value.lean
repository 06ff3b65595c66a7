import DuneWeaver.Decimal.Fixed

namespace Binary32

/-- The magnitude of a finite number in units of `2 ^ -149`: 24 bits of it count. -/
structure Magnitude where
  units : Nat
  hbits : ∃ m e, m < 2 ^ 24 ∧ units = m * 2 ^ e
  hrange : units < 2 ^ 128 * 2 ^ 149
deriving DecidableEq

def Magnitude.value (mag : Magnitude) : ℚ := mag.units / 2 ^ 149

/-- A single precision number. The NaNs are not told apart. -/
inductive Value
  | nan
  | inf (neg : Bool)
  | finite (neg : Bool) (mag : Magnitude)
deriving DecidableEq

section Rounding

/-- The nearest multiple of the last bit that counts. -/
def nearest (u : ℚ) : Nat :=
  let e := ⌊u⌋₊.log2 - 23
  Decimal.roundEven (u / 2 ^ e) * 2 ^ e

theorem lt_log2 (u : ℚ) : u < 2 ^ (⌊u⌋₊.log2 + 1) := by
  calc u < ⌊u⌋₊ + 1 := Nat.lt_floor_add_one u
    _ ≤ 2 ^ (⌊u⌋₊.log2 + 1) := by exact_mod_cast Nat.succ_le_of_lt Nat.lt_log2_self

/-- What is rounded up to 25 bits is a power of two. -/
theorem nearest_bits (u : ℚ) : ∃ m e, m < 2 ^ 24 ∧ nearest u = m * 2 ^ e := by
  have hle : Decimal.roundEven (u / 2 ^ (⌊u⌋₊.log2 - 23)) ≤ 2 ^ 24 := by
    apply Decimal.roundEven_le
    rw [div_le_iff₀ (by positivity)]
    calc u ≤ 2 ^ (⌊u⌋₊.log2 + 1) := (lt_log2 u).le
      _ ≤ 2 ^ (24 + (⌊u⌋₊.log2 - 23)) := pow_le_pow_right₀ (by norm_num) (by omega)
      _ = ((2 ^ 24 : Nat) : ℚ) * 2 ^ (⌊u⌋₊.log2 - 23) := by
        rw [pow_add]
        norm_num
  rcases hle.lt_or_eq with hlt | heq
  · exact ⟨_, _, hlt, rfl⟩
  · refine ⟨2 ^ 23, (⌊u⌋₊.log2 - 23) + 1, by norm_num, ?_⟩
    rw [nearest, heq, pow_succ]
    ring

/-- Rounding to nearest, and to infinity where the magnitude is out of range. -/
def round (neg : Bool) (q : ℚ) : Value :=
  if h : nearest (q * 2 ^ 149) < 2 ^ 128 * 2 ^ 149 then .finite neg ⟨_, nearest_bits _, h⟩ else .inf neg

end Rounding

namespace Value

/-- The rational number a finite one stands for. -/
def rat (neg : Bool) (mag : Magnitude) : ℚ := if neg then -mag.value else mag.value

/-- The rounded number; an exact zero gets the sign that is asked for. -/
def ofRat (zero_neg : Bool) (q : ℚ) : Value := if q = 0 then round zero_neg 0 else round (q < 0) |q|

def isfinite : Value → Bool
  | finite _ _ => true
  | _ => false

def neg : Value → Value
  | nan => nan
  | inf s => inf !s
  | finite s a => finite (!s) a

def add : Value → Value → Value
  | nan, _ => nan
  | _, nan => nan
  | inf s, inf t => if s = t then inf s else nan
  | inf s, finite _ _ => inf s
  | finite _ _, inf t => inf t
  | finite s a, finite t b => ofRat (s && t) (rat s a + rat t b)

def sub (x y : Value) : Value := x.add y.neg

def mul : Value → Value → Value
  | nan, _ => nan
  | _, nan => nan
  | inf s, inf t => inf (s ^^ t)
  | inf s, finite t b => if b.value = 0 then nan else inf (s ^^ t)
  | finite s a, inf t => if a.value = 0 then nan else inf (s ^^ t)
  | finite s a, finite t b => round (s ^^ t) (a.value * b.value)

/-- The remainder of a division rounded towards zero, with the sign of the dividend. -/
def fmodf : Value → Value → Value
  | nan, _ => nan
  | _, nan => nan
  | inf _, _ => nan
  | finite s a, inf _ => finite s a
  | finite s a, finite _ b =>
    if b.value = 0 then nan else round s (a.value - b.value * ⌊a.value / b.value⌋₊)

def lt : Value → Value → Bool
  | nan, _ => false
  | _, nan => false
  | inf s, inf t => s && !t
  | inf s, finite _ _ => s
  | finite _ _, inf t => !t
  | finite s a, finite t b => rat s a < rat t b

/-- The two zeros are equal, and a NaN is not equal to itself. -/
def eq : Value → Value → Bool
  | inf s, inf t => s == t
  | finite s a, finite t b => rat s a = rat t b
  | _, _ => false

/-- `%.*f` -/
def printf (prec : Nat) : Value → List UInt8
  | nan => [110, 97, 110]
  | inf s => Decimal.sign s ++ [105, 110, 102]
  | finite s a => Decimal.fixed prec s a.value

variable {x y : Value}

theorem ext_value {a b : Magnitude} (h : a.value = b.value) : a = b := by
  have hunits : a.units = b.units := by
    have hcast := (div_left_inj' (by norm_num : (2 : ℚ) ^ 149 ≠ 0)).mp h
    exact_mod_cast hcast
  cases a
  cases b
  cases hunits
  rfl

theorem value_nonneg (mag : Magnitude) : 0 ≤ mag.value := by
  rw [Magnitude.value]
  positivity

theorem round_zero (s : Bool) : ∃ mag : Magnitude, round s 0 = finite s mag ∧ mag.value = 0 := by
  have hzero : nearest (0 * 2 ^ 149) = 0 := by simp [nearest, Decimal.roundEven]
  refine ⟨⟨nearest (0 * 2 ^ 149), nearest_bits _, by rw [hzero]; norm_num⟩, dif_pos (by rw [hzero]; norm_num), ?_⟩
  simp only [Magnitude.value, hzero, Nat.cast_zero, zero_div]

/-- What is greater than zero is equal to itself alone. -/
theorem eq_iff_of_pos (hpos : lt (round false 0) x = true) : eq x y = true ↔ x = y := by
  obtain ⟨zero, hzero, hvalue⟩ := round_zero false
  rw [hzero] at hpos
  cases x with
  | nan => cases hpos
  | inf s => cases y <;> simp [eq]
  | finite s a =>
    have hpos : 0 < rat s a := by simpa [lt, rat, hvalue] using hpos
    have hs : s = false := by
      cases s with
      | false => rfl
      | true =>
        have hmag := value_nonneg a
        simp only [rat, if_true] at hpos
        linarith
    subst hs
    cases y with
    | nan => simp [eq]
    | inf t => simp [eq]
    | finite t b =>
      have hmag := value_nonneg b
      simp only [rat, Bool.false_eq_true, if_false] at hpos
      cases t with
      | false =>
        simp only [eq, rat, Bool.false_eq_true, if_false, decide_eq_true_eq, finite.injEq, true_and]
        exact ⟨ext_value, fun h => congrArg Magnitude.value h⟩
      | true =>
        simp only [eq, rat, Bool.false_eq_true, if_false, if_true, decide_eq_true_eq, finite.injEq, false_and,
          iff_false]
        intro h
        linarith

end Value

end Binary32
