import DuneWeaver.Binary32.Value
import Mathlib.Algebra.Order.Monoid.Unbundled.WithTop

namespace Binary32

section Nearest

variable {u : ℚ} {n : Nat}

/-- A number that ends in fewer zeros than the rounding keeps is below what is rounded. -/
theorem dvd_or_lt (hbits : ∃ m e, m < 2 ^ 24 ∧ n = m * 2 ^ e) (b : Nat) : 2 ^ b ∣ n ∨ n < 2 ^ (23 + b) := by
  obtain ⟨m, e, hm, rfl⟩ := hbits
  by_cases hbe : b ≤ e
  · exact .inl (Dvd.dvd.mul_left (pow_dvd_pow 2 hbe) m)
  · right
    calc m * 2 ^ e < 2 ^ 24 * 2 ^ e := Nat.mul_lt_mul_of_pos_right hm (by positivity)
      _ = 2 ^ (24 + e) := (pow_add 2 24 e).symm
      _ ≤ 2 ^ (23 + b) := Nat.pow_le_pow_right (by norm_num) (by omega)

/-- All bits of a number from here on count, unless it is small enough for all its bits to. -/
theorem pow_le_of_shift (hshift : ⌊u⌋₊.log2 - 23 ≠ 0) : (2 ^ (23 + (⌊u⌋₊.log2 - 23)) : ℚ) ≤ u := by
  have hlog : 23 + (⌊u⌋₊.log2 - 23) = ⌊u⌋₊.log2 := by omega
  have hfloor : ⌊u⌋₊ ≠ 0 := fun hzero => hshift (by rw [hzero]; rfl)
  rw [hlog]
  calc (2 ^ ⌊u⌋₊.log2 : ℚ) ≤ (⌊u⌋₊ : ℚ) := by exact_mod_cast Nat.log2_self_le hfloor
    _ ≤ u := Nat.floor_le (le_of_not_gt fun hneg => hfloor (Nat.floor_of_nonpos hneg.le))

/-- Rounding does not pass a number whose bits all count. -/
theorem le_nearest (hbits : ∃ m e, m < 2 ^ 24 ∧ n = m * 2 ^ e) (hle : (n : ℚ) ≤ u) : n ≤ nearest u := by
  unfold nearest
  dsimp only
  generalize hb : ⌊u⌋₊.log2 - 23 = b
  have hpos : (0 : ℚ) < 2 ^ b := by positivity
  obtain ⟨k, rfl⟩ | hsmall := dvd_or_lt hbits b
  · have hk : k ≤ Decimal.roundEven (u / 2 ^ b) := by
      refine Decimal.le_roundEven ((le_div_iff₀ hpos).mpr ?_)
      rw [mul_comm]
      exact_mod_cast hle
    calc 2 ^ b * k = k * 2 ^ b := mul_comm _ _
      _ ≤ _ := Nat.mul_le_mul_right _ hk
  · by_cases hzero : b = 0
    · subst hzero
      rw [pow_zero, pow_zero, mul_one, div_one]
      exact Decimal.le_roundEven hle
    · have hlarge := pow_le_of_shift (u := u) (hb ▸ hzero)
      rw [hb, pow_add] at hlarge
      have htop : 2 ^ 23 ≤ Decimal.roundEven (u / 2 ^ b) :=
        Decimal.le_roundEven ((le_div_iff₀ hpos).mpr (by exact_mod_cast hlarge))
      calc n ≤ 2 ^ (23 + b) := hsmall.le
        _ = 2 ^ 23 * 2 ^ b := pow_add 2 23 b
        _ ≤ _ := Nat.mul_le_mul_right _ htop

theorem nearest_le (hbits : ∃ m e, m < 2 ^ 24 ∧ n = m * 2 ^ e) (hle : u ≤ n) : nearest u ≤ n := by
  unfold nearest
  dsimp only
  generalize hb : ⌊u⌋₊.log2 - 23 = b
  have hpos : (0 : ℚ) < 2 ^ b := by positivity
  have hdvd : 2 ^ b ∣ n := by
    obtain hdvd | hsmall := dvd_or_lt hbits b
    · exact hdvd
    · by_cases hzero : b = 0
      · rw [hzero, pow_zero]
        exact one_dvd n
      · have hlarge := (pow_le_of_shift (u := u) (hb ▸ hzero)).trans hle
        rw [hb] at hlarge
        exact absurd (by exact_mod_cast hlarge) (Nat.not_le.mpr hsmall)
  obtain ⟨k, rfl⟩ := hdvd
  have hk : Decimal.roundEven (u / 2 ^ b) ≤ k := by
    refine Decimal.roundEven_le ((div_le_iff₀ hpos).mpr ?_)
    rw [mul_comm]
    exact_mod_cast hle
  calc _ ≤ k * 2 ^ b := Nat.mul_le_mul_right _ hk
    _ = 2 ^ b * k := mul_comm _ _

end Nearest

/-- The rational numbers between the infinities. -/
abbrev Extended := WithBot (WithTop ℚ)

namespace Extended

def ofRat (q : ℚ) : Extended := ((q : WithTop ℚ) : WithBot (WithTop ℚ))

def infinity : Extended := ((⊤ : WithTop ℚ) : WithBot (WithTop ℚ))

variable {p q : ℚ}

@[simp] theorem ofRat_le_ofRat : ofRat p ≤ ofRat q ↔ p ≤ q := by
  rw [ofRat, ofRat, WithBot.coe_le_coe, WithTop.coe_le_coe]

@[simp] theorem ofRat_lt_ofRat : ofRat p < ofRat q ↔ p < q := by
  rw [ofRat, ofRat, WithBot.coe_lt_coe, WithTop.coe_lt_coe]

theorem ofRat_add (p q : ℚ) : ofRat p + ofRat q = ofRat (p + q) := rfl

theorem ofRat_lt_infinity (q : ℚ) : ofRat q < infinity := WithBot.coe_lt_coe.mpr (WithTop.coe_lt_top q)

theorem le_infinity (e : Extended) : e ≤ infinity := by
  cases e with
  | none => exact bot_le
  | some e => exact WithBot.coe_le_coe.mpr le_top

theorem bot_lt_ofRat (q : ℚ) : (⊥ : Extended) < ofRat q := WithBot.bot_lt_coe _

theorem bot_lt_infinity : (⊥ : Extended) < infinity := WithBot.bot_lt_coe _

end Extended

namespace Value

open Extended

/-- `<=` -/
def le (x y : Value) : Bool := lt x y || eq x y

def fabsf : Value → Value
  | nan => nan
  | inf _ => inf false
  | finite _ a => finite false a

def zero : Value := round false 0

/-- Where a value stands among the rational numbers and the infinities; a NaN stands nowhere. -/
def ext : Value → Extended
  | nan => ⊥
  | inf true => ⊥
  | inf false => infinity
  | finite s a => Extended.ofRat (rat s a)

variable {x y : Value} {q : ℚ}

theorem lt_iff (hx : x ≠ nan) (hy : y ≠ nan) : lt x y = true ↔ x.ext < y.ext := by
  cases x with
  | nan => exact absurd rfl hx
  | inf s =>
    cases y with
    | nan => exact absurd rfl hy
    | inf t => cases s <;> cases t <;> simp [lt, ext, bot_lt_infinity]
    | finite t b => cases s <;> simp [lt, ext, bot_lt_ofRat, (ofRat_lt_infinity _).le]
  | finite s a =>
    cases y with
    | nan => exact absurd rfl hy
    | inf t => cases t <;> simp [lt, ext, ofRat_lt_infinity]
    | finite t b => simp [lt, ext]

theorem eq_iff (hx : x ≠ nan) (hy : y ≠ nan) : eq x y = true ↔ x.ext = y.ext := by
  cases x with
  | nan => exact absurd rfl hx
  | inf s =>
    cases y with
    | nan => exact absurd rfl hy
    | inf t => cases s <;> cases t <;> simp [eq, ext, bot_lt_infinity.ne, bot_lt_infinity.ne']
    | finite t b => cases s <;> simp [eq, ext, (bot_lt_ofRat _).ne, (ofRat_lt_infinity _).ne']
  | finite s a =>
    cases y with
    | nan => exact absurd rfl hy
    | inf t => cases t <;> simp [eq, ext, (bot_lt_ofRat _).ne', (ofRat_lt_infinity _).ne]
    | finite t b =>
      have hinj : Extended.ofRat (rat s a) = Extended.ofRat (rat t b) ↔ rat s a = rat t b := by
        rw [Extended.ofRat, Extended.ofRat, WithBot.coe_inj, WithTop.coe_inj]
      simp [eq, ext, hinj]

theorem le_iff (hx : x ≠ nan) (hy : y ≠ nan) : le x y = true ↔ x.ext ≤ y.ext := by
  rw [le, Bool.or_eq_true, lt_iff hx hy, eq_iff hx hy, le_iff_lt_or_eq]

/-- What is compared and found smaller or equal is a number, and so is what it is compared with. -/
theorem number_of_lt (h : lt x y = true) : x ≠ nan ∧ y ≠ nan := by
  constructor
  · rintro rfl
    cases h
  · rintro rfl
    cases x <;> cases h

theorem number_of_le (h : le x y = true) : x ≠ nan ∧ y ≠ nan := by
  constructor
  · rintro rfl
    cases h
  · rintro rfl
    cases x <;> cases h

theorem ext_lt (h : lt x y = true) : x.ext < y.ext := (lt_iff (number_of_lt h).1 (number_of_lt h).2).mp h

theorem ext_le (h : le x y = true) : x.ext ≤ y.ext := (le_iff (number_of_le h).1 (number_of_le h).2).mp h

theorem units_eq (mag : Magnitude) : (mag.units : ℚ) = mag.value * 2 ^ 149 := by
  rw [Magnitude.value, div_mul_cancel₀ _ (by positivity)]

/-- A magnitude stays on its side of what is rounded. -/
theorem le_nearest_value {a : Magnitude} (h : a.value ≤ q) : a.value ≤ nearest (q * 2 ^ 149) / 2 ^ 149 := by
  rw [le_div_iff₀ (by positivity), ← units_eq]
  exact_mod_cast le_nearest a.hbits (units_eq a ▸ mul_le_mul_of_nonneg_right h (by positivity))

theorem nearest_le_value {a : Magnitude} (h : q ≤ a.value) :
    nearest (q * 2 ^ 149) < 2 ^ 128 * 2 ^ 149 ∧ (nearest (q * 2 ^ 149) / 2 ^ 149 : ℚ) ≤ a.value := by
  have hle : nearest (q * 2 ^ 149) ≤ a.units :=
    nearest_le a.hbits (units_eq a ▸ mul_le_mul_of_nonneg_right h (by positivity))
  refine ⟨hle.trans_lt a.hrange, ?_⟩
  rw [div_le_iff₀ (by positivity), ← units_eq]
  exact_mod_cast hle

theorem ext_round_zero (s : Bool) : (round s 0).ext = Extended.ofRat 0 := by
  obtain ⟨mag, hround, hvalue⟩ := round_zero s
  rw [hround, ext, rat, hvalue, neg_zero, ite_self]

theorem round_ne_nan (s : Bool) (q : ℚ) : round s q ≠ nan := by
  unfold round
  split
  · exact Value.noConfusion
  · exact Value.noConfusion

theorem ofRat_ne_nan (z : Bool) (q : ℚ) : ofRat z q ≠ nan := by
  unfold ofRat
  split_ifs
  · exact round_ne_nan z 0
  · exact round_ne_nan _ _

/-- Rounding does not pass a value. -/
theorem le_ofRat (z : Bool) (h : x.ext ≤ Extended.ofRat q) : x.ext ≤ (ofRat z q).ext := by
  unfold ofRat
  split_ifs with hzero
  · rwa [ext_round_zero, ← hzero]
  · cases x with
    | nan => exact bot_le
    | inf s =>
      cases s with
      | true => exact bot_le
      | false => exact absurd h (not_le.mpr (ofRat_lt_infinity q))
    | finite s a =>
      rw [ext, ofRat_le_ofRat, rat] at h
      have hmag := value_nonneg a
      by_cases hneg : q < 0
      · rw [decide_eq_true hneg, abs_of_neg hneg]
        have hs : s = true := by
          by_contra hs
          rw [if_neg hs] at h
          linarith
        rw [if_pos hs] at h
        obtain ⟨hrange, hle⟩ := nearest_le_value (by linarith : -q ≤ a.value)
        rw [round, dif_pos hrange, ext, ext, ofRat_le_ofRat, rat, rat, if_pos hs, if_pos rfl]
        exact neg_le_neg hle
      · rw [decide_eq_false hneg, abs_of_nonneg (not_lt.mp hneg), round]
        split_ifs with hrange
        · rw [ext, ext, ofRat_le_ofRat, rat, rat, if_neg Bool.false_ne_true]
          cases s with
          | true =>
            rw [if_pos rfl]
            exact (neg_nonpos.mpr hmag).trans (value_nonneg _)
          | false => exact le_nearest_value h
        · exact le_infinity _

theorem ofRat_le (z : Bool) (hx : x ≠ nan) (h : Extended.ofRat q ≤ x.ext) : (ofRat z q).ext ≤ x.ext := by
  unfold ofRat
  split_ifs with hzero
  · rwa [ext_round_zero, ← hzero]
  · cases x with
    | nan => exact absurd rfl hx
    | inf s =>
      cases s with
      | true => exact absurd h (not_le.mpr (bot_lt_ofRat q))
      | false => exact le_infinity _
    | finite s a =>
      rw [ext, ofRat_le_ofRat, rat] at h
      have hmag := value_nonneg a
      by_cases hneg : q < 0
      · rw [decide_eq_true hneg, abs_of_neg hneg, round]
        split_ifs with hrange
        · rw [ext, ext, ofRat_le_ofRat, rat, rat, if_pos rfl]
          cases s with
          | true => exact neg_le_neg (le_nearest_value (by rw [if_pos rfl] at h; linarith))
          | false =>
            rw [if_neg Bool.false_ne_true]
            exact (neg_nonpos.mpr (value_nonneg _)).trans hmag
        · exact bot_le
      · have hpos : 0 < q := lt_of_le_of_ne (not_lt.mp hneg) (Ne.symm hzero)
        have hs : s = false := by
          by_contra hs
          rw [if_pos (eq_true_of_ne_false hs)] at h
          linarith
        rw [hs, if_neg Bool.false_ne_true] at h
        rw [decide_eq_false hneg, abs_of_nonneg hpos.le]
        obtain ⟨hrange, hle⟩ := nearest_le_value h
        rw [round, dif_pos hrange, ext, ext, ofRat_le_ofRat, rat, rat, hs, if_neg Bool.false_ne_true]
        exact hle

@[simp] theorem ext_zero : zero.ext = Extended.ofRat 0 := ext_round_zero false

/-- A value between two others is finite. -/
theorem finite_of_between (hlow : ⊥ < x.ext) (hhigh : x.ext < infinity) : ∃ s a, x = finite s a := by
  cases x with
  | nan => exact absurd hlow (lt_irrefl _)
  | inf s =>
    cases s with
    | true => exact absurd hlow (lt_irrefl _)
    | false => exact absurd hhigh (lt_irrefl _)
  | finite s a => exact ⟨s, a, rfl⟩

/-- What is positive leads up when it is added and down when it is taken away. -/
theorem le_add_self (hpos : Extended.ofRat 0 < y.ext) (hsum : x.add y ≠ nan) : x.ext ≤ (x.add y).ext := by
  cases x with
  | nan => exact bot_le
  | inf s =>
    cases y with
    | nan => exact absurd hpos not_lt_bot
    | inf t =>
      cases t with
      | true => exact absurd hpos not_lt_bot
      | false =>
        cases s with
        | true => exact bot_le
        | false => exact le_rfl
    | finite t b => exact le_rfl
  | finite s a =>
    cases y with
    | nan => exact absurd hpos not_lt_bot
    | inf t =>
      cases t with
      | true => exact absurd hpos not_lt_bot
      | false => exact le_infinity _
    | finite t b =>
      rw [ext, ofRat_lt_ofRat] at hpos
      exact le_ofRat _ (ofRat_le_ofRat.mpr (by linarith))

theorem rat_not (t : Bool) (b : Magnitude) : rat (!t) b = -rat t b := by
  cases t <;> simp [rat]

theorem sub_le_self (hpos : Extended.ofRat 0 < y.ext) (hx : x ≠ nan) : (x.sub y).ext ≤ x.ext := by
  cases x with
  | nan => exact absurd rfl hx
  | inf s =>
    cases y with
    | nan => exact absurd hpos not_lt_bot
    | inf t =>
      cases t with
      | true => exact absurd hpos not_lt_bot
      | false => cases s <;> exact bot_le
    | finite t b => exact le_rfl
  | finite s a =>
    cases y with
    | nan => exact absurd hpos not_lt_bot
    | inf t =>
      cases t with
      | true => exact absurd hpos not_lt_bot
      | false => exact bot_le
    | finite t b =>
      rw [ext, ofRat_lt_ofRat] at hpos
      refine ofRat_le _ hx (ofRat_le_ofRat.mpr ?_)
      rw [rat_not]
      linarith

/-- A sum does not pass a value that the exact sum does not pass. -/
theorem add_le {s t : Bool} {a b : Magnitude} (hx : x ≠ nan) (h : (finite s a).ext + (finite t b).ext ≤ x.ext) :
    ((finite s a).add (finite t b)).ext ≤ x.ext :=
  ofRat_le _ hx h

theorem ext_fabsf (hx : x ≠ nan) (h : Extended.ofRat 0 ≤ x.ext) : x.fabsf.ext = x.ext := by
  cases x with
  | nan => exact absurd rfl hx
  | inf s =>
    cases s with
    | true => exact absurd h (not_le.mpr (bot_lt_ofRat 0))
    | false => rfl
  | finite s a =>
    rw [ext, ofRat_le_ofRat, rat] at h
    have hmag := value_nonneg a
    rw [fabsf, ext, ext, rat, rat, if_neg Bool.false_ne_true]
    cases s with
    | true =>
      rw [if_pos rfl] at h ⊢
      rw [le_antisymm (by linarith) hmag, neg_zero]
    | false => rw [if_neg Bool.false_ne_true]

/-- A distance that is not rounded to the bound, or to less, exceeds it. -/
theorem add_le_of_lt_fabsf_sub {s t : Bool} {a b : Magnitude} (hup : (finite s a).ext < x.ext)
    (hfar : lt (finite t b) (fabsf (x.sub (finite s a))) = true) : (finite s a).ext + (finite t b).ext ≤ x.ext := by
  cases x with
  | nan => exact absurd hup not_lt_bot
  | inf u =>
    cases u with
    | true => exact absurd hup not_lt_bot
    | false => exact le_infinity _
  | finite u c =>
    rw [ext, ext, ofRat_lt_ofRat] at hup
    rw [ext, ext, ext, ofRat_add, ofRat_le_ofRat]
    by_contra hnear
    have hdist : (finite u c).sub (finite s a) = ofRat (u && !s) (rat u c - rat s a) := by
      rw [sub, neg, add, rat_not, ← sub_eq_add_neg]
    rw [hdist] at hfar
    have hzero : Extended.ofRat 0 ≤ (ofRat (u && !s) (rat u c - rat s a)).ext := by
      rw [← ext_zero]
      refine le_ofRat _ ?_
      rw [ext_zero, ofRat_le_ofRat]
      linarith
    have hle : (ofRat (u && !s) (rat u c - rat s a)).ext ≤ (finite t b).ext := by
      refine ofRat_le _ Value.noConfusion ?_
      rw [ext, ofRat_le_ofRat]
      linarith
    have hlt := ext_lt hfar
    rw [ext_fabsf (ofRat_ne_nan _ _) hzero] at hlt
    exact absurd hlt (not_lt.mpr hle)

end Value

end Binary32
