import DuneWeaver.Decimal.Numeral
import Mathlib.Data.Rat.Floor
import Mathlib.Tactic.Linarith
import Mathlib.Tactic.NormNum

open Ascii

namespace Decimal

section Fixed

/-- The nearest natural number, in the middle the even one. -/
def roundEven (q : ℚ) : Nat :=
  let n := ⌊q⌋₊
  if 2 * (q - n) < 1 then n
  else if 1 < 2 * (q - n) then n + 1
  else if n % 2 = 0 then n
  else n + 1

/-- What stands in front of the digits. -/
def sign (neg : Bool) : List UInt8 := if neg then [45] else []

/-- A number of units of `10 ^ -prec`, with the point where it belongs. -/
def point (prec n : Nat) : List UInt8 :=
  ofNat (n / 10 ^ prec) ++ if prec = 0 then [] else 46 :: padded prec (n % 10 ^ prec)

/-- A number with `prec` digits behind the point, rounded to the nearest. -/
def fixed (prec : Nat) (neg : Bool) (mag : ℚ) : List UInt8 := sign neg ++ point prec (roundEven (mag * 10 ^ prec))

/-- Digits on both sides of a point, with a sign or without, and the number that they stand for. -/
inductive Denotes : List UInt8 → ℚ → Prop
  | mk (neg : Bool) {whole frac : List UInt8} (hwhole : Numeral whole) (hfrac : Numeral frac) :
    Denotes (sign neg ++ whole ++ 46 :: frac)
      ((if neg then -1 else 1) * (number whole + number frac / 10 ^ frac.length))

variable {q : ℚ} {n : Nat}

theorem roundEven_cases (q : ℚ) :
    (roundEven q = ⌊q⌋₊ ∧ 2 * (q - ⌊q⌋₊) ≤ 1) ∨ (roundEven q = ⌊q⌋₊ + 1 ∧ 1 ≤ 2 * (q - ⌊q⌋₊)) := by
  rw [roundEven]
  split
  case isTrue hlow => exact .inl ⟨rfl, hlow.le⟩
  case isFalse hlow =>
    split
    case isTrue hhigh => exact .inr ⟨rfl, hhigh.le⟩
    case isFalse hhigh =>
      split
      · exact .inl ⟨rfl, not_lt.mp hhigh⟩
      · exact .inr ⟨rfl, not_lt.mp hlow⟩

/-- Rounding does not pass a natural number. -/
theorem roundEven_le (hq : q ≤ n) : roundEven q ≤ n := by
  have hfloor : ⌊q⌋₊ ≤ n := by
    have hmono := Nat.floor_mono hq
    rwa [Nat.floor_natCast] at hmono
  rcases roundEven_cases q with ⟨heq, -⟩ | ⟨heq, hhalf⟩
  · rw [heq]
    exact hfloor
  · rw [heq]
    rcases hfloor.lt_or_eq with hlt | hat
    · exact hlt
    · rw [hat] at hhalf
      linarith

theorem le_roundEven (hq : (n : ℚ) ≤ q) : n ≤ roundEven q := by
  have hfloor : n ≤ ⌊q⌋₊ := Nat.le_floor hq
  rcases roundEven_cases q with ⟨heq, -⟩ | ⟨heq, -⟩ <;> omega

theorem roundEven_near (hq : 0 ≤ q) : |q - roundEven q| ≤ 1 / 2 := by
  have hlow := Nat.floor_le hq
  have hhigh := Nat.lt_floor_add_one q
  rw [abs_le]
  rcases roundEven_cases q with ⟨heq, hhalf⟩ | ⟨heq, hhalf⟩
  · rw [heq]
    constructor <;> linarith
  · rw [heq]
    push_cast
    constructor <;> linarith

section Point

variable {prec k : Nat}

theorem point_zero (n : Nat) : point 0 n = ofNat n := by simp [point]

theorem point_pos (hprec : prec ≠ 0) (n : Nat) :
    point prec n = ofNat (n / 10 ^ prec) ++ 46 :: padded prec (n % 10 ^ prec) := by
  rw [point, if_neg hprec]

/-- The digits on both sides of the point stand for the number of units. -/
theorem number_point (prec n : Nat) :
    number (ofNat (n / 10 ^ prec)) * 10 ^ prec + number (padded prec (n % 10 ^ prec)) = n := by
  rw [number_ofNat, number_padded, Nat.mod_mod, Nat.mul_comm]
  exact Nat.div_add_mod n (10 ^ prec)

theorem numeral_padded (hprec : prec ≠ 0) (n : Nat) : Numeral (padded prec n) := by
  refine ⟨fun h => hprec ?_, fun c hc => digits_padded hc⟩
  rw [← length_padded prec n, h, List.length_nil]

theorem value_point (prec n : Nat) :
    (number (ofNat (n / 10 ^ prec)) + number (padded prec (n % 10 ^ prec)) / 10 ^ prec : ℚ) = n / 10 ^ prec := by
  rw [eq_div_iff (by positivity), add_mul, div_mul_cancel₀ _ (by positivity)]
  exact_mod_cast number_point prec n

/-- What is printed stands for the rounded number. -/
theorem denotes_fixed (hprec : prec ≠ 0) (neg : Bool) (mag : ℚ) :
    Denotes (fixed prec neg mag) ((if neg then -1 else 1) * (roundEven (mag * 10 ^ prec) / 10 ^ prec)) := by
  have hdenotes := Denotes.mk neg (numeral_ofNat (roundEven (mag * 10 ^ prec) / 10 ^ prec))
    (numeral_padded hprec (roundEven (mag * 10 ^ prec) % 10 ^ prec))
  rw [length_padded, value_point] at hdenotes
  rwa [fixed, point_pos hprec, ← List.append_assoc]

theorem length_point_le (hk : 0 < k) (hn : n < 10 ^ k * 10 ^ prec) : (point prec n).length ≤ k + 1 + prec := by
  have hwhole : (ofNat (n / 10 ^ prec)).length ≤ k :=
    (length_ofNat_le hk).mpr (Nat.div_lt_of_lt_mul (by rwa [Nat.mul_comm]))
  rw [point, List.length_append]
  split
  · rw [List.length_nil]
    omega
  · rw [List.length_cons, length_padded]
    omega

end Point

end Fixed

section Integer

/-- A whole number in digits, with a minus in front or without. -/
inductive Integer : List UInt8 → Int → Prop
  | mk (neg : Bool) {digits : List UInt8} (hdigits : Numeral digits) :
    Integer (sign neg ++ digits) (if neg then -(number digits : Int) else number digits)

variable {text front front' rest rest' : List UInt8} {n n' : Int} {neg : Bool}

/-- A numeral does not start with a minus. -/
theorem Numeral.head_ne (h : Numeral text) (rest : List UInt8) : (text ++ rest).head? ≠ some 45 := by
  obtain ⟨c, tail, rfl⟩ := List.exists_cons_of_ne_nil h.ne_nil
  intro hhead
  have hdigit := h.digits c List.mem_cons_self
  rw [List.cons_append, List.head?_cons, Option.some.injEq] at hhead
  rw [hhead] at hdigit
  exact absurd hdigit (by decide)

/-- What is read in front of a text tells how the text goes on. -/
theorem Integer.cut_unique (h : Integer front n) (h' : Integer front' n') (hrest : Stops rest) (hrest' : Stops rest')
    (heq : front ++ rest = front' ++ rest') : front = front' ∧ n = n' ∧ rest = rest' := by
  obtain ⟨neg, hdigits⟩ := h
  obtain ⟨neg', hdigits'⟩ := h'
  rw [List.append_assoc, List.append_assoc] at heq
  have hsame : neg = neg' := by
    cases neg <;> cases neg'
    case false.false => rfl
    case false.true =>
      exact absurd (congrArg List.head? heq) (hdigits.head_ne rest)
    case true.false =>
      exact absurd (congrArg List.head? heq).symm (hdigits'.head_ne rest')
    case true.true => rfl
  subst hsame
  obtain ⟨rfl, rfl⟩ := Decimal.cut_unique hdigits.digits hdigits'.digits hrest hrest' (List.append_cancel_left heq)
  exact ⟨rfl, rfl, rfl⟩

theorem Integer.unique (h : Integer text n) (h' : Integer text n') : n = n' :=
  (h.cut_unique h' stops_nil stops_nil rfl).2.1

/-- An integer stands in front of every text, or no digit where one would be. -/
theorem exists_integer_cut (text : List UInt8) :
    (∃ front rest n, text = front ++ rest ∧ Integer front n ∧ Stops rest) ∨
      ∃ neg body, text = sign neg ++ body ∧ Stops body ∧ (neg = false → text.head? ≠ some 45) := by
  have hsign : ∃ neg body, text = sign neg ++ body ∧ (neg = false → text.head? ≠ some 45) := by
    by_cases hneg : text.head? = some 45
    · obtain ⟨body, rfl⟩ := List.head?_eq_some_iff.mp hneg
      exact ⟨true, body, rfl, by simp⟩
    · exact ⟨false, text, rfl, fun _ => hneg⟩
  obtain ⟨neg, body, rfl, hneg⟩ := hsign
  rcases exists_cut body with ⟨digits, rest, rfl, hdigits, hrest⟩ | hstops
  · exact .inl ⟨sign neg ++ digits, rest, _, (List.append_assoc _ _ _).symm, .mk neg hdigits, hrest⟩
  · exact .inr ⟨neg, body, rfl, hstops, hneg⟩

end Integer

end Decimal
