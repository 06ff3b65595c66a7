import DuneWeaver.Binary32.Value
import DuneWeaver.Bytes

open Binary32

namespace DuneWeaver

/-- Maximum number of digits in int32 (and float). -/
def MAX_INT_DIGITS : Nat := 8

/-- The loops of `uint_to_float` below zero: two places at a time, and one that is left. -/
def scaleDown (fval : Value) : Nat → Value
  | 0 => fval
  | 1 => fval.mul (round false (1 / 10))
  | places + 2 => scaleDown (fval.mul (round false (1 / 100))) places

/-- The loop of `uint_to_float` above zero. The product is a `double` and has room for all digits until it is
stored. -/
def scaleUp (fval : Value) : Nat → Value
  | 0 => fval
  | places + 1 => scaleUp (fval.mul (round false 10)) places

def uint_to_float (intval : UInt32) (exp : Int) : Value :=
  let fval := round false intval.toNat
  if fval.eq (round false 0) then fval
  else if exp < 0 then scaleDown fval exp.natAbs
  else scaleUp fval exp.natAbs

/-- The digits that have been read. -/
structure Digits where
  intval : UInt32 := 0
  exp : Int8 := 0
  ndigit : Nat := 0
  isdecimal : Bool := false

namespace Digits

def digit (d : Digits) (c : UInt8) : Digits :=
  let d := { d with ndigit := d.ndigit + 1 }
  if d.ndigit ≤ MAX_INT_DIGITS then
    { d with exp := if d.isdecimal then d.exp - 1 else d.exp, intval := d.intval * 10 + c.toUInt32 - 48 }
  -- drop overflow digits
  else { d with exp := if d.isdecimal then d.exp else d.exp + 1 }

/-- The loop of `read_float`: the digits, and what they end in front of. -/
def read (d : Digits) : Bytes → Digits × Bytes
  | [] => (d, [])
  | c :: text =>
    if isdigit c then read (d.digit c) text
    else if c = 46 ∧ ¬ d.isdecimal then read { d with isdecimal := true } text
    else (d, c :: text)

end Digits

/-- The text behind an initial positive or minus character. -/
def skipSign (text : Bytes) : Bytes := if text.head? = some 45 ∨ text.head? = some 43 then text.tail else text

/-- The value of the number that the text starts with, and the text behind it. -/
def read_float (text : Bytes) : Option (Value × Bytes) :=
  let isnegative := text.head? = some 45
  let (d, rest) := Digits.read {} (skipSign text)
  if d.ndigit = 0 then none
  else
    let fval := uint_to_float d.intval d.exp.toInt
    some (if isnegative then fval.neg else fval, rest)

namespace Digits

variable {text rest : Bytes}

@[simp] theorem digit_ndigit (d : Digits) (c : UInt8) : (d.digit c).ndigit = d.ndigit + 1 := by
  rw [digit]
  dsimp only
  split <;> rfl

@[simp] theorem digit_isdecimal (d : Digits) (c : UInt8) : (d.digit c).isdecimal = d.isdecimal := by
  rw [digit]
  dsimp only
  split <;> rfl

/-- Digits are read to their end. -/
theorem read_digits (d : Digits) (rest : Bytes) (hdigits : ∀ c ∈ text, isdigit c = true) :
    ∃ d' : Digits, d.read (text ++ rest) = d'.read rest ∧ d'.ndigit = d.ndigit + text.length ∧
    d'.isdecimal = d.isdecimal := by
  induction text generalizing d with
  | nil => exact ⟨d, rfl, rfl, rfl⟩
  | cons c text ih =>
    obtain ⟨d', hread, hcount, hpoint⟩ := ih (d.digit c) fun e he => hdigits e (List.mem_cons_of_mem c he)
    rw [digit_ndigit] at hcount
    rw [digit_isdecimal] at hpoint
    refine ⟨d', ?_, by rw [hcount, List.length_cons]; omega, hpoint⟩
    rw [List.cons_append, read, if_pos (hdigits c List.mem_cons_self)]
    exact hread

/-- Behind the point the digits end at whatever is not one of them. -/
theorem read_stops (d : Digits) (hpoint : d.isdecimal = true) (hrest : Decimal.Stops rest) :
    d.read rest = (d, rest) := by
  cases rest with
  | nil => rfl
  | cons c rest => rw [read, if_neg (by rw [hrest c rfl]; exact Bool.false_ne_true), if_neg fun h => h.2 hpoint]

end Digits

/-- A numeral with a point is accepted in full. -/
theorem read_float_denotes {text rest : Bytes} {q : ℚ} (htext : Decimal.Denotes text q) (hrest : Decimal.Stops rest) :
    ∃ value, read_float (text ++ rest) = some (value, rest) := by
  obtain @⟨neg, whole, frac, hwhole, hfrac⟩ := htext
  obtain ⟨d, hread, -, hpoint⟩ := Digits.read_digits {} (46 :: (frac ++ rest)) hwhole.digits
  obtain ⟨d', hread', hcount, hpoint'⟩ := Digits.read_digits { d with isdecimal := true } rest hfrac.digits
  have hall : Digits.read {} (whole ++ 46 :: (frac ++ rest)) = (d', rest) := by
    rw [hread, Digits.read, if_neg (by decide), if_pos ⟨rfl, by rw [hpoint]; exact Bool.false_ne_true⟩, hread']
    exact Digits.read_stops d' hpoint' hrest
  have hdigit : d'.ndigit ≠ 0 := by
    have hlength := List.length_pos_iff.mpr hfrac.ne_nil
    omega
  have htext : Decimal.sign neg ++ whole ++ 46 :: frac ++ rest = Decimal.sign neg ++
      (whole ++ 46 :: (frac ++ rest)) := by
    simp
  have hfirst : ∀ c, (whole ++ 46 :: (frac ++ rest)).head? = some c → c ≠ 45 ∧ c ≠ 43 := by
    intro c hc
    rw [List.head?_append_of_ne_nil _ hwhole.ne_nil] at hc
    have hdigit := Decimal.isdigit_iff.mp (hwhole.digits c (List.mem_of_mem_head? hc))
    constructor <;> rintro rfl <;> revert hdigit <;> decide
  have hskip : skipSign (Decimal.sign neg ++ (whole ++ 46 :: (frac ++ rest))) = whole ++ 46 :: (frac ++ rest) := by
    cases neg with
    | true => rfl
    | false => exact if_neg fun h => h.elim (fun h => (hfirst 45 h).1 rfl) fun h => (hfirst 43 h).2 rfl
  rw [htext, read_float, hskip, hall]
  dsimp only
  rw [if_neg hdigit]
  exact ⟨_, rfl⟩

end DuneWeaver
