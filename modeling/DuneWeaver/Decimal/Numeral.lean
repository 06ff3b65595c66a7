import DuneWeaver.Ascii
import Mathlib.Data.List.Induction
import Mathlib.Data.List.TakeWhile
import Mathlib.Data.Nat.Digits.Defs
import Mathlib.Tactic.Ring

open Ascii

namespace Decimal

/-- The number that digits stand for. -/
def number (text : List UInt8) : Nat := text.foldl (fun n c => n * 10 + (c.toNat - 48)) 0

/-- Digits, at least one. -/
structure Numeral (text : List UInt8) : Prop where
  ne_nil : text ≠ []
  digits : ∀ c ∈ text, isdigit c = true

/-- The text does not start with a digit. -/
def Stops (text : List UInt8) : Prop := ∀ c, text.head? = some c → isdigit c = false

/-- The digits of a number, without any in front that are not needed. -/
def ofNat (n : Nat) : List UInt8 := (Nat.toDigits 10 n).map fun c => c.toNat.toUInt8

/-- The last `k` digits of a number. -/
def padded : Nat → Nat → List UInt8
  | 0, _ => []
  | k + 1, n => padded k (n / 10) ++ [48 + (n % 10).toUInt8]

variable {a b text rest rest' : List UInt8} {c : UInt8}

theorem isdigit_iff : isdigit c = true ↔ 48 ≤ c.toNat ∧ c.toNat ≤ 57 := by
  have hlow : (48 : UInt8).toNat = 48 := rfl
  have hhigh : (57 : UInt8).toNat = 57 := rfl
  simp only [isdigit, Bool.and_eq_true, decide_eq_true_eq, UInt8.le_iff_toNat_le, hlow, hhigh]

theorem stops_nil : Stops [] := fun _ hc => by cases hc

theorem stops_cons (hc : isdigit c = false) : Stops (c :: rest) := fun _ hd => by cases hd; exact hc

/-- What is cut off in front are the digits. -/
theorem takeWhile_digits (ha : ∀ c ∈ a, isdigit c = true) (hrest : Stops rest) : (a ++ rest).takeWhile isdigit = a := by
  rw [List.takeWhile_append_of_pos ha]
  cases rest with
  | nil => rw [List.takeWhile_nil, List.append_nil]
  | cons c rest => rw [List.takeWhile_cons_of_neg (by simp [hrest c rfl]), List.append_nil]

theorem dropWhile_digits (ha : ∀ c ∈ a, isdigit c = true) (hrest : Stops rest) :
    (a ++ rest).dropWhile isdigit = rest := by
  have hsplit : (a ++ rest).takeWhile isdigit ++ (a ++ rest).dropWhile isdigit = a ++ rest :=
    List.takeWhile_append_dropWhile
  rw [takeWhile_digits ha hrest] at hsplit
  exact List.append_cancel_left hsplit

/-- There is only one way to cut a text behind its digits. -/
theorem cut_unique (ha : ∀ c ∈ a, isdigit c = true) (hb : ∀ c ∈ b, isdigit c = true) (hrest : Stops rest)
    (hrest' : Stops rest') (heq : a ++ rest = b ++ rest') : a = b ∧ rest = rest' := by
  have hfront := congrArg (List.takeWhile isdigit) heq
  rw [takeWhile_digits ha hrest, takeWhile_digits hb hrest'] at hfront
  subst hfront
  exact ⟨rfl, List.append_cancel_left heq⟩

/-- Every text starts with a numeral, or without any digit. -/
theorem exists_cut (text : List UInt8) :
    (∃ a rest, text = a ++ rest ∧ Numeral a ∧ Stops rest) ∨ Stops text := by
  have hsplit : text = text.takeWhile isdigit ++ text.dropWhile isdigit := List.takeWhile_append_dropWhile.symm
  have hrest : Stops (text.dropWhile isdigit) := by
    intro c hc
    have hfirst := List.head?_dropWhile_not isdigit text
    rw [hc] at hfirst
    simpa using hfirst
  by_cases hnone : text.takeWhile isdigit = []
  · right
    rw [hsplit, hnone, List.nil_append]
    exact hrest
  · exact .inl ⟨_, _, hsplit, ⟨hnone, fun c hc => List.mem_takeWhile_imp hc⟩, hrest⟩

theorem foldl_number (text : List UInt8) (n : Nat) :
    text.foldl (fun n c => n * 10 + (c.toNat - 48)) n = n * 10 ^ text.length + number text := by
  induction text generalizing n with
  | nil => simp [number]
  | cons c text ih =>
    have hhead : number (c :: text) = (c.toNat - 48) * 10 ^ text.length + number text := by
      rw [number, List.foldl_cons, ih, Nat.zero_mul, Nat.zero_add]
    rw [List.foldl_cons, ih, hhead, List.length_cons]
    ring

theorem number_append (a b : List UInt8) : number (a ++ b) = number a * 10 ^ b.length + number b := by
  rw [number, List.foldl_append, foldl_number]
  rfl

theorem number_lt (ha : ∀ c ∈ a, isdigit c = true) : number a < 10 ^ a.length := by
  induction a using List.reverseRecOn with
  | nil => exact Nat.one_pos
  | append_singleton a c ih =>
    have hdigit := isdigit_iff.mp (ha c (by simp))
    have hfront := ih fun d hd => ha d (List.mem_append_left [c] hd)
    have hlast : number [c] = c.toNat - 48 := by simp [number]
    rw [number_append, List.length_append, List.length_singleton, hlast, pow_one, pow_succ]
    omega

/-- Added up over the integers, digits make the same number. -/
theorem foldl_int (ha : ∀ c ∈ a, isdigit c = true) (n : Nat) :
    a.foldl (fun (n : Int) c => n * 10 + (c.toNat - 48 : Int)) n =
      (a.foldl (fun n c => n * 10 + (c.toNat - 48)) n : Nat) := by
  induction a generalizing n with
  | nil => rfl
  | cons c a ih =>
    have hlow := (isdigit_iff.mp (ha c List.mem_cons_self)).1
    have hstep : (n : Int) * 10 + (c.toNat - 48 : Int) = ((n * 10 + (c.toNat - 48) : Nat) : Int) := by omega
    rw [List.foldl_cons, List.foldl_cons, hstep, ih fun d hd => ha d (List.mem_cons_of_mem c hd)]

section OfNat

theorem toNat_digit {c : Char} (hc : c.isDigit = true) :
    c.toNat.toUInt8.toNat = c.toNat ∧ 48 ≤ c.toNat ∧ c.toNat ≤ 57 := by
  have hrange : 48 ≤ c.toNat ∧ c.toNat ≤ 57 := Char.isDigit_iff_toNat.mp hc
  refine ⟨?_, hrange⟩
  rw [UInt8.toNat_ofNat']
  omega

theorem numeral_ofNat (n : Nat) : Numeral (ofNat n) := by
  refine ⟨by simp [ofNat, Nat.toDigits_ne_nil], fun c hc => ?_⟩
  obtain ⟨d, hd, rfl⟩ := List.mem_map.mp hc
  obtain ⟨hbyte, hrange⟩ := toNat_digit (Nat.isDigit_of_mem_toDigits (by decide) (by decide) hd)
  rw [isdigit_iff, hbyte]
  exact hrange

theorem foldl_chars (chars : List Char) (hchars : ∀ c ∈ chars, c.isDigit = true) (n : Nat) :
    (chars.map fun c => c.toNat.toUInt8).foldl (fun n c => n * 10 + (c.toNat - 48)) n =
      Nat.ofDigitChars 10 chars n := by
  induction chars generalizing n with
  | nil => simp
  | cons c chars ih =>
    obtain ⟨hbyte, -⟩ := toNat_digit (hchars c List.mem_cons_self)
    have hzero : '0'.toNat = 48 := rfl
    rw [List.map_cons, List.foldl_cons, hbyte, Nat.ofDigitChars_cons,
      ih (fun d hd => hchars d (List.mem_cons_of_mem c hd)), hzero, Nat.mul_comm]

/-- The digits of a number stand for it. -/
theorem number_ofNat (n : Nat) : number (ofNat n) = n := by
  rw [number, ofNat, foldl_chars _ (fun c hc => Nat.isDigit_of_mem_toDigits (by decide) (by decide) hc),
    Nat.ofDigitChars_ten_toDigits]

theorem length_ofNat_le {n k : Nat} (hk : 0 < k) : (ofNat n).length ≤ k ↔ n < 10 ^ k := by
  rw [ofNat, List.length_map, Nat.length_toDigits_le_iff (by decide) hk]

/-- A number of more than one digit does not start with a zero. -/
theorem head_ofNat {n : Nat} (h : (ofNat n).head? = some 48) : ofNat n = [48] := by
  by_cases hone : n < 10
  · have hsingle : ofNat n = [n.digitChar.toNat.toUInt8] := by
      rw [ofNat, Nat.toDigits_of_lt_base hone, List.map_singleton]
    rw [hsingle] at h ⊢
    rw [Option.some.inj h]
  · obtain ⟨front, rest, hcons⟩ := List.exists_cons_of_ne_nil (numeral_ofNat n).ne_nil
    rw [hcons, List.head?_cons, Option.some.injEq] at h
    subst h
    -- with a zero in front, the rest would be enough
    have hnumber := number_ofNat n
    have hdigits := (numeral_ofNat n).digits
    have hlength := length_ofNat_le (n := n) (k := rest.length)
    rw [hcons] at hnumber hdigits hlength
    have hrest : n = number rest := by
      rw [← hnumber, ← List.singleton_append, number_append]
      simp [number]
    have hlt := number_lt (a := rest) fun d hd => hdigits d (List.mem_cons_of_mem 48 hd)
    cases rest with
    | nil => simp [number] at hrest; omega
    | cons d rest =>
      have hshort := (hlength (by simp)).mpr (by rw [hrest]; exact hlt)
      simp at hshort

end OfNat

section Padded

theorem length_padded (k n : Nat) : (padded k n).length = k := by
  induction k generalizing n with
  | zero => rfl
  | succ k ih => rw [padded, List.length_append, ih, List.length_singleton]

theorem toNat_padded_digit (n : Nat) : (48 + (n % 10).toUInt8).toNat = 48 + n % 10 := by
  have hbyte : (n % 10).toUInt8.toNat = n % 10 := by
    rw [UInt8.toNat_ofNat']
    omega
  have hzero : (48 : UInt8).toNat = 48 := rfl
  rw [UInt8.toNat_add, hbyte, hzero]
  omega

theorem digits_padded {k n : Nat} {c : UInt8} (hc : c ∈ padded k n) : isdigit c = true := by
  induction k generalizing n with
  | zero => cases hc
  | succ k ih =>
    rcases List.mem_append.mp hc with hc | hc
    · exact ih hc
    · rw [List.mem_singleton.mp hc, isdigit_iff, toNat_padded_digit]
      omega

/-- The last `k` digits stand for the rest modulo `10 ^ k`. -/
theorem number_padded (k n : Nat) : number (padded k n) = n % 10 ^ k := by
  induction k generalizing n with
  | zero => simp [padded, number, Nat.mod_one]
  | succ k ih =>
    have hlast : number [48 + (n % 10).toUInt8] = n % 10 := by
      have hdigit := toNat_padded_digit n
      simp only [number, List.foldl_cons, List.foldl_nil, hdigit]
      omega
    rw [padded, number_append, ih, hlast, List.length_singleton, pow_one, pow_succ, Nat.mul_comm (10 ^ k) 10,
      Nat.mod_mul]
    omega

end Padded

end Decimal
