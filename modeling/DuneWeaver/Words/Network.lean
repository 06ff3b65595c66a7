import Mathlib.Tactic.Common
import Mathlib.Data.List.Basic
import Mathlib.Algebra.Group.Nat.Defs

namespace Words

/-- The number two bytes in network order stand for. -/
def word (hi lo : UInt8) : UInt16 := hi.toUInt16 <<< 8 ||| lo.toUInt16

/-- A number in network order. -/
def u16 (n : UInt16) : List UInt8 := [(n >>> 8).toUInt8, n.toUInt8]

theorem word_toNat (hi lo : UInt8) : (word hi lo).toNat = hi.toNat * 256 + lo.toNat := by
  have hhi := hi.toNat_lt
  have hlo := lo.toNat_lt
  have hor := Nat.shiftLeft_add_eq_or_of_lt (b := lo.toNat) (i := 8) (by omega) hi.toNat
  simp only [Nat.shiftLeft_eq] at hor
  simp only [word, UInt16.toNat_or, UInt16.toNat_shiftLeft, UInt8.toNat_toUInt16, Nat.shiftLeft_eq]
  rw [Nat.mod_eq_of_lt (by simp; omega)]
  simpa using hor.symm

/-- Two bytes are the number they stand for. -/
theorem u16_word (hi lo : UInt8) : u16 (word hi lo) = [hi, lo] := by
  have hhi := hi.toNat_lt
  have hlo := lo.toNat_lt
  have hhigh : (word hi lo >>> 8).toUInt8 = hi := by
    apply UInt8.toNat_inj.mp
    simp only [UInt16.toNat_toUInt8, UInt16.toNat_shiftRight, word_toNat, Nat.shiftRight_eq_div_pow]
    simp
    omega
  have hlow : (word hi lo).toUInt8 = lo := by
    apply UInt8.toNat_inj.mp
    simp only [UInt16.toNat_toUInt8, word_toNat]
    omega
  rw [u16, hhigh, hlow]

/-- A number is what its two bytes stand for. -/
theorem word_bytes (n : UInt16) : word (n >>> 8).toUInt8 n.toUInt8 = n := by
  apply UInt16.toNat_inj.mp
  have hn := n.toNat_lt
  rw [word_toNat]
  simp [Nat.shiftRight_eq_div_pow]
  omega

end Words
