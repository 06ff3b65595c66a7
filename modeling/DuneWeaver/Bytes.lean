import DuneWeaver.Decimal.Numeral
import Mathlib.Data.List.TakeWhile

namespace DuneWeaver

export Ascii (isspace isdigit tolower)

/-- A `std::string` or a character buffer, byte by byte. -/
abbrev Bytes := List UInt8

instance : LawfulBEq Bytes := inferInstance

/-- The bytes of an ASCII literal of the source. -/
def bytes (literal : String) : Bytes := literal.toList.map fun c => c.toNat.toUInt8

/-- The decimal digits of a number. -/
abbrev digits (n : Nat) : Bytes := Decimal.ofNat n

/-- The C string at the front of a buffer: what `%s` prints and `strlcpy`
copies stops at the first NUL. -/
def c_str (s : Bytes) : Bytes := s.takeWhile (· ≠ 0)

/-- `strlcpy` into a buffer of `size` bytes keeps one of them for the NUL. -/
def strlcpy (size : Nat) (src : Bytes) : Bytes := (c_str src).take (size - 1)

theorem c_str_eq_self {s : Bytes} (h : 0 ∉ s) : c_str s = s := by
  rw [c_str, List.takeWhile_eq_self_iff]
  intro c hc
  exact decide_eq_true (fun heq => h (heq ▸ hc))

theorem c_str_length_le (s : Bytes) : (c_str s).length ≤ s.length :=
  (List.takeWhile_prefix _).length_le

theorem zero_notMem_c_str (s : Bytes) : 0 ∉ c_str s := by
  intro h
  simpa using List.mem_takeWhile_imp h

@[simp] theorem c_str_c_str (s : Bytes) : c_str (c_str s) = c_str s := c_str_eq_self (zero_notMem_c_str s)

/-- A copy is exact precisely when the string has no NUL and leaves room for
the one that ends the buffer. -/
theorem strlcpy_eq_self_iff {size : Nat} (hsize : 0 < size) (s : Bytes) :
    strlcpy size s = s ↔ 0 ∉ s ∧ s.length < size := by
  constructor
  · intro h
    have hlen := congrArg List.length h
    simp only [strlcpy, List.length_take] at hlen
    have hle := c_str_length_le s
    refine ⟨?_, by omega⟩
    rw [← h]
    exact fun hmem => zero_notMem_c_str s (List.mem_of_mem_take hmem)
  · rintro ⟨hnul, hlen⟩
    rw [strlcpy, c_str_eq_self hnul, List.take_of_length_le (by omega)]

/-- Copying a copy into a buffer of the same size changes nothing. -/
@[simp] theorem strlcpy_strlcpy (size : Nat) (s : Bytes) :
    strlcpy size (strlcpy size s) = strlcpy size s := by
  have hfree : (0 : UInt8) ∉ strlcpy size s := fun hmem =>
    zero_notMem_c_str s (List.mem_of_mem_take hmem)
  rw [strlcpy, c_str_eq_self hfree, strlcpy, List.take_take, min_self]

@[simp] theorem strlcpy_nil (size : Nat) : strlcpy size [] = [] := by simp [strlcpy, c_str]

end DuneWeaver
