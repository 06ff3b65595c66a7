import Mathlib.Tactic.Common
import Mathlib.Algebra.Order.Ring.Nat

namespace Bresenham

/-- One tick of an error counter with divisor `d`: `s` is added, and what goes beyond
`d` is carried. -/
def tick (d s c : Nat) : Nat × Bool := if d < c + s then (c + s - d, true) else (c + s, false)

/-- A counter that began at `start` accounts for everything added to it, by what it
holds and by what it has carried, and owes no further carry. -/
structure Balanced (d start c carries added : Nat) : Prop where
  balance : c + d * carries = start + added
  pos : 0 < c
  le : c ≤ d

variable {d start c carries added s n : Nat}

theorem Balanced.begin (hpos : 0 < start) (hle : start ≤ d) : Balanced d start start 0 0 where
  balance := by rw [Nat.mul_zero]
  pos := hpos
  le := hle

/-- An increment of at most the divisor is carried at once where it is due. -/
theorem Balanced.tick (h : Balanced d start c carries added) (hs : s ≤ d) :
    Balanced d start (tick d s c).1 (carries + (tick d s c).2.toNat) (added + s) := by
  have hbalance := h.balance
  have hpos := h.pos
  have hle := h.le
  unfold Bresenham.tick
  split_ifs with hcarry
  · have hcarried : d * (carries + true.toNat) = d * carries + d := by
      rw [Bool.toNat_true, Nat.mul_add, Nat.mul_one]
    constructor
    · dsimp only
      omega
    · dsimp only
      omega
    · dsimp only
      omega
  · constructor
    · simp only [Bool.toNat_false, Nat.add_zero]
      omega
    · dsimp only
      omega
    · dsimp only
      omega

/-- Once a multiple of the divisor has been added, the carries are exact and the
counter is where it began. -/
theorem Balanced.exact (h : Balanced d start c carries added) (hpos : 0 < start) (hle : start ≤ d)
    (hadded : added = n * d) : carries = n ∧ c = start := by
  have hbalance := h.balance
  have hcpos := h.pos
  have hcle := h.le
  rw [hadded, Nat.mul_comm n d] at hbalance
  obtain hless | hsame | hmore := Nat.lt_trichotomy carries n
  · have hgap : d * carries + d ≤ d * n := by
      rw [← Nat.mul_succ]
      exact Nat.mul_le_mul_left d hless
    omega
  · subst hsame
    exact ⟨rfl, by omega⟩
  · have hgap : d * n + d ≤ d * carries := by
      rw [← Nat.mul_succ]
      exact Nat.mul_le_mul_left d hmore
    omega

end Bresenham
