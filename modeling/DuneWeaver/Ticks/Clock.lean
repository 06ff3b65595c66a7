import Mathlib.Tactic.Common
import Mathlib.Algebra.Group.Nat.Defs

namespace Ticks

/-- What a 32-bit counter shows at a time: it wraps. -/
def tick (time : Nat) : UInt32 := UInt32.ofNat time

theorem tick_toNat (time : Nat) : (tick time).toNat = time % 2 ^ 32 := UInt32.toNat_ofNat'

/-- A duration added to a reading is the reading after that duration. -/
theorem tick_add (time duration : Nat) : tick time + tick duration = tick (time + duration) := by
  apply UInt32.toNat_inj.mp
  rw [UInt32.toNat_add, tick_toNat, tick_toNat, tick_toNat, ← Nat.add_mod]

/-- An unsigned difference of two readings is the time between them, up to the
wraps of the counter. -/
theorem elapsed_toNat {start now : Nat} (hafter : start ≤ now) :
    (tick now - tick start).toNat = (now - start) % 2 ^ 32 := by
  have hsum : tick (now - start) + tick start = tick now := by rw [tick_add, Nat.sub_add_cancel hafter]
  rw [← hsum, UInt32.add_sub_cancel, tick_toNat]

/-- A signed difference of two readings less than half a wrap apart is the
difference of their times, whichever comes first. -/
theorem signed_difference {first second : Nat} (hfirst : first < second + 2 ^ 31)
    (hsecond : second ≤ first + 2 ^ 31) : (tick first - tick second).toInt32.toInt = (first : Int) - second := by
  rw [UInt32.toInt32_sub, Int32.toInt_sub, tick, tick, UInt32.toInt32_ofNat', UInt32.toInt32_ofNat',
    Int32.toInt_ofNat', Int32.toInt_ofNat', show Int32.size = 2 ^ 32 from rfl, ← Int.sub_bmod]
  apply Int.bmod_eq_of_le
  · omega
  · omega

end Ticks
