import Mathlib.Data.List.Basic
import Mathlib.Tactic.Common

namespace DuneWeaver.Blocks

variable {α : Type*}

/-- How a copy in blocks goes: what reading at a position gives at most, and how
much of the block that was read there the target keeps. -/
structure Device where
  read : Nat → Nat
  keep : Nat → Nat

/-- How many elements are read at `pos`, where `left` are left. -/
def Device.len (d : Device) (size pos left : Nat) : Nat := min (min size (d.read pos)) left

/-- What a target holds of a source that is copied in blocks of at most `size`
until a read gives nothing. `rest` is what is left of the source at `pos`. -/
def copied (size : Nat) (d : Device) (pos : Nat) (rest : List α) : List α :=
  let len := d.len size pos rest.length
  if len > 0 then
    (rest.take len).take (d.keep pos) ++ copied size d (pos + len) (rest.drop len)
  else []
termination_by rest.length
decreasing_by
  have hle : d.len size pos rest.length ≤ rest.length := Nat.min_le_right _ _
  rw [List.length_drop]
  omega

/-- No read gives nothing before the end of the source, and the target keeps every
block whole. -/
inductive Faultless (size : Nat) (d : Device) : Nat → List α → Prop
  | done (pos : Nat) : Faultless size d pos []
  | block {pos : Nat} {rest : List α} (hread : 0 < d.len size pos rest.length)
      (hkeep : d.len size pos rest.length ≤ d.keep pos)
      (hrest : Faultless size d (pos + d.len size pos rest.length) (rest.drop (d.len size pos rest.length))) :
      Faultless size d pos rest

variable {size : Nat} {d : Device} {pos : Nat} {rest : List α}

theorem length_copied_le (size : Nat) (d : Device) (pos : Nat) (rest : List α) :
    (copied size d pos rest).length ≤ rest.length := by
  fun_induction copied size d pos rest with
  | case1 pos rest len hlen ih =>
    have hle : len ≤ rest.length := Nat.min_le_right _ _
    simp only [List.length_append, List.length_take, List.length_drop] at ih ⊢
    omega
  | case2 => exact Nat.zero_le _

theorem Faultless.copied_eq (h : Faultless size d pos rest) : copied size d pos rest = rest := by
  induction h with
  | done pos =>
    unfold copied
    exact if_neg (by simp [Device.len])
  | @block pos rest hread hkeep hrest ih =>
    unfold copied
    have hwhole : (rest.take (d.len size pos rest.length)).length ≤ d.keep pos :=
      Nat.le_trans (List.length_take_le _ _) hkeep
    rw [if_pos hread, ih, List.take_of_length_le hwhole, List.take_append_drop]

/-- A copy is complete precisely when nothing goes wrong on the way: what one
block lacks, no later block makes up for. -/
theorem copied_eq_iff (size : Nat) (d : Device) (pos : Nat) (rest : List α) :
    copied size d pos rest = rest ↔ Faultless size d pos rest := by
  refine ⟨?_, Faultless.copied_eq⟩
  fun_induction copied size d pos rest with
  | case1 pos rest len hlen ih =>
    intro heq
    have hle : len ≤ rest.length := Nat.min_le_right _ _
    have hlater := length_copied_le size d (pos + len) (rest.drop len)
    have htotal := congrArg List.length heq
    simp only [List.length_append, List.length_take, List.length_drop] at htotal hlater
    have hkeep : len ≤ d.keep pos := by omega
    have hwhole : (rest.take len).length ≤ d.keep pos := Nat.le_trans (List.length_take_le _ _) hkeep
    rw [List.take_of_length_le hwhole] at heq
    have hsplit : rest.take len ++ copied size d (pos + len) (rest.drop len) = rest.take len ++ rest.drop len :=
      heq.trans (List.take_append_drop len rest).symm
    exact .block hlen hkeep (ih (List.append_cancel_left hsplit))
  | case2 pos rest =>
    intro heq
    rw [← heq]
    exact .done pos

end DuneWeaver.Blocks
