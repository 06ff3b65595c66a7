import Mathlib.Tactic.Common
import Mathlib.Data.List.Basic

namespace Leases

variable {α : Type*} (holds : α → Bool)

/-- How many of the live objects hold the resource. Objects are known by their
place in the list, where a dead one leaves a hole. -/
def holders (objects : List (Option α)) : Nat := objects.countP fun object => object.any holds

@[simp] theorem holders_nil : holders holds [] = 0 := rfl

theorem holders_concat (objects : List (Option α)) (object : α) :
    holders holds (objects ++ [some object]) = holders holds objects + (holds object).toNat := by
  unfold holders
  rw [List.countP_append]
  cases h : holds object <;> simp [h]

/-- What putting something else in an object's place does to the count. -/
theorem holders_set {objects : List (Option α)} {i : Nat} {object : α}
    (hlive : objects[i]? = some (some object)) (new : Option α) :
    holders holds (objects.set i new) + (holds object).toNat =
      holders holds objects + (new.any holds).toNat := by
  obtain ⟨hi, hget⟩ := List.getElem?_eq_some_iff.mp hlive
  have hle : (if objects[i].any holds then 1 else 0) ≤ holders holds objects := by
    split_ifs with h
    · exact List.countP_pos_iff.mpr ⟨objects[i], List.getElem_mem hi, h⟩
    · exact Nat.zero_le _
  unfold holders at hle ⊢
  rw [List.countP_set hi]
  rw [hget] at hle ⊢
  cases hold : holds object <;> cases hnew : new.any holds <;> simp_all

/-- An object that holds the resource is counted. -/
theorem holders_pos {objects : List (Option α)} {i : Nat} {object : α}
    (hlive : objects[i]? = some (some object)) (hholds : holds object = true) :
    0 < holders holds objects :=
  List.countP_pos_iff.mpr ⟨some object, List.mem_of_getElem? hlive, by simpa using hholds⟩

end Leases
