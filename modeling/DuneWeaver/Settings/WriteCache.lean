import Mathlib.Tactic.Common

/-- A value with a default, kept in memory beside a cell of a store that is empty when
the value is the default. `stored` is what the owner believes the cell to hold; it
is consulted to save writes. The store keeps values of `α` for those of `β`. -/
structure WriteCache (α β : Type*) where
  current : β
  stored : β
  cell : Option α

namespace WriteCache

variable {α β : Type*} {encode : β → α} {default : β} {s : WriteCache α β}

/-- A reload would not change the value. -/
def Agrees (encode : β → α) (default : β) (s : WriteCache α β) : Prop :=
  s.cell.getD (encode default) = encode s.current

/-- What is believed of a cell that is there is true. -/
def Honest (encode : β → α) (s : WriteCache α β) : Prop := ∀ v ∈ s.cell, v = encode s.stored

variable [DecidableEq β]

/-- Go back to the default, with an erase if the cell is believed to hold anything
else. -/
def restore (default : β) (s : WriteCache α β) : WriteCache α β :=
  { s with current := default, cell := if s.stored ≠ default then none else s.cell }

/-- Take on a value and bring the cell in line, if it is believed to be out of line.
`erased` is what becomes of the belief when the cell is erased. -/
def assign (encode : β → α) (default : β) (erased : β → β) (value : β) (s : WriteCache α β) : WriteCache α β :=
  if s.stored ≠ value then
    if value = default then { current := value, stored := erased s.stored, cell := none }
    else { current := value, stored := value, cell := some (encode value) }
  else { s with current := value }

theorem Honest.restore (h : s.Honest encode) : (s.restore default).Honest encode := by
  intro v hv
  unfold WriteCache.restore at hv ⊢
  dsimp only at hv ⊢
  split_ifs at hv
  · cases hv
  · exact h v hv

theorem Honest.assign {erased : β → β} (h : s.Honest encode) (value : β) :
    (s.assign encode default erased value).Honest encode := by
  intro v hv
  unfold WriteCache.assign at hv ⊢
  split_ifs at hv ⊢
  · cases hv
  · exact (Option.some.inj hv).symm
  · exact h v hv

/-- The default is always restored. -/
theorem Honest.restore_agrees (h : s.Honest encode) : (s.restore default).Agrees encode default := by
  unfold WriteCache.restore Agrees
  dsimp only
  split_ifs with hstored
  · rfl
  · cases hcell : s.cell with
    | none => rfl
    | some v =>
      have hbelieved := h v hcell
      rwa [not_not.mp hstored] at hbelieved

/-- So it is for an owner whose cache and default are those. -/
theorem Honest.restored_agrees {after : WriteCache α β} {still : β} (h : s.Honest encode)
    (hafter : after = s.restore default ∧ still = default) : after.Agrees encode still := by
  rw [hafter.1, hafter.2]
  exact h.restore_agrees

/-- An assigned value survives a reload, unless the write is saved because of what is
believed of a cell that is empty: then only the value that is current anyway does. -/
theorem Agrees.assign_iff {erased : β → β} (h : s.Agrees encode default) (value : β) :
    (s.assign encode default erased value).Agrees encode default ↔
      ¬ (s.stored = value ∧ encode s.current ≠ encode value) := by
  unfold WriteCache.assign Agrees at *
  split_ifs with hstored hdefault
  · subst hdefault
    exact iff_of_true rfl fun hstale => hstored hstale.1
  · exact iff_of_true rfl fun hstale => hstored hstale.1
  · have hcached := not_not.mp hstored
    dsimp only
    rw [h]
    constructor
    · rintro hsame ⟨_, hother⟩
      exact hother hsame
    · intro hgood
      by_contra hother
      exact hgood ⟨hcached, hother⟩

theorem Agrees.assigned_iff {erased : β → β} {after : WriteCache α β} {value still : β} (h : s.Agrees encode default)
    (hafter : after = s.assign encode default erased value ∧ still = default) :
    after.Agrees encode still ↔ ¬ (s.stored = value ∧ encode s.current ≠ encode value) := by
  rw [hafter.1, hafter.2]
  exact h.assign_iff value

end WriteCache
