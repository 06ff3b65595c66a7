import Mathlib.Data.List.Basic

namespace Outline

variable {α : Type*}

/-- Trees of labels, sibling after sibling. The children of a node stand
`step + 1` columns to the right of it. -/
inductive Forest (α : Type*) where
  | nil
  | node (label : α) (step : Nat) (children : Forest α) (rest : Forest α)

namespace Forest

/-- How many labels there are. -/
def size : Forest α → Nat
  | nil => 0
  | node _ _ children rest => children.size + rest.size + 1

/-- The labels line by line, each with the column it begins in. -/
def lines (indent : Nat) : Forest α → List (Nat × α)
  | nil => []
  | node label step children rest =>
    (indent, label) :: children.lines (indent + step + 1) ++ rest.lines indent

@[simp] theorem length_lines (tree : Forest α) (indent : Nat) : (tree.lines indent).length = tree.size := by
  induction tree generalizing indent with
  | nil => rfl
  | node label step children rest ihChildren ihRest =>
    simp only [lines, size, List.length_append, List.length_cons, ihChildren, ihRest]
    omega

theorem le_of_mem_lines {tree : Forest α} {indent : Nat} {line : Nat × α} (hmem : line ∈ tree.lines indent) :
    indent ≤ line.1 := by
  induction tree generalizing indent with
  | nil => cases hmem
  | node label step children rest ihChildren ihRest =>
    simp only [lines, List.mem_append, List.mem_cons] at hmem
    rcases hmem with (rfl | hchild) | hrest
    · exact Nat.le_refl _
    · have hle := ihChildren hchild
      omega
    · exact ihRest hrest

end Forest

/-- The next line, if there is one, begins left of a column. -/
def Below (column : Nat) (lines : List (Nat × α)) : Prop := ∀ line, lines.head? = some line → line.1 < column

/-- What follows a node's children begins left of them. -/
theorem below_rest (tree : Forest α) {indent : Nat} (step : Nat) {after : List (Nat × α)}
    (hafter : Below indent after) :
    Below (indent + step + 1) (tree.lines indent ++ after) := by
  intro line hhead
  cases tree with
  | nil =>
    have hlt := hafter line hhead
    omega
  | node label step' children rest =>
    simp only [Forest.lines, List.cons_append, List.head?_cons, Option.some.injEq] at hhead
    rw [← hhead]
    show indent < indent + step + 1
    omega

end Outline
