import Mathlib.Data.List.Induction
import Mathlib.Tactic.Common

namespace Precedence

section Trees

/-- A formula of binary operators, with its grouping. -/
inductive Tree (Operand Op : Type*) where
  | leaf (a : Operand)
  | node (op : Op) (left right : Tree Operand Op)

variable {Operand Op V : Type*} (prec : Op → Nat)

namespace Tree

/-- The operator at the top, where there is one, binds at least as tightly as `level`. -/
def AtLeast (level : Nat) : Tree Operand Op → Prop
  | leaf _ => True
  | node op _ _ => level ≤ prec op

/-- The tighter operators are below the looser ones, and equal ones are grouped from the left. -/
def Grouped : Tree Operand Op → Prop
  | leaf _ => True
  | node op left right =>
    left.AtLeast prec (prec op) ∧ right.AtLeast prec (prec op + 1) ∧ left.Grouped ∧ right.Grouped

/-- The operands in their order, each with the operator behind it. -/
def flat : Tree Operand Op → Op → List (Operand × Op)
  | leaf a, last => [(a, last)]
  | node op left right, last => left.flat op ++ right.flat last

/-- The value of a formula, the left operand first. -/
def eval (value : Operand → Option V) (apply : Op → V → V → Option V) : Tree Operand Op → Option V
  | leaf a => value a
  | node op left right => (left.eval value apply).bind fun x => (right.eval value apply).bind fun y => apply op x y

variable {prec} {t : Tree Operand Op} {level level' : Nat}

theorem AtLeast.mono (h : t.AtLeast prec level) (hle : level' ≤ level) : t.AtLeast prec level' := by
  cases t with
  | leaf a => trivial
  | node op left right => exact Nat.le_trans hle h

/-- The last operator is the one behind the formula. -/
theorem exists_flat (t : Tree Operand Op) (last : Op) : ∃ items a, t.flat last = items ++ [(a, last)] := by
  induction t generalizing last with
  | leaf a => exact ⟨[], a, rfl⟩
  | node op left right _ ih =>
    obtain ⟨items, a, hflat⟩ := ih last
    exact ⟨left.flat op ++ items, a, by rw [flat, hflat, List.append_assoc]⟩

end Tree

section Exists

variable {prec}

/-- A stack of formulas, the latest one first, each with the operator behind it. The operators get looser
towards the bottom, and together the formulas are the operands that have come. -/
inductive Built (prec : Op → Nat) : List (Tree Operand Op × Op) → List (Operand × Op) → Prop where
  | nil : Built prec [] []
  | cons {stack : List (Tree Operand Op × Op)} {items : List (Operand × Op)} {t : Tree Operand Op} {op : Op}
      (h : Built prec stack items) (hgrouped : t.Grouped prec) (hop : t.AtLeast prec (prec op))
      (htop : ∀ top ∈ stack.head?, prec top.2 < prec op ∧ t.AtLeast prec (prec top.2 + 1)) :
      Built prec ((t, op) :: stack) (items ++ t.flat op)

variable {stack : List (Tree Operand Op × Op)} {items : List (Operand × Op)} {t : Tree Operand Op} {op : Op}

theorem Built.mem (h : Built prec stack items) : ∀ entry ∈ stack, ∃ item ∈ items, item.2 = entry.2 := by
  induction h with
  | nil => nofun
  | @cons stack items t op _ _ _ _ ih =>
    intro entry hentry
    rcases List.mem_cons.mp hentry with rfl | hbelow
    · obtain ⟨before, a, hflat⟩ := t.exists_flat op
      exact ⟨(a, op), by rw [hflat]; simp, rfl⟩
    · obtain ⟨item, hitem, hsame⟩ := ih entry hbelow
      exact ⟨item, List.mem_append_left _ hitem, hsame⟩

/-- One more operand, with the formulas that bind at least as tightly as the operator behind it. -/
theorem Built.push (h : Built prec stack items) (hgrouped : t.Grouped prec) (hop : t.AtLeast prec (prec op))
    (htop : ∀ top ∈ stack.head?, t.AtLeast prec (prec top.2 + 1)) :
    ∃ t' below, Built prec ((t', op) :: below) (items ++ t.flat op) := by
  induction h generalizing t with
  | nil => exact ⟨t, [], .cons .nil hgrouped hop nofun⟩
  | @cons below items x prev hbelow hx hprev hbelowTop ih =>
    have htight : t.AtLeast prec (prec prev + 1) := htop _ rfl
    by_cases hreduce : prec op ≤ prec prev
    · obtain ⟨t', below', hbuilt⟩ := ih (t := .node prev x t) ⟨hprev, htight, hx, hgrouped⟩ hreduce
        fun top hmem => (hbelowTop top hmem).1
      exact ⟨t', below', by rwa [Tree.flat, ← List.append_assoc] at hbuilt⟩
    · refine ⟨t, (x, prev) :: below, .cons (.cons hbelow hx hprev hbelowTop) hgrouped hop ?_⟩
      intro top htop'
      obtain rfl : (x, prev) = top := Option.some.inj htop'
      exact ⟨Nat.lt_of_not_le hreduce, htight⟩

/-- The operands are those of a grouped formula, where nothing binds more loosely than what is behind them. -/
theorem exists_tree (items : List (Operand × Op)) (a : Operand) (last : Op)
    (hlast : ∀ item ∈ items, prec last ≤ prec item.2) :
    ∃ t : Tree Operand Op, t.Grouped prec ∧ t.AtLeast prec (prec last) ∧ t.flat last = items ++ [(a, last)] := by
  have hbuild : ∀ items : List (Operand × Op), ∃ stack : List (Tree Operand Op × Op), Built prec stack items := by
    intro items
    induction items using List.reverseRecOn with
    | nil => exact ⟨[], .nil⟩
    | append_singleton items item ih =>
      obtain ⟨stack, hstack⟩ := ih
      obtain ⟨t, below, hbuilt⟩ := hstack.push (t := .leaf item.1) trivial trivial fun _ _ => trivial
      exact ⟨_, hbuilt⟩
  obtain ⟨stack, hstack⟩ := hbuild items
  obtain ⟨t, below, hbuilt⟩ := hstack.push (t := .leaf a) trivial trivial fun _ _ => trivial
  generalize hall : items ++ Tree.flat (.leaf a) last = all at hbuilt
  cases hbuilt with
  | @cons _ before _ _ hbelow hgrouped hop htop =>
    have hempty : below = [] := by
      cases below with
      | nil => rfl
      | cons top below =>
        obtain ⟨item, hitem, hsame⟩ := hbelow.mem top List.mem_cons_self
        have hloose := (htop top rfl).1
        have hmem : item ∈ items ++ Tree.flat (.leaf a) last := by
          rw [hall]
          exact List.mem_append_left _ hitem
        rw [← hsame] at hloose
        rcases List.mem_append.mp hmem with hin | hin
        · exact absurd hloose (Nat.not_lt_of_le (hlast item hin))
        · rw [Tree.flat, List.mem_singleton] at hin
          rw [hin] at hloose
          exact absurd hloose (Nat.lt_irrefl _)
    subst hempty
    cases hbelow with
    | nil => exact ⟨t, hgrouped, hop, hall.symm⟩

end Exists

end Trees

section Climb

variable {Operand Op V : Type*} (prec : Op → Nat) (value : Operand → Option V) (apply : Op → V → V → Option V)

/-- An operator comes behind a value: what binds at least as tightly is applied first, and then the value waits
for its right operand on the stack. -/
def climb : List (V × Op) → V → Op → Option (List (V × Op))
  | [], v, op => some [(v, op)]
  | (x, prev) :: stack, v, op =>
    if prec op ≤ prec prev then (apply prev x v).bind fun v => climb stack v op
    else some ((v, op) :: (x, prev) :: stack)

/-- The operands come one after the other. -/
def run : List (V × Op) → List (Operand × Op) → Option (List (V × Op))
  | stack, [] => some stack
  | stack, (a, op) :: items =>
    (value a).bind fun v => (climb prec apply stack v op).bind fun stack => run stack items

variable {prec value apply} {stack stack' : List (V × Op)} {v : V} {op : Op}

theorem run_append (stack : List (V × Op)) (before after : List (Operand × Op)) :
    run prec value apply stack (before ++ after) =
      (run prec value apply stack before).bind fun stack => run prec value apply stack after := by
  induction before generalizing stack with
  | nil => rfl
  | cons item before ih =>
    obtain ⟨a, op⟩ := item
    simp only [List.cons_append, run, ih, Option.bind_assoc]

/-- An operator that binds more tightly than the one on the stack goes there at once. -/
theorem climb_tighter (h : ∀ top ∈ stack.head?, prec top.2 < prec op) :
    climb prec apply stack v op = some ((v, op) :: stack) := by
  cases stack with
  | nil => rfl
  | cons top stack =>
    have htop := h top rfl
    rw [climb, if_neg (by omega)]

/-- A grouped formula comes to its value, as if that value alone had come. -/
theorem run_flat {t : Tree Operand Op} (hgrouped : t.Grouped prec) {stack : List (V × Op)} {last : Op}
    (htop : ∀ top ∈ stack.head?, t.AtLeast prec (prec top.2 + 1)) (hlast : t.AtLeast prec (prec last)) :
    run prec value apply stack (t.flat last) =
      (t.eval value apply).bind fun v => climb prec apply stack v last := by
  induction t generalizing stack last with
  | leaf a =>
    have hone : ∀ v, ((climb prec apply stack v last).bind fun stack => some stack) = climb prec apply stack v last :=
      fun v => Option.bind_fun_some _
    simp only [Tree.flat, Tree.eval, run, hone]
  | node op left right ihl ihr =>
    obtain ⟨hleft, hright, hgleft, hgright⟩ := hgrouped
    have hfirst := ihl hgleft (fun top hmem => hleft.mono (htop top hmem)) hleft
    have hwait : ∀ x, climb prec apply stack x op = some ((x, op) :: stack) := fun x =>
      climb_tighter fun top hmem => htop top hmem
    have hsecond : ∀ x, run prec value apply ((x, op) :: stack) (right.flat last) =
        (right.eval value apply).bind fun y => (apply op x y).bind fun v => climb prec apply stack v last := by
      intro x
      rw [ihr hgright (fun top hmem => by rw [← Option.some.inj hmem]; exact hright)
        (hright.mono (Nat.le_succ_of_le hlast))]
      have happly : ∀ y, climb prec apply ((x, op) :: stack) y last =
          (apply op x y).bind fun v => climb prec apply stack v last := fun y => if_pos hlast
      simp only [happly]
    rw [Tree.flat, run_append, hfirst, Tree.eval]
    simp only [Option.bind_assoc, hwait, Option.bind_some, hsecond]

/-- What is left of the stack is below the latest operator. -/
theorem climb_eq_cons (h : climb prec apply stack v op = some stack') :
    ∃ v' below, stack' = (v', op) :: below ∧ below <:+ stack := by
  induction stack generalizing v with
  | nil =>
    rw [climb, Option.some.injEq] at h
    exact ⟨v, [], h.symm, List.suffix_rfl⟩
  | cons top stack ih =>
    obtain ⟨x, prev⟩ := top
    rw [climb] at h
    split_ifs at h with hreduce
    · obtain ⟨w, -, hrest⟩ := Option.bind_eq_some_iff.mp h
      obtain ⟨v', below, hstack, hbelow⟩ := ih hrest
      exact ⟨v', below, hstack, hbelow.trans (List.suffix_cons _ _)⟩
    · exact ⟨v, (x, prev) :: stack, (Option.some.inj h).symm, List.suffix_rfl⟩

/-- An operator that binds no more tightly than any on the stack is left there alone. -/
theorem climb_looser (hall : ∀ entry ∈ stack, prec op ≤ prec entry.2) (h : climb prec apply stack v op = some stack') :
    ∃ v', stack' = [(v', op)] := by
  induction stack generalizing v with
  | nil =>
    rw [climb, Option.some.injEq] at h
    exact ⟨v, h.symm⟩
  | cons top stack ih =>
    obtain ⟨x, prev⟩ := top
    rw [climb, if_pos (hall (x, prev) List.mem_cons_self)] at h
    obtain ⟨w, -, hrest⟩ := Option.bind_eq_some_iff.mp h
    exact ih (fun entry hentry => hall entry (List.mem_cons_of_mem _ hentry)) hrest

/-- The operators on the stack bind more and more tightly. -/
def Ascending (prec : Op → Nat) (stack : List (V × Op)) : Prop :=
    stack.Pairwise fun top below => prec below.2 < prec top.2

theorem climb_ascending (hstack : Ascending prec stack) (h : climb prec apply stack v op = some stack') :
    Ascending prec stack' := by
  induction stack generalizing v with
  | nil =>
    rw [climb, Option.some.injEq] at h
    rw [← h]
    exact List.pairwise_singleton _ _
  | cons top stack ih =>
    obtain ⟨x, prev⟩ := top
    obtain ⟨htop, hbelow⟩ := List.pairwise_cons.mp hstack
    rw [climb] at h
    split_ifs at h with hreduce
    · obtain ⟨w, -, hrest⟩ := Option.bind_eq_some_iff.mp h
      exact ih hbelow hrest
    · rw [← Option.some.inj h]
      refine List.pairwise_cons.mpr ⟨fun entry hentry => ?_, hstack⟩
      rcases List.mem_cons.mp hentry with rfl | hin
      · exact Nat.lt_of_not_le hreduce
      · exact Nat.lt_trans (htop entry hin) (Nat.lt_of_not_le hreduce)

/-- The stack has no more entries than there are levels. -/
theorem Ascending.length_le (h : Ascending prec stack) {low high : Nat}
    (hlevels : ∀ entry ∈ stack, low < prec entry.2 ∧ prec entry.2 ≤ high) : stack.length ≤ high - low := by
  induction stack generalizing high with
  | nil => exact Nat.zero_le _
  | cons top stack ih =>
    obtain ⟨htop, hbelow⟩ := List.pairwise_cons.mp h
    obtain ⟨hlow, hhigh⟩ := hlevels top List.mem_cons_self
    have hrest : stack.length ≤ prec top.2 - 1 - low := by
      refine ih hbelow fun entry hentry => ?_
      have := htop entry hentry
      have := (hlevels entry (List.mem_cons_of_mem _ hentry)).1
      omega
    rw [List.length_cons]
    omega

end Climb

end Precedence
