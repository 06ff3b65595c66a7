import DuneWeaver.Gcode.ExpressionLoop

open Precedence

namespace DuneWeaver.Expression

open Evaluated

section Trees

@[grind =] def Expr.tree : Expr → Tree Operand BinaryOp
  | .operand a => .leaf a
  | .binary op left right => .node op left.tree right.tree

@[grind =] def Expr.ofTree : Tree Operand BinaryOp → Expr
  | .leaf a => .operand a
  | .node op left right => .binary op (ofTree left) (ofTree right)

theorem Expr.ofTree_tree : ∀ e : Expr, Expr.ofTree e.tree = e
  | .operand _ => rfl
  | .binary op left right => by rw [Expr.tree, Expr.ofTree, ofTree_tree left, ofTree_tree right]

variable {t : Tree Operand BinaryOp}

theorem atLeast_ofTree (t : Tree Operand BinaryOp) (level : Nat) :
    (Expr.ofTree t).AtLeast level ↔ t.AtLeast precedence level := by
  cases t with
  | leaf a => exact Iff.rfl
  | node op left right => exact Iff.rfl

/-- An expression is well formed when its formula is grouped and its operands and operators are. -/
theorem wellFormed_ofTree {items : List (Operand × BinaryOp)} {a : Operand} {last : BinaryOp}
    (hflat : t.flat last = items ++ [(a, last)]) :
    (Expr.ofTree t).WellFormed ↔
      t.Grouped precedence ∧ (∀ item ∈ items, item.1.WellFormed ∧ item.2.Proper) ∧ a.WellFormed := by
  induction t generalizing items a last with
  | leaf b =>
    obtain ⟨rfl, hsame⟩ := List.append_inj' (show [] ++ [(b, last)] = items ++ [(a, last)] from hflat) rfl
    obtain ⟨rfl, -⟩ := Prod.mk.inj (List.singleton_inj.mp hsame)
    rw [Expr.ofTree, Expr.WellFormed]
    exact ⟨fun h => ⟨trivial, nofun, h⟩, fun h => h.2.2⟩
  | node op left right ihl ihr =>
    obtain ⟨leftItems, b, hleft⟩ := left.exists_flat op
    obtain ⟨rightItems, c, hright⟩ := right.exists_flat last
    rw [Tree.flat, hleft, hright, ← List.append_assoc] at hflat
    obtain ⟨rfl, hsame⟩ := List.append_inj' hflat rfl
    obtain ⟨rfl, -⟩ := Prod.mk.inj (List.singleton_inj.mp hsame)
    rw [Expr.ofTree, Expr.WellFormed, ihl hleft, ihr hright, atLeast_ofTree, atLeast_ofTree, Tree.Grouped]
    simp only [List.mem_append, List.mem_singleton, or_imp, forall_and, forall_eq, BinaryOp.Proper]
    tauto

theorem eval_ofTree {V : Type} (env : Env V) (t : Tree Operand BinaryOp) :
    (Expr.ofTree t).eval env = t.eval (Operand.eval env) env.apply := by
  induction t with
  | leaf a => rw [Expr.ofTree, Expr.eval, Tree.eval]
  | node op left right ihl ihr =>
    rw [Expr.ofTree, Expr.eval, Tree.eval, ihl, ihr]
    rfl

theorem written_flat (t : Tree Operand BinaryOp) (last : BinaryOp) :
    written (t.flat last) = (Expr.ofTree t).text ++ last.text := by
  induction t generalizing last with
  | leaf a => rw [Expr.ofTree, Expr.text, Tree.flat, written, List.flatMap_singleton]
  | node op left right ihl ihr =>
    unfold written at ihl ihr ⊢
    rw [Tree.flat, List.flatMap_append, ihl, ihr, Expr.ofTree, Expr.text]
    simp only [List.append_assoc]

variable {V : Type} {env : Env V}

theorem precedence_pos (op : BinaryOp) : 1 ≤ precedence op := by
  cases op
  all_goals decide

theorem eval_of_run {e : Expr} (he : e.WellFormed) :
    run precedence (Operand.eval env) env.apply [] (e.tree.flat .RightBracket) =
      (e.eval env).map fun v => [(v, .RightBracket)] := by
  obtain ⟨items, a, hflat⟩ := e.tree.exists_flat .RightBracket
  have hgrouped := ((wellFormed_ofTree hflat).mp (by rwa [Expr.ofTree_tree])).1
  have hlowest : e.tree.AtLeast precedence (precedence .RightBracket) := by
    cases e.tree with
    | leaf a => trivial
    | node op left right => exact precedence_pos op
  have hempty : ∀ top ∈ ([] : List (V × BinaryOp)).head?, e.tree.AtLeast precedence (precedence top.2 + 1) := nofun
  rw [run_flat hgrouped hempty hlowest, ← eval_ofTree, Expr.ofTree_tree, Option.map_eq_bind]
  rfl

/-- Operands and operators that are written in a row are an expression. -/
theorem exists_expr {items : List (Operand × BinaryOp)} {a : Operand}
    (hitems : ∀ item ∈ items, item.1.WellFormed ∧ item.2.Proper) (ha : a.WellFormed) :
    ∃ e : Expr, e.WellFormed ∧ e.tree.flat .RightBracket = items ++ [(a, .RightBracket)] := by
  have hlast : ∀ item ∈ items, precedence .RightBracket ≤ precedence item.2 := fun item hitem =>
    Nat.le_of_lt (hitems item hitem).2.levels.1
  obtain ⟨t, hgrouped, -, hflat⟩ := exists_tree items a .RightBracket hlast
  refine ⟨Expr.ofTree t, (wellFormed_ofTree hflat).mpr ⟨hgrouped, hitems, ha⟩, ?_⟩
  have htree : ∀ t : Tree Operand BinaryOp, (Expr.ofTree t).tree = t := by
    intro t
    induction t with
    | leaf a => rfl
    | node op left right ihl ihr => rw [Expr.ofTree, Expr.tree, ihl, ihr]
  rw [htree, hflat]

end Trees

section Brackets

variable {V : Type} {env : Env V} {rd : Bytes → Evaluated (Option (V × Bytes))} {n : Nat} {line rest : Bytes}

def Expr.bracketed (e : Expr) : Bytes := 0x5b :: e.text ++ [0x5d]

/-- A function that reads expressions in brackets. -/
def ReadsBrackets (env : Env V) (n : Nat) (f : Bytes → Evaluated (Option (V × Bytes))) : Prop :=
  Recognizes Expr.bracketed Expr.WellFormed (Expr.eval env) (fun _ => True) n f

theorem bracketed_eq (e : Expr) (rest : Bytes) :
    e.bracketed ++ rest = 0x5b :: (written (e.tree.flat .RightBracket) ++ rest) := by
  have hbracket : BinaryOp.RightBracket.text = [0x5d] := BinaryOp.text_eq _
  rw [written_flat, Expr.ofTree_tree, hbracket]
  rfl

/-- The arrays with the first operand and the operator behind it. -/
theorem first_stores (v : V) (op : BinaryOp) : ∃ values operators,
    put (List.replicate MAX_STACK none) 0 v = .ok values ∧
      put (List.replicate MAX_STACK none) 0 op = .ok operators ∧
        Holds { values, operators, stack_index := 1 } [(v, op)] := by
  have hempty : ∀ α : Type, Cells (List.replicate MAX_STACK (none : Option α)) [] := fun α =>
    ⟨List.length_replicate, List.nil_prefix⟩
  obtain ⟨values, hput, hvalues⟩ := (hempty V).put_top (Nat.zero_lt_succ _) v
  obtain ⟨operators, hput', hoperators⟩ := (hempty BinaryOp).put_top (Nat.zero_lt_succ _) op
  exact ⟨values, operators, hput, hput', hvalues, hoperators, rfl⟩

theorem open_first {v : V} {op : BinaryOp} (hop : op.Proper) : Open [(v, op)] :=
  ⟨List.cons_ne_nil _ _, List.pairwise_singleton _ _, fun entry hentry =>
    by rw [List.mem_singleton.mp hentry]; exact hop⟩

/-- The value of an expression is in the first cell when its bracket has come. -/
theorem value_of_holds {s : Stacks V} {v : V} (h : Holds s [(v, .RightBracket)]) : cell s.values 0 = .ok v :=
  h.values.cell_bottom rfl

theorem expression_with_sound (hrd : ReadsOperands env n rd) (hline : line.length < n + 1) :
    ∃ result, (expression_with env rd line).isOk = .ok result ∧ ∀ v rest, result = some (v, rest) →
      ∃ e : Expr, e.WellFormed ∧ line = e.bracketed ++ rest ∧ e.eval env = some v := by
  unfold expression_with
  split
  case h_2 => exact ⟨none, rfl, by simp⟩
  case h_1 line =>
    rw [List.length_cons, Nat.add_lt_add_iff_right] at hline
    obtain ⟨result, hread, hsound⟩ := hrd.sound line hline
    rw [hread]
    cases result with
    | none => exact ⟨none, rfl, by simp⟩
    | some found =>
      obtain ⟨v, later⟩ := found
      rw [orError_some, ok_bind]
      dsimp only
      cases hop : read_operation later with
      | error e =>
        obtain ⟨values, operators, hput, -⟩ := first_stores v .NoOp
        exact ⟨none, by rw [hput]; rfl, by simp⟩
      | ok found =>
        obtain ⟨op, rest⟩ := found
        obtain ⟨hreal, hlater⟩ := read_operation_sound hop
        obtain ⟨a, ha, htext, heval⟩ := hsound v later rfl (hlater ▸ BinaryOp.text_delimited hreal rest)
        obtain ⟨values, operators, hput, hput', hholds⟩ := first_stores v op
        rw [hput, ok_bind, ofExcept_ok, ok_bind, hput', ok_bind]
        have hrun : ∀ items, run precedence (Operand.eval env) env.apply [] ((a, op) :: items) =
            run precedence (Operand.eval env) env.apply [(v, op)] items := by
          intro items
          rw [run, heval, Option.bind_some, Precedence.climb, Option.bind_some]
        -- the operands and operators that have been read, up to the bracket
        suffices h :
          ∃ result, (expression_loop env rd (rest.length + 1) { values, operators, stack_index := 1 } rest).isOk =
            .ok result ∧ ∀ s after, result = some (s, after) → ∃ items b w,
              (∀ item ∈ items, item.1.WellFormed ∧ item.2.Proper) ∧ b.WellFormed ∧
              line = written (items ++ [(b, .RightBracket)]) ++ after ∧
              run precedence (Operand.eval env) env.apply [] (items ++ [(b, .RightBracket)]) =
                some [(w, .RightBracket)] ∧ Holds s [(w, .RightBracket)] by
          obtain ⟨result, hloop, hresult⟩ := h
          cases hends : expression_loop env rd (rest.length + 1) { values, operators, stack_index := 1 } rest with
          | fault =>
            rw [hends] at hloop
            cases hloop
          | error e => exact ⟨none, rfl, by simp⟩
          | ok found =>
            obtain ⟨s, after⟩ := found
            rw [hends, isOk_ok, Evaluated.ok.injEq] at hloop
            obtain ⟨items, b, w, hitems, hb, hwritten, hlast, hholds'⟩ := hresult s after hloop.symm
            obtain ⟨e, he, hflat⟩ := exists_expr hitems hb
            refine ⟨some (w, after), ?_, ?_⟩
            · rw [ok_bind]
              dsimp only
              rw [value_of_holds hholds', ok_bind, isOk_ok]
            · intro v' after' hsame
              obtain ⟨rfl, rfl⟩ := Prod.mk.inj (Option.some.inj hsame)
              refine ⟨e, he, by rw [bracketed_eq, hflat, ← hwritten], ?_⟩
              have hvalue : run precedence (Operand.eval env) env.apply [] _ = _ := eval_of_run he
              rw [hflat, hlast] at hvalue
              obtain ⟨w', heval', hw'⟩ := Option.map_eq_some_iff.mp hvalue.symm
              rw [heval', (Prod.mk.inj (List.singleton_inj.mp hw')).1]
        by_cases hend : op = .RightBracket
        · subst hend
          refine ⟨some ({ values, operators, stack_index := 1 }, rest), by rw [expression_loop_end hholds, isOk_ok], ?_⟩
          intro s after hsame
          obtain ⟨rfl, rfl⟩ := Prod.mk.inj (Option.some.inj hsame)
          refine ⟨[], a, v, by simp, ha, ?_, by rw [List.nil_append, hrun]; rfl, hholds⟩
          rw [htext, hlater, written, List.nil_append, List.flatMap_singleton, List.append_assoc]
        · have hproper : op.Proper := ⟨hreal, hend⟩
          have hshort : rest.length < n := by
            rw [htext, hlater] at hline
            simp only [List.length_append] at hline
            omega
          obtain ⟨result, hloop, hresult⟩ :=
            expression_loop_sound hrd hholds (open_first hproper) (Nat.lt_succ_self _) hshort
          refine ⟨result, hloop, fun s after hsame => ?_⟩
          obtain ⟨items, b, w, hitems, hb, hafter, hlast, hends⟩ := hresult s after hsame
          refine ⟨(a, op) :: items, b, w, ?_, hb, ?_, by rw [List.cons_append, hrun]; exact hlast, hends⟩
          · intro item hitem
            rcases List.mem_cons.mp hitem with rfl | hin
            · exact ⟨ha, hproper⟩
            · exact hitems item hin
          · rw [htext, hlater, hafter, written, written, List.cons_append, List.flatMap_cons]
            simp only [List.append_assoc]

theorem expression_with_complete (hrd : ReadsOperands env n rd) {e : Expr} (he : e.WellFormed)
    (hline : (e.bracketed ++ rest).length < n + 1) :
    (expression_with env rd (e.bracketed ++ rest)).isOk = .ok ((e.eval env).map fun v => (v, rest)) := by
  obtain ⟨items, b, hflat⟩ := e.tree.exists_flat .RightBracket
  obtain ⟨-, hitems, hb⟩ := (wellFormed_ofTree hflat).mp (by rwa [Expr.ofTree_tree])
  have hvalue : run precedence (Operand.eval env) env.apply [] _ = _ := eval_of_run he
  rw [bracketed_eq, List.length_cons, Nat.add_lt_add_iff_right] at hline
  rw [bracketed_eq, expression_with]
  rw [hflat] at hline hvalue ⊢
  -- the first operand and the operator behind it
  obtain ⟨a, op, later, ha, hop, htimes, hsplit, hlater⟩ : ∃ a op later, Operand.WellFormed a ∧ op ≠ .NoOp ∧
      (op = .Times → later.head? ≠ some 0x2a) ∧
      written (items ++ [(b, .RightBracket)]) ++ rest = a.text ++ (op.text ++ later) ∧
      ((op = .RightBracket ∧ items = [] ∧ a = b ∧ later = rest) ∨
        ∃ items', items = (a, op) :: items' ∧ later = written (items' ++ [(b, .RightBracket)]) ++ rest) := by
    cases items with
    | nil =>
      refine ⟨b, .RightBracket, rest, hb, nofun, nofun, ?_, .inl ⟨rfl, rfl, rfl, rfl⟩⟩
      simp only [written, List.nil_append, List.flatMap_singleton, List.append_assoc]
    | cons item items =>
      obtain ⟨ha, hproper⟩ := hitems item List.mem_cons_self
      refine ⟨item.1, item.2, _, ha, hproper.1, fun _ => ?_, ?_, .inr ⟨items, rfl, rfl⟩⟩
      · exact written_head (fun item hin => hitems item (List.mem_cons_of_mem _ hin)) hb rest
      · rw [written, List.cons_append, List.flatMap_cons]
        simp only [written, List.append_assoc]
  rw [hsplit] at hline ⊢
  have hread := hrd.complete a (op.text ++ later) ha (BinaryOp.text_delimited hop later) hline
  cases heval : a.eval env with
  | none =>
    have hnone : e.eval env = none := by
      have hrun : run precedence (Operand.eval env) env.apply [] (items ++ [(b, .RightBracket)]) = none := by
        rcases hlater with ⟨-, rfl, rfl, -⟩ | ⟨items', rfl, -⟩
        · rw [List.nil_append, run, heval, Option.bind_none]
        · rw [List.cons_append, run, heval, Option.bind_none]
      rw [hrun] at hvalue
      exact Option.map_eq_none_iff.mp hvalue.symm
    rw [heval, Option.map_none] at hread
    rw [hread, orError_none, error_bind, isOk_error, hnone, Option.map_none]
  | some v =>
    rw [heval, Option.map_some] at hread
    obtain ⟨values, operators, hput, hput', hholds⟩ := first_stores v op
    rw [hread, orError_some, ok_bind]
    dsimp only
    rw [hput, ok_bind, read_operation_text hop htimes, ofExcept_ok, ok_bind]
    dsimp only
    rw [hput', ok_bind]
    rcases hlater with ⟨rfl, rfl, rfl, rfl⟩ | ⟨items', rfl, rfl⟩
    · rw [List.nil_append, run, heval, Option.bind_some, Precedence.climb, Option.bind_some, run] at hvalue
      obtain ⟨w, hw, hsame⟩ := Option.map_eq_some_iff.mp hvalue.symm
      obtain ⟨rfl, -⟩ := Prod.mk.inj (List.singleton_inj.mp hsame)
      rw [expression_loop_end hholds, ok_bind]
      dsimp only
      rw [value_of_holds hholds, ok_bind, isOk_ok, hw, Option.map_some]
    · obtain ⟨-, hproper⟩ := hitems (a, op) List.mem_cons_self
      have hshort : (written (items' ++ [(b, .RightBracket)]) ++ rest).length < n := by
        rw [List.length_append, List.length_append] at hline
        omega
      have hloop := expression_loop_complete hrd hholds (open_first hproper)
        (fun item hin => hitems item (List.mem_cons_of_mem _ hin)) hb (Nat.lt_succ_self _) hshort
      rw [List.cons_append, run, heval, Option.bind_some, Precedence.climb, Option.bind_some] at hvalue
      rw [hvalue] at hloop
      cases hw : e.eval env with
      | none =>
        rw [hw] at hloop
        obtain ⟨err, herr⟩ := hloop
        rw [herr, error_bind, isOk_error, Option.map_none]
      | some w =>
        rw [hw] at hloop
        obtain ⟨s', hholds', heq⟩ := hloop
        rw [heq, ok_bind]
        dsimp only
        rw [value_of_holds hholds', ok_bind, isOk_ok, Option.map_some]

/-- A function that reads operands makes one that reads expressions in brackets. -/
theorem expression_with_recognizes (hrd : ReadsOperands env n rd) :
    ReadsBrackets env (n + 1) fun line => (expression_with env rd line).isOk where
  sound line hline := by
    obtain ⟨result, hresult, hsound⟩ := expression_with_sound hrd hline
    exact ⟨result, hresult, fun v rest hsame _ => hsound v rest hsame⟩
  complete e rest he _ hline := expression_with_complete hrd he hline

end Brackets

end DuneWeaver.Expression
