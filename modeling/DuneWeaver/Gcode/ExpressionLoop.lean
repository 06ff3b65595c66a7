import DuneWeaver.Gcode.Expression
import DuneWeaver.Precedence.Climb
import DuneWeaver.Gcode.Operations

open Precedence

namespace DuneWeaver.Expression

section Stacks

open Evaluated

section Cells

variable {α : Type} {cells cells' : List (Option α)} {xs : List α} {x a : α}

/-- An array holds a stack from its bottom on; the latest entry is the first one of the list. -/
structure Cells (cells : List (Option α)) (xs : List α) : Prop where
  size : cells.length = MAX_STACK
  stored : xs.reverse.map some <+: cells

theorem Cells.below (h : Cells cells (x :: xs)) : Cells cells xs := by
  refine ⟨h.size, List.IsPrefix.trans ?_ h.stored⟩
  rw [List.reverse_cons, List.map_append]
  exact List.prefix_append _ _

theorem Cells.length_le (h : Cells cells xs) : xs.length ≤ MAX_STACK := by
  have := h.stored.length_le
  rwa [List.length_map, List.length_reverse, h.size] at this

theorem Cells.getElem? {i : Nat} (h : Cells cells xs) (hi : i < xs.length) :
    cells[i]? = some (some (xs.reverse.get ⟨i, by rwa [List.length_reverse]⟩)) := by
  have hlength : i < (xs.reverse.map some).length := by rwa [List.length_map, List.length_reverse]
  obtain ⟨junk, hcells⟩ := h.stored
  rw [← hcells, List.getElem?_append_left hlength, List.getElem?_map,
    List.getElem?_eq_getElem (by rwa [List.length_reverse]),
    Option.map_some]
  rfl

theorem Cells.cell_top (h : Cells cells (x :: xs)) : cell cells xs.length = .ok x := by
  have htop : cells[xs.length]? = some (some x) := by
    rw [h.getElem? (by simp)]
    simp
  rw [cell, htop]

theorem Cells.cell_bottom (h : Cells cells xs) {bottom : α} (hbottom : xs.getLast? = some bottom) :
    cell cells 0 = .ok bottom := by
  obtain ⟨above, rfl⟩ := List.getLast?_eq_some_iff.mp hbottom
  have hfirst : cells[0]? = some (some bottom) := by
    rw [h.getElem? (by simp)]
    simp
  rw [cell, hfirst]

theorem Cells.put_top (h : Cells cells xs) (hroom : xs.length < MAX_STACK) (a : α) :
    ∃ cells', put cells xs.length a = .ok cells' ∧ Cells cells' (a :: xs) := by
  refine ⟨cells.set xs.length (some a), by rw [put, if_pos (by rwa [h.size])], by rw [List.length_set, h.size], ?_⟩
  obtain ⟨junk, hcells⟩ := h.stored
  have hlength : (xs.reverse.map some).length = xs.length := by rw [List.length_map, List.length_reverse]
  cases junk with
  | nil =>
    rw [List.append_nil] at hcells
    rw [← hlength, hcells, h.size] at hroom
    exact absurd hroom (Nat.lt_irrefl _)
  | cons old junk =>
    rw [← hcells, List.set_append_right _ _ (Nat.le_of_eq hlength), hlength, Nat.sub_self, List.set_cons_zero,
      List.reverse_cons, List.map_append]
    exact ⟨junk, by rw [List.append_assoc]; rfl⟩

end Cells

section Climb

variable {V : Type} {env : Env V} {s : Stacks V} {stack : List (V × BinaryOp)} {v : V} {op : BinaryOp}

/-- The operations where they succeed. -/
def Env.apply (env : Env V) (op : BinaryOp) (x y : V) : Option V := (env.execute_binary op x y).toOption

/-- The two arrays hold a stack. -/
structure Holds (s : Stacks V) (stack : List (V × BinaryOp)) : Prop where
  values : Cells s.values (stack.map Prod.fst)
  operators : Cells s.operators (stack.map Prod.snd)
  stack_index : s.stack_index = stack.length

/-- The inner loop applies what binds at least as tightly as the latest operator. -/
theorem reduce_eq (env : Env V) {values : List (Option V)} {operators : List (Option BinaryOp)} {x : V}
    {prev : BinaryOp} {turns : Nat}
    (hturns : stack.length < turns) (hvalues : Cells values (v :: x :: stack.map Prod.fst))
    (hoperators : Cells operators (op :: prev :: stack.map Prod.snd)) (hreduce : precedence op ≤ precedence prev) :
    match climb precedence env.apply ((x, prev) :: stack) v op with
    | some stack' =>
      ∃ s', reduce env turns { values, operators, stack_index := stack.length + 1 } = .ok s' ∧ Holds s' stack'
    | none => ∃ e, reduce env turns { values, operators, stack_index := stack.length + 1 } = .error e := by
  induction stack generalizing values operators x prev v turns with
  | nil =>
    obtain ⟨turns, rfl⟩ : ∃ n, turns = n + 1 := ⟨turns - 1, by omega⟩
    have hop := hoperators.cell_top
    have hprev := hoperators.below.cell_top
    have hrhs := hvalues.cell_top
    have hlhs := hvalues.below.cell_top
    simp only [List.map_nil, List.length_cons, List.length_nil] at hop hprev hrhs hlhs
    rw [climb, if_pos hreduce, Env.apply, reduce]
    simp only [List.length_nil, hop, hprev, hrhs, hlhs, ok_bind, Nat.zero_add, Nat.sub_self, if_pos hreduce]
    cases env.execute_binary prev x v with
    | error e => exact ⟨e, rfl⟩
    | ok result =>
      obtain ⟨values', hput, hvalues'⟩ := hvalues.below.below.put_top (Nat.zero_lt_succ _) result
      obtain ⟨operators', hput', hoperators'⟩ := hoperators.below.below.put_top (Nat.zero_lt_succ _) op
      simp only [List.map_nil, List.length_nil] at hput hput'
      simp only [ofExcept_ok, ok_bind, hput, hput', gt_iff_lt, Nat.lt_irrefl, if_false]
      exact ⟨_, rfl, hvalues', hoperators', rfl⟩
  | cons top below ih =>
    obtain ⟨x', prev'⟩ := top
    obtain ⟨turns, rfl⟩ : ∃ n, turns = n + 1 := ⟨turns - 1, by omega⟩
    have hop := hoperators.cell_top
    have hprev := hoperators.below.cell_top
    have hrhs := hvalues.cell_top
    have hlhs := hvalues.below.cell_top
    have hroom := hvalues.length_le
    simp only [List.map_cons, List.length_cons, List.length_map] at hop hprev hrhs hlhs hroom hturns
    rw [climb, if_pos hreduce, Env.apply, reduce]
    simp only [List.length_cons, hop, hprev, hrhs, hlhs, ok_bind, Nat.add_sub_cancel, if_pos hreduce]
    cases env.execute_binary prev x v with
    | error e => exact ⟨e, rfl⟩
    | ok result =>
      obtain ⟨values', hput, hvalues'⟩ := hvalues.below.below.put_top (by simp; omega) result
      obtain ⟨operators', hput', hoperators'⟩ := hoperators.below.below.put_top (by simp; omega) op
      have hop' := hoperators'.cell_top
      have hprev' := hoperators'.below.cell_top
      simp only [List.map_cons, List.length_cons, List.length_map] at hput hput' hop' hprev'
      have hmore : below.length + 1 + 1 > 1 := by omega
      have htwo : below.length + 1 + 1 - 2 = below.length := by omega
      simp only [ofExcept_ok, ok_bind, hput, hput', if_pos hmore, htwo, hop', hprev']
      by_cases hagain : precedence op ≤ precedence prev'
      · rw [if_pos hagain]
        exact ih (by omega) hvalues' hoperators' hagain
      · rw [if_neg hagain]
        have hstay : climb precedence env.apply ((x', prev') :: below) result op =
            some ((result, op) :: (x', prev') :: below) := by rw [climb, if_neg hagain]
        change match climb precedence env.apply ((x', prev') :: below) result op with | some _ => _ | none => _
        rw [hstay]
        exact ⟨_, rfl, hvalues', hoperators', rfl⟩

end Climb

end Stacks

section Turns

open Evaluated

variable {V : Type} {env : Env V}

/-- A function reads what is written for one kind of phrase. A text that it takes one from, in front of what may
follow it, is a well-formed one with the value that it gives; and it takes each of those. -/
structure Recognizes {G W : Type} (text : G → Bytes) (wellFormed : G → Prop) (eval : G → Option W)
    (follows : Bytes → Prop)
    (n : Nat) (f : Bytes → Evaluated (Option (W × Bytes))) : Prop where
  sound : ∀ line, line.length < n → ∃ result, f line = .ok result ∧ ∀ v rest, result = some (v, rest) → follows rest →
    ∃ g, wellFormed g ∧ line = text g ++ rest ∧ eval g = some v
  complete : ∀ g rest, wellFormed g → follows rest → (text g ++ rest).length < n →
    f (text g ++ rest) = .ok ((eval g).map fun v => (v, rest))

/-- A function that reads operands. -/
def ReadsOperands (env : Env V) (n : Nat) (f : Bytes → Evaluated (Option (V × Bytes))) : Prop :=
  Recognizes Operand.text Operand.WellFormed (Operand.eval env) Delimited n f

/-- An operator of an expression, and not the bracket behind it. -/
def BinaryOp.Proper (op : BinaryOp) : Prop := op ≠ .NoOp ∧ op ≠ .RightBracket

theorem BinaryOp.Proper.levels {op : BinaryOp} (h : op.Proper) : 1 < precedence op ∧ precedence op ≤ 6 := by
  cases op with
  | NoOp => exact absurd rfl h.1
  | RightBracket => exact absurd rfl h.2
  | _ => exact ⟨by decide, by decide⟩

/-- Operands, each with the operator behind it. -/
def written (items : List (Operand × BinaryOp)) : Bytes := items.flatMap fun item => item.1.text ++ item.2.text

theorem body_start (w : Written) : ∃ c later, w.body = c :: later ∧ (isdigit c = true ∨ c = 0x2e) := by
  unfold Written.body
  cases hwhole : w.whole with
  | nil =>
    have hpoint : w.point = true := by
      by_contra hno
      have hnil := w.frac_nil (by simpa using hno)
      exact w.some_digit (by rw [hwhole, hnil]; rfl)
    exact ⟨0x2e, w.frac, by simp [hpoint], .inr rfl⟩
  | cons c whole => exact ⟨c, _, List.cons_append, .inl (w.whole_digits c (by rw [hwhole]; exact List.mem_cons_self))⟩

/-- No operand begins with a `*`. -/
theorem Operand.text_head {a : Operand} (h : a.WellFormed) : ∃ c later, a.text = c :: later ∧ c ≠ 0x2a := by
  cases a with
  | number w =>
    obtain ⟨c, later, hbody, hc⟩ := body_start w
    rw [Operand.WellFormed] at h
    refine ⟨c, later, by rw [Operand.text, Written.text, h, hbody]; rfl, ?_⟩
    rintro rfl
    exact absurd hc (by decide)
  | negative a => exact ⟨_, _, by rw [Operand.text], by decide⟩
  | positive a => exact ⟨_, _, by rw [Operand.text], by decide⟩
  | parameter r => exact ⟨_, _, by rw [Operand.text], by decide⟩
  | bracket e => exact ⟨_, _, by rw [Operand.text]; rfl, by decide⟩
  | unary operation e =>
    obtain ⟨c, later, hname, hc⟩ := operation.text_head
    refine ⟨c, _, by rw [Operand.text, hname]; rfl, ?_⟩
    rintro rfl
    exact absurd hc (by decide)
  | atan y x =>
    rw [Operand.text, UnaryOp.text_eq]
    exact ⟨_, _, rfl, by decide⟩
  | exists_ name =>
    rw [Operand.text, UnaryOp.text_eq]
    exact ⟨_, _, rfl, by decide⟩

theorem written_head {items : List (Operand × BinaryOp)} {a : Operand}
    (hitems : ∀ item ∈ items, item.1.WellFormed ∧ item.2.Proper) (ha : a.WellFormed) (rest : Bytes) :
    (written (items ++ [(a, .RightBracket)]) ++ rest).head? ≠ some 0x2a := by
  obtain ⟨b, op, later, hb, hfirst⟩ : ∃ b op later, Operand.WellFormed b ∧
      items ++ [(a, .RightBracket)] = (b, op) :: later := by
    cases items with
    | nil => exact ⟨a, _, [], ha, rfl⟩
    | cons item items => exact ⟨item.1, item.2, _, (hitems item List.mem_cons_self).1, rfl⟩
  obtain ⟨c, tail, htext, hc⟩ := Operand.text_head hb
  rw [hfirst, written, List.flatMap_cons, htext]
  intro hhead
  exact hc (Option.some.inj hhead)

section Loop

variable {rd : Bytes → Evaluated (Option (V × Bytes))} {s : Stacks V} {stack stack' : List (V × BinaryOp)}
    {n turns : Nat}
  {line later rest : Bytes} {v : V} {op : BinaryOp}

/-- The stack while an expression goes on. -/
structure Open (stack : List (V × BinaryOp)) : Prop where
  nonempty : stack ≠ []
  ascending : Ascending precedence stack
  proper : ∀ entry ∈ stack, entry.2.Proper

/-- There is room for one more entry. -/
theorem Open.length_lt (h : Open stack) : stack.length < MAX_STACK := by
  have := h.ascending.length_le fun entry hentry => (h.proper entry hentry).levels
  unfold MAX_STACK
  omega

theorem Open.climb (h : Open stack) (hop : op.Proper) (hclimb : climb precedence env.apply stack v op = some stack') :
    Open stack' := by
  obtain ⟨v', below, rfl, hbelow⟩ := climb_eq_cons hclimb
  refine ⟨List.cons_ne_nil _ _, climb_ascending h.ascending hclimb, fun entry hentry => ?_⟩
  rcases List.mem_cons.mp hentry with rfl | hin
  · exact hop
  · exact h.proper entry (hbelow.subset hin)

/-- While the expression goes on, its first operator is not the bracket. -/
theorem Open.first (h : Open stack) (hholds : Holds s stack) :
    ∃ bottom, cell s.operators 0 = .ok bottom ∧ bottom ≠ .RightBracket := by
  obtain ⟨bottom, hbottom⟩ : ∃ bottom, stack.getLast? = some bottom :=
    ⟨stack.getLast h.nonempty, List.getLast?_eq_some_getLast h.nonempty⟩
  refine ⟨bottom.2, hholds.operators.cell_bottom ?_, (h.proper bottom (List.mem_of_getLast? hbottom)).2⟩
  rw [List.getLast?_map, hbottom]
  rfl

/-- One turn of the loop, where an operand and an operator can be read. -/
theorem expression_loop_step (env : Env V) (turns : Nat) (hholds : Holds s stack) (hopen : Open stack)
    (hread : rd line = .ok (some (v, later)))
    (hop : read_operation later = .ok (op, rest)) :
    match climb precedence env.apply stack v op with
    | some stack' => ∃ s', Holds s' stack' ∧
        expression_loop env rd (turns + 1) s line = expression_loop env rd turns s' rest
    | none => ∃ e, expression_loop env rd (turns + 1) s line = .error e := by
  obtain ⟨bottom, hbottom, hgoes⟩ := hopen.first hholds
  have hroom := hopen.length_lt
  obtain ⟨values', hput, hvalues⟩ := hholds.values.put_top (by rwa [List.length_map]) v
  obtain ⟨operators', hput', hoperators⟩ := hholds.operators.put_top (by rwa [List.length_map]) op
  rw [List.length_map, ← hholds.stack_index] at hput hput'
  have hcell := hoperators.cell_top
  rw [List.length_map, ← hholds.stack_index] at hcell
  rw [expression_loop]
  simp only [hbottom, ok_bind, if_neg hgoes, hread, orError_some, hput, hop, ofExcept_ok, hput', hcell]
  cases hstack : stack with
  | nil => exact absurd hstack hopen.nonempty
  | cons top below =>
    obtain ⟨x, prev⟩ := top
    rw [hstack, List.map_cons] at hvalues hoperators
    have hindex : s.stack_index = below.length + 1 := by rw [hholds.stack_index, hstack, List.length_cons]
    have hprev := hoperators.below.cell_top
    rw [List.length_map] at hprev
    rw [hindex, Nat.add_sub_cancel, hprev, ok_bind]
    by_cases htight : precedence op > precedence prev
    · have hstay : Precedence.climb precedence env.apply ((x, prev) :: below) v op =
          some ((v, op) :: (x, prev) :: below) := by rw [Precedence.climb, if_neg (by omega)]
      rw [hstay, if_pos htight]
      exact ⟨_, ⟨hvalues, hoperators, by rw [List.length_cons, List.length_cons]⟩, rfl⟩
    · rw [if_neg htight]
      have hreduce := reduce_eq env (Nat.lt_succ_self below.length) hvalues hoperators (Nat.le_of_not_lt htight)
      cases hclimb : Precedence.climb precedence env.apply ((x, prev) :: below) v op with
      | some stack' =>
        rw [hclimb] at hreduce
        obtain ⟨s', hs', hholds'⟩ := hreduce
        exact ⟨s', hholds', by rw [hs', ok_bind]⟩
      | none =>
        rw [hclimb] at hreduce
        obtain ⟨e, he⟩ := hreduce
        exact ⟨e, by rw [he, error_bind]⟩

/-- The loop ends with the bracket, and with one entry on the stack. -/
theorem expression_loop_end (hholds : Holds s [(v, .RightBracket)]) :
    expression_loop env rd turns s line = .ok (s, line) := by
  have hfirst : cell s.operators 0 = .ok .RightBracket := hholds.operators.cell_bottom rfl
  unfold expression_loop
  rw [hfirst, ok_bind, if_pos rfl]

/-- The bracket is below all operators. -/
theorem climb_bracket (hopen : Open stack) (hclimb : climb precedence env.apply stack v .RightBracket = some stack') :
    ∃ v', stack' = [(v', .RightBracket)] :=
  climb_looser (fun entry hentry => Nat.le_of_lt (hopen.proper entry hentry).levels.1) hclimb

/-- From an expression that goes on to its bracket the loop never stops but with an error, or with
operands and operators that were written there. -/
theorem expression_loop_sound (hrd : ReadsOperands env n rd) (hholds : Holds s stack) (hopen : Open stack)
    (hturns : line.length < turns) (hline : line.length < n) :
    ∃ result, (expression_loop env rd turns s line).isOk = .ok result ∧ ∀ s' rest, result = some (s', rest) →
      ∃ items a v, (∀ item ∈ items, item.1.WellFormed ∧ item.2.Proper) ∧ a.WellFormed ∧
        line = written (items ++ [(a, .RightBracket)]) ++ rest ∧
        run precedence (Operand.eval env) env.apply stack (items ++ [(a, .RightBracket)]) = some [(v, .RightBracket)] ∧
        Holds s' [(v, .RightBracket)] := by
  induction turns generalizing s stack line with
  | zero => exact absurd hturns (Nat.not_lt_zero _)
  | succ turns ih =>
    obtain ⟨bottom, hbottom, hgoes⟩ := hopen.first hholds
    obtain ⟨result, hread, hsound⟩ := hrd.sound line hline
    cases result with
    | none =>
      refine ⟨none, ?_, by simp⟩
      rw [expression_loop]
      simp only [hbottom, ok_bind, if_neg hgoes, hread, orError_none, error_bind, isOk_error]
    | some found =>
      obtain ⟨v, later⟩ := found
      cases hop : read_operation later with
      | error e =>
        refine ⟨none, ?_, by simp⟩
        have hroom := hopen.length_lt
        obtain ⟨values', hput, -⟩ := hholds.values.put_top (by rwa [List.length_map]) v
        rw [List.length_map, ← hholds.stack_index] at hput
        rw [expression_loop]
        simp only [hbottom, ok_bind, if_neg hgoes, hread, orError_some, hput, hop, ofExcept_error, error_bind,
          isOk_error]
      | ok found =>
        obtain ⟨op, rest⟩ := found
        obtain ⟨hreal, hlater⟩ := read_operation_sound hop
        obtain ⟨a, ha, htext, heval⟩ := hsound v later rfl (hlater ▸ BinaryOp.text_delimited hreal rest)
        have hstep := expression_loop_step env turns hholds hopen hread hop
        cases hclimb : climb precedence env.apply stack v op with
        | none =>
          rw [hclimb] at hstep
          obtain ⟨e, he⟩ := hstep
          exact ⟨none, by rw [he, isOk_error], by simp⟩
        | some stack' =>
          rw [hclimb] at hstep
          obtain ⟨s', hholds', heq⟩ := hstep
          have hrun : ∀ items, run precedence (Operand.eval env) env.apply stack ((a, op) :: items) =
              run precedence (Operand.eval env) env.apply stack' items := by
            intro items
            rw [run, heval, Option.bind_some, hclimb, Option.bind_some]
          rw [heq]
          by_cases hend : op = .RightBracket
          · subst hend
            obtain ⟨v', rfl⟩ := climb_bracket hopen hclimb
            refine ⟨some (s', rest), by rw [expression_loop_end hholds', isOk_ok], ?_⟩
            intro t after hsame
            obtain ⟨rfl, rfl⟩ := Prod.mk.inj (Option.some.inj hsame)
            refine ⟨[], a, v', by simp, ha, ?_, by rw [List.nil_append, hrun]; rfl, hholds'⟩
            rw [htext, hlater, written, List.nil_append, List.flatMap_singleton, List.append_assoc]
          · have hproper : op.Proper := ⟨hreal, hend⟩
            have hshort : rest.length < line.length := by
              have := BinaryOp.text_length hreal
              rw [htext, hlater, List.length_append, List.length_append]
              omega
            obtain ⟨result, hloop, hresult⟩ :=
              ih hholds' (hopen.climb hproper hclimb) (by omega : rest.length < turns) (by omega)
            refine ⟨result, hloop, fun t after hsame => ?_⟩
            obtain ⟨items, b, w, hitems, hb, hafter, hlast, hends⟩ := hresult t after hsame
            refine ⟨(a, op) :: items, b, w, ?_, hb, ?_, by rw [List.cons_append, hrun]; exact hlast, hends⟩
            · intro item hitem
              rcases List.mem_cons.mp hitem with rfl | hin
              · exact ⟨ha, hproper⟩
              · exact hitems item hin
            · rw [htext, hlater, hafter, written, written, List.cons_append, List.flatMap_cons]
              simp only [List.append_assoc]

/-- An operand that is written, and the operator behind it. -/
theorem expression_loop_operand (turns : Nat) (hrd : ReadsOperands env n rd) (hholds : Holds s stack)
    (hopen : Open stack) {a : Operand}
    (ha : a.WellFormed) (hop : op ≠ .NoOp) (htimes : op = .Times → rest.head? ≠ some 0x2a)
    (hline : (a.text ++ (op.text ++ rest)).length < n) :
    match (a.eval env).bind fun v => climb precedence env.apply stack v op with
    | some stack' => ∃ s', Holds s' stack' ∧
        expression_loop env rd (turns + 1) s (a.text ++ (op.text ++ rest)) = expression_loop env rd turns s' rest
    | none => ∃ e, expression_loop env rd (turns + 1) s (a.text ++ (op.text ++ rest)) = .error e := by
  have hread := hrd.complete a (op.text ++ rest) ha (BinaryOp.text_delimited hop rest) hline
  cases heval : a.eval env with
  | none =>
    obtain ⟨bottom, hbottom, hgoes⟩ := hopen.first hholds
    rw [heval, Option.map_none] at hread
    refine ⟨.BadNumberFormat, ?_⟩
    rw [expression_loop]
    simp only [hbottom, ok_bind, if_neg hgoes, hread, orError_none, error_bind]
  | some v =>
    rw [heval, Option.map_some] at hread
    exact expression_loop_step env turns hholds hopen hread (read_operation_text hop htimes)

/-- Operands and operators that are written are read, and come to the stack as they are worked out. -/
theorem expression_loop_complete (hrd : ReadsOperands env n rd) (hholds : Holds s stack) (hopen : Open stack)
    {items : List (Operand × BinaryOp)} {a : Operand} (hitems : ∀ item ∈ items, item.1.WellFormed ∧ item.2.Proper)
    (ha : a.WellFormed) (hturns : (written (items ++ [(a, .RightBracket)]) ++ rest).length < turns)
    (hline : (written (items ++ [(a, .RightBracket)]) ++ rest).length < n) :
    match run precedence (Operand.eval env) env.apply stack (items ++ [(a, .RightBracket)]) with
    | some stack' => ∃ s', Holds s' stack' ∧
        expression_loop env rd turns s (written (items ++ [(a, .RightBracket)]) ++ rest) = .ok (s', rest)
    | none => ∃ e, expression_loop env rd turns s (written (items ++ [(a, .RightBracket)]) ++ rest) = .error e := by
  induction items generalizing s stack turns with
  | nil =>
    obtain ⟨turns, rfl⟩ : ∃ k, turns = k + 1 := ⟨turns - 1, by omega⟩
    simp only [written, List.nil_append, List.flatMap_singleton, List.append_assoc, run] at hline ⊢
    have hlast :=
      expression_loop_operand turns hrd hholds hopen ha (by simp : BinaryOp.RightBracket ≠ .NoOp) (by simp) hline
    cases heval : a.eval env with
    | none =>
      rw [heval] at hlast
      exact hlast
    | some v =>
      rw [heval, Option.bind_some] at hlast
      rw [Option.bind_some]
      cases hclimb : climb precedence env.apply stack v .RightBracket with
      | none =>
        rw [hclimb] at hlast
        exact hlast
      | some stack' =>
        rw [hclimb] at hlast
        obtain ⟨s', hholds', heq⟩ := hlast
        obtain ⟨v', rfl⟩ := climb_bracket hopen hclimb
        exact ⟨s', hholds', by rw [heq, expression_loop_end hholds']⟩
  | cons item items ih =>
    obtain ⟨turns, rfl⟩ : ∃ k, turns = k + 1 := ⟨turns - 1, by omega⟩
    obtain ⟨b, op⟩ := item
    obtain ⟨hb, hproper⟩ := hitems (b, op) List.mem_cons_self
    have hitems' : ∀ item ∈ items, item.1.WellFormed ∧ item.2.Proper := fun item hin =>
      hitems item (List.mem_cons_of_mem _ hin)
    have hsplit : written ((b, op) :: items ++ [(a, .RightBracket)]) ++ rest =
        b.text ++ (op.text ++ (written (items ++ [(a, .RightBracket)]) ++ rest)) := by
      rw [written, List.cons_append, List.flatMap_cons]
      simp only [written, List.append_assoc]
    have hshort : (written (items ++ [(a, .RightBracket)]) ++ rest).length <
        (written ((b, op) :: items ++ [(a, .RightBracket)]) ++ rest).length := by
      have hname : 0 < op.text.length := BinaryOp.text_length hproper.1
      rw [hsplit]
      simp only [List.length_append]
      omega
    rw [hsplit, List.cons_append, run]
    have hstep := expression_loop_operand turns hrd hholds hopen hb hproper.1
      (fun _ => written_head hitems' ha rest) (by rw [← hsplit]; exact hline)
    cases heval : b.eval env with
    | none =>
      rw [heval] at hstep
      exact hstep
    | some v =>
      rw [heval, Option.bind_some] at hstep
      rw [Option.bind_some]
      cases hclimb : climb precedence env.apply stack v op with
      | none =>
        rw [hclimb] at hstep
        exact hstep
      | some stack' =>
        rw [hclimb] at hstep
        obtain ⟨s', hholds', heq⟩ := hstep
        rw [Option.bind_some, heq]
        exact ih hholds' (hopen.climb hproper hclimb) hitems' (by omega) (by omega)

end Loop

end Turns

end DuneWeaver.Expression
