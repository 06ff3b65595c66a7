import DuneWeaver.Gcode.Expression
import DuneWeaver.NutsBolts.ReadExact

namespace DuneWeaver.Expression

def BinaryOp.text : BinaryOp → Bytes
  | .NoOp => []
  | .DividedBy => bytes "/"
  | .Modulo => bytes "MOD"
  | .Power => bytes "**"
  | .Times => bytes "*"
  | .And2 => bytes "AND"
  | .ExclusiveOR => bytes "XOR"
  | .Minus => bytes "-"
  | .NotExclusiveOR => bytes "OR"
  | .Plus => bytes "+"
  | .RightBracket => bytes "]"
  | .LT => bytes "LT"
  | .EQ => bytes "EQ"
  | .NE => bytes "NE"
  | .LE => bytes "LE"
  | .GE => bytes "GE"
  | .GT => bytes "GT"

def UnaryOp.text : UnaryOp → Bytes
  | .ABS => bytes "ABS"
  | .ACOS => bytes "ACOS"
  | .ASIN => bytes "ASIN"
  | .ATAN => bytes "ATAN"
  | .COS => bytes "COS"
  | .EXP => bytes "EXP"
  | .FIX => bytes "FIX"
  | .FUP => bytes "FUP"
  | .LN => bytes "LN"
  | .Round => bytes "ROUND"
  | .SIN => bytes "SIN"
  | .SQRT => bytes "SQRT"
  | .TAN => bytes "TAN"
  | .Exists => bytes "EXISTS"

mutual

/-- What stands between the brackets of an expression. -/
inductive Expr where
  | operand (a : Operand)
  | binary (op : BinaryOp) (left right : Expr)

inductive Operand where
  | number (w : Written)
  | negative (a : Operand)
  | positive (a : Operand)
  | parameter (r : Ref)
  | bracket (e : Expr)
  | unary (operation : UnaryOp) (e : Expr)
  | atan (y x : Expr)
  | exists_ (name : Bytes)

/-- What stands behind a `#`. -/
inductive Ref where
  | numbered (w : Written)
  | named (name : Bytes)
  | indirect (r : Ref)
  | computed (e : Expr)

end

mutual

@[grind =] def Expr.text : Expr → Bytes
  | .operand a => a.text
  | .binary op left right => left.text ++ op.text ++ right.text

@[grind =] def Operand.text : Operand → Bytes
  | .number w => w.text
  | .negative a => 0x2d :: a.text
  | .positive a => 0x2b :: a.text
  | .parameter r => 0x23 :: r.text
  | .bracket e => 0x5b :: e.text ++ [0x5d]
  | .unary operation e => operation.text ++ 0x5b :: e.text ++ [0x5d]
  | .atan y x => UnaryOp.ATAN.text ++ 0x5b :: y.text ++ 0x5d :: 0x2f :: 0x5b :: x.text ++ [0x5d]
  | .exists_ name => UnaryOp.Exists.text ++ 0x5b :: name ++ [0x5d]

@[grind =] def Ref.text : Ref → Bytes
  | .numbered w => w.text
  | .named name => 0x3c :: name ++ [0x3e]
  | .indirect r => 0x23 :: r.text
  | .computed e => 0x5b :: e.text ++ [0x5d]

end

/-- The operator that is applied last, where there is one, binds at least as tightly as `level`. -/
def Expr.AtLeast (level : Nat) : Expr → Prop
  | .operand _ => True
  | .binary op _ _ => level ≤ precedence op

mutual

/-- An expression is grouped by the precedence of its operators, equal ones from the left. -/
@[grind =] def Expr.WellFormed : Expr → Prop
  | .operand a => a.WellFormed
  | .binary op left right =>
    op ≠ .NoOp ∧ op ≠ .RightBracket ∧ left.AtLeast (precedence op) ∧ right.AtLeast (precedence op + 1) ∧
      left.WellFormed ∧ right.WellFormed

/-- The sign of a number is one of its own, as before any other operand. -/
@[grind =] def Operand.WellFormed : Operand → Prop
  | .number w => w.sign = none
  | .negative a => a.WellFormed
  | .positive a => a.WellFormed
  | .parameter r => r.WellFormed
  | .bracket e => e.WellFormed
  | .unary operation e => operation ≠ .ATAN ∧ operation ≠ .Exists ∧ e.WellFormed
  | .atan y x => y.WellFormed ∧ x.WellFormed
  | .exists_ name => 0x5d ∉ name

@[grind =] def Ref.WellFormed : Ref → Prop
  | .numbered _ => True
  | .named name => 0x3e ∉ name
  | .indirect r => r.WellFormed
  | .computed e => e.WellFormed

end

section Eval

variable {V : Type} (env : Env V)

/-- The value of a number as it is written. -/
def Env.number (w : Written) : Option V := (read_float w.text).map fun (value, _) => env.literal value

mutual

/-- The reference evaluator: operands first, the left one before the right one. -/
@[grind =] def Expr.eval : Expr → Option V
  | .operand a => a.eval
  | .binary op left right => left.eval.bind fun x => right.eval.bind fun y => (env.execute_binary op x y).toOption

@[grind =] def Operand.eval : Operand → Option V
  | .number w => env.number w
  | .negative a => a.eval.map env.neg
  | .positive a => a.eval
  | .parameter r => r.eval.bind env.get_param
  | .bracket e => e.eval
  | .unary operation e => e.eval.bind fun x => (env.execute_unary operation x).toOption
  | .atan y x => y.eval.bind fun y => x.eval.map fun x => env.atan2 y x
  | .exists_ name => some (env.truth (env.named_param_exists name))

@[grind =] def Ref.eval : Ref → Option ParamRef
  | .numbered w => (env.number w).map fun value => .numbered (env.param_id value)
  | .named name => some (.named ((name.filter fun c => !isspace c).map toupper))
  | .indirect r => (r.eval.bind env.get_param).map fun value => .numbered (env.param_id value)
  | .computed e => e.eval.map fun value => .numbered (env.param_id value)

end

end Eval

section Names

variable {line rest : Bytes}

/-- No operator begins with a character of a number, so it ends the number in front of it. -/
def Delimited (rest : Bytes) : Prop := ∀ c, rest.head? = some c → isdigit c = false ∧ c ≠ 0x2e

def BinaryOp.chars : BinaryOp → Bytes
  | .NoOp => []
  | .DividedBy => [0x2f]
  | .Modulo => [0x4d, 0x4f, 0x44]
  | .Power => [0x2a, 0x2a]
  | .Times => [0x2a]
  | .And2 => [0x41, 0x4e, 0x44]
  | .ExclusiveOR => [0x58, 0x4f, 0x52]
  | .Minus => [0x2d]
  | .NotExclusiveOR => [0x4f, 0x52]
  | .Plus => [0x2b]
  | .RightBracket => [0x5d]
  | .LT => [0x4c, 0x54]
  | .EQ => [0x45, 0x51]
  | .NE => [0x4e, 0x45]
  | .LE => [0x4c, 0x45]
  | .GE => [0x47, 0x45]
  | .GT => [0x47, 0x54]

theorem BinaryOp.text_eq (op : BinaryOp) : op.text = op.chars := by
  cases op
  all_goals decide

/-- A `*` may go on as a `**`. -/
theorem read_operation_text {op : BinaryOp} (hop : op ≠ .NoOp) (htimes : op = .Times → rest.head? ≠ some 0x2a) :
    read_operation (op.text ++ rest) = .ok (op, rest) := by
  rw [op.text_eq]
  cases op with
  | NoOp => exact absurd rfl hop
  | Times =>
    have hnext := htimes rfl
    cases rest with
    | nil => rfl
    | cons c rest =>
      have hc : c ≠ 0x2a := fun h => hnext (congrArg some h)
      change read_operation (0x2a :: c :: rest) = _
      unfold read_operation
      split
      all_goals simp_all
  | _ => rfl

theorem read_operation_sound {op : BinaryOp} (h : read_operation line = .ok (op, rest)) :
    op ≠ .NoOp ∧ line = op.text ++ rest := by
  rw [op.text_eq]
  unfold read_operation at h
  split at h
  case h_17 => cases h
  all_goals
    rw [Except.ok.injEq, Prod.mk.injEq] at h
    obtain ⟨rfl, rfl⟩ := h
    exact ⟨nofun, rfl⟩

theorem BinaryOp.text_delimited {op : BinaryOp} (hop : op ≠ .NoOp) (rest : Bytes) : Delimited (op.text ++ rest) := by
  rw [op.text_eq]
  cases op with
  | NoOp => exact absurd rfl hop
  | _ =>
    intro c hc
    obtain rfl := Option.some.inj hc
    exact ⟨by decide, by decide⟩

theorem BinaryOp.text_length {op : BinaryOp} (hop : op ≠ .NoOp) : 0 < op.text.length := by
  rw [op.text_eq]
  cases op with
  | NoOp => exact absurd rfl hop
  | _ => exact Nat.zero_lt_succ _

def UnaryOp.chars : UnaryOp → Bytes
  | .ABS => [0x41, 0x42, 0x53]
  | .ACOS => [0x41, 0x43, 0x4f, 0x53]
  | .ASIN => [0x41, 0x53, 0x49, 0x4e]
  | .ATAN => [0x41, 0x54, 0x41, 0x4e]
  | .COS => [0x43, 0x4f, 0x53]
  | .EXP => [0x45, 0x58, 0x50]
  | .FIX => [0x46, 0x49, 0x58]
  | .FUP => [0x46, 0x55, 0x50]
  | .LN => [0x4c, 0x4e]
  | .Round => [0x52, 0x4f, 0x55, 0x4e, 0x44]
  | .SIN => [0x53, 0x49, 0x4e]
  | .SQRT => [0x53, 0x51, 0x52, 0x54]
  | .TAN => [0x54, 0x41, 0x4e]
  | .Exists => [0x45, 0x58, 0x49, 0x53, 0x54, 0x53]

theorem UnaryOp.text_eq (operation : UnaryOp) : operation.text = operation.chars := by
  cases operation
  all_goals decide

theorem read_operation_unary_text (operation : UnaryOp) (rest : Bytes) :
    read_operation_unary (operation.text ++ rest) = .ok (operation, rest) := by
  rw [operation.text_eq]
  cases operation
  all_goals rfl

theorem read_operation_unary_sound {operation : UnaryOp} (h : read_operation_unary line = .ok (operation, rest)) :
    line = operation.text ++ rest := by
  rw [operation.text_eq]
  unfold read_operation_unary at h
  split at h
  case h_15 => cases h
  all_goals
    rw [Except.ok.injEq, Prod.mk.injEq] at h
    obtain ⟨rfl, rfl⟩ := h
    rfl

/-- The name of a function begins with a letter. -/
theorem UnaryOp.text_head (operation : UnaryOp) : ∃ c rest, operation.text = c :: rest ∧ isalpha c = true := by
  rw [operation.text_eq]
  cases operation
  all_goals exact ⟨_, _, rfl, by decide⟩

end Names

section Numbers

variable {text rest : Bytes} {w : Written}

theorem read_digits_eq (d : Digits) (hdigits : ∀ c ∈ text, isdigit c = true) (rest : Bytes) :
    d.read (text ++ rest) = (text.foldl Digits.digit d).read rest := by
  induction text generalizing d with
  | nil => rfl
  | cons c text ih =>
    rw [List.cons_append, Digits.read, if_pos (hdigits c List.mem_cons_self), List.foldl_cons]
    exact ih _ fun e he => hdigits e (List.mem_cons_of_mem c he)

theorem foldl_digit_isdecimal (d : Digits) (text : Bytes) : (text.foldl Digits.digit d).isdecimal = d.isdecimal := by
  induction text generalizing d with
  | nil => rfl
  | cons c text ih => rw [List.foldl_cons, ih, Digits.digit_isdecimal]

theorem read_delimited (d : Digits) (hrest : Delimited rest) : d.read rest = (d, rest) := by
  cases rest with
  | nil => rfl
  | cons c rest =>
    obtain ⟨hdigit, hpoint⟩ := hrest c rfl
    rw [Digits.read, if_neg (by rw [hdigit]; exact Bool.false_ne_true), if_neg fun h => hpoint h.1]

/-- The digits of a number that is written are all read, and nothing behind them. -/
theorem read_body (w : Written) : ∃ d : Digits, ∀ rest, Delimited rest →
    Digits.read {} (w.body ++ rest) = (d, rest) := by
  unfold Written.body
  cases hpoint : w.point with
  | false =>
    refine ⟨w.whole.foldl Digits.digit {}, fun rest hrest => ?_⟩
    simp only [Bool.false_eq_true, if_false, List.append_nil]
    rw [read_digits_eq _ w.whole_digits, read_delimited _ hrest]
  | true =>
    refine ⟨w.frac.foldl Digits.digit { w.whole.foldl Digits.digit {} with isdecimal := true }, fun rest hrest => ?_⟩
    have hwhole : (w.whole.foldl Digits.digit {}).isdecimal = false := foldl_digit_isdecimal _ _
    rw [if_pos rfl, List.append_assoc, read_digits_eq _ w.whole_digits, List.cons_append, Digits.read,
      if_neg (by decide), if_pos ⟨rfl, by rw [hwhole]; exact Bool.false_ne_true⟩, read_digits_eq _ w.frac_digits,
      read_delimited _ hrest]

theorem skipSign_text (w : Written) (rest : Bytes) : skipSign (w.text ++ rest) = w.body ++ rest := by
  obtain ⟨c, later, hbody, hminus, hplus⟩ := w.body_head
  unfold Written.text
  cases hsign : w.sign with
  | none =>
    change skipSign (w.body ++ rest) = _
    rw [hbody]
    exact if_neg (by simp [hminus, hplus])
  | some minus =>
    cases minus with
    | true => rfl
    | false => rfl

theorem text_isnegative (w : Written) (rest : Bytes) : (w.text ++ rest).head? = some 45 ↔ w.sign = some true := by
  obtain ⟨c, later, hbody, hminus, hplus⟩ := w.body_head
  unfold Written.text
  cases hsign : w.sign with
  | none =>
    change (w.body ++ rest).head? = _ ↔ _
    rw [hbody]
    simp [hminus]
  | some minus =>
    cases minus with
    | true => exact ⟨fun _ => rfl, fun _ => rfl⟩
    | false => exact ⟨nofun, nofun⟩

/-- A number that is written is read in full, to the value that it has alone. -/
theorem read_float_text (w : Written) : ∃ value, ∀ rest, Delimited rest →
    read_float (w.text ++ rest) = some (value, rest) := by
  obtain ⟨d, hread⟩ := read_body w
  have hdigit : d.ndigit ≠ 0 := by
    obtain ⟨d', hread', hreads⟩ := Digits.read_spec w.body
    have hempty := hread [] nofun
    rw [List.append_nil, hread'] at hempty
    obtain ⟨rfl, -⟩ := Prod.mk.inj hempty
    rw [hreads.ndigit]
    exact fun h => (Written.body_le (List.prefix_refl w.body)).2 (List.eq_nil_of_length_eq_zero h)
  refine ⟨if w.sign = some true then (uint_to_float d.intval d.exp.toInt).neg else uint_to_float d.intval d.exp.toInt,
    fun rest hrest => ?_⟩
  rw [read_float, skipSign_text, hread rest hrest]
  dsimp only
  rw [if_neg hdigit]
  simp only [text_isnegative]

/-- What is read is a number that is written. -/
theorem read_float_sound {value : Binary32.Value} (h : read_float text = some (value, rest)) :
    ∃ w : Written, text = w.text ++ rest ∧ w.sign = signOf text := by
  obtain ⟨d, hread, hreads⟩ := Digits.read_spec (skipSign text)
  unfold read_float at h
  dsimp only at h
  rw [hread] at h
  dsimp only at h
  split_ifs at h with hnone
  all_goals
    have hdigit : wholePart (skipSign text) ++ fracPart (skipSign text) ≠ [] := by
      intro hnil
      rw [hreads.ndigit, hnil] at hnone
      exact hnone rfl
    obtain ⟨-, rfl⟩ := Prod.mk.inj (Option.some.inj h)
    exact ⟨taken text hdigit, (taken_append_behind text hdigit).symm, rfl⟩

variable {V : Type} (env : Env V)

theorem number_text (w : Written) (hrest : Delimited rest) :
    ((read_float (w.text ++ rest)).map fun (value, rest) => (env.literal value, rest)) =
      (env.number w).map fun value => (value, rest) := by
  obtain ⟨value, hread⟩ := read_float_text w
  have halone := hread [] nofun
  rw [List.append_nil] at halone
  rw [Env.number, hread rest hrest, halone]
  rfl

end Numbers

end DuneWeaver.Expression
