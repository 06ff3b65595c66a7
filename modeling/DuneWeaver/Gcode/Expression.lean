import DuneWeaver.Gcode.Collapse
import DuneWeaver.NutsBolts.ReadFloat
import DuneWeaver.Types

namespace DuneWeaver.Expression

/-- `ngc_binary_op_t`. -/
inductive BinaryOp where
  | NoOp
  | DividedBy
  | Modulo
  | Power
  | Times
  | And2
  | ExclusiveOR
  | Minus
  | NotExclusiveOR
  | Plus
  | RightBracket
  | LT
  | EQ
  | NE
  | LE
  | GE
  | GT
  deriving DecidableEq

/-- `ngc_unary_op_t`. -/
inductive UnaryOp where
  | ABS
  | ACOS
  | ASIN
  | ATAN
  | COS
  | EXP
  | FIX
  | FUP
  | LN
  | Round
  | SIN
  | SQRT
  | TAN
  | Exists
  deriving DecidableEq

/-- A parameter by its name, or by its number. An empty name stands for the number that happens to be in
`param_ref_t` then. -/
inductive ParamRef where
  | named (name : Bytes)
  | numbered (id : Int)
  deriving DecidableEq

/-- The values of an expression, and what it calculates with: the conversion of a number and of a truth value,
the parameters, and the operations, which may fail. -/
structure Env (V : Type*) where
  literal : Binary32.Value → V
  truth : Bool → V
  param_id : V → Int
  get_param : ParamRef → Option V
  named_param_exists : Bytes → Bool
  neg : V → V
  execute_binary : BinaryOp → V → V → Except Error V
  execute_unary : UnaryOp → V → Except Error V
  atan2 : V → V → V

/-- How a function ends. A `fault` is an access outside of an array or to a cell that nothing was stored
in, or a loop that goes on. -/
inductive Evaluated (α : Type*) where
  | ok (a : α)
  | error (e : Error)
  | fault
  deriving DecidableEq

namespace Evaluated

variable {α β : Type*}

def bind (x : Evaluated α) (f : α → Evaluated β) : Evaluated β :=
  match x with
  | ok a => f a
  | error e => error e
  | fault => fault

/-- What a function that returns a `bool` makes of the status of another one. -/
def isOk (x : Evaluated α) : Evaluated (Option α) :=
  match x with
  | ok a => ok (some a)
  | error _ => ok none
  | fault => fault

/-- The status for a `bool` that is false. -/
def orError (x : Evaluated (Option α)) (e : Error) : Evaluated α :=
  match x with
  | ok (some a) => ok a
  | ok none => error e
  | error e => error e
  | fault => fault

def ofExcept (x : Except Error α) : Evaluated α :=
  match x with
  | .ok a => ok a
  | .error e => error e

@[simp] theorem ok_bind (a : α) (f : α → Evaluated β) : (ok a).bind f = f a := rfl

@[simp] theorem error_bind (e : Error) (f : α → Evaluated β) : (error e).bind f = error e := rfl

@[simp] theorem isOk_ok (a : α) : (ok a).isOk = ok (some a) := rfl

@[simp] theorem isOk_error (e : Error) : (error e : Evaluated α).isOk = ok none := rfl

@[simp] theorem orError_some (a : α) (e : Error) : (ok (some a)).orError e = ok a := rfl

@[simp] theorem orError_none (e : Error) : (ok none : Evaluated (Option α)).orError e = error e := rfl

@[simp] theorem ofExcept_ok (a : α) : ofExcept (.ok a) = ok a := rfl

@[simp] theorem ofExcept_error (e : Error) : ofExcept (.error e : Except Error α) = error e := rfl

end Evaluated

open Evaluated

def precedence : BinaryOp → Nat
  | .RightBracket => 1
  | .And2 | .ExclusiveOR | .NotExclusiveOR => 2
  | .LT | .EQ | .NE | .LE | .GE | .GT => 3
  | .Minus | .Plus => 4
  | .NoOp | .DividedBy | .Modulo | .Times => 5
  | .Power => 6

/-- The operator at the front of a text, and the text behind it. -/
def read_operation : Bytes → Except Error (BinaryOp × Bytes)
  | 0x2b :: line => .ok (.Plus, line)
  | 0x2d :: line => .ok (.Minus, line)
  | 0x2f :: line => .ok (.DividedBy, line)
  | 0x2a :: 0x2a :: line => .ok (.Power, line)
  | 0x2a :: line => .ok (.Times, line)
  | 0x5d :: line => .ok (.RightBracket, line)
  -- the names are in upper case: AND, MOD, OR, XOR, EQ, NE, GE, GT, LE and LT
  | 0x41 :: 0x4e :: 0x44 :: line => .ok (.And2, line)
  | 0x4d :: 0x4f :: 0x44 :: line => .ok (.Modulo, line)
  | 0x4f :: 0x52 :: line => .ok (.NotExclusiveOR, line)
  | 0x58 :: 0x4f :: 0x52 :: line => .ok (.ExclusiveOR, line)
  | 0x45 :: 0x51 :: line => .ok (.EQ, line)
  | 0x4e :: 0x45 :: line => .ok (.NE, line)
  | 0x47 :: 0x45 :: line => .ok (.GE, line)
  | 0x47 :: 0x54 :: line => .ok (.GT, line)
  | 0x4c :: 0x45 :: line => .ok (.LE, line)
  | 0x4c :: 0x54 :: line => .ok (.LT, line)
  | _ => .error .ExpressionUnknownOp

/-- The name of a function at the front of a text, and the text behind it. -/
def read_operation_unary : Bytes → Except Error (UnaryOp × Bytes)
  -- ABS, ACOS, ASIN, ATAN, COS, EXP, EXISTS, FIX, FUP, LN, ROUND, SIN, SQRT and TAN
  | 0x41 :: 0x42 :: 0x53 :: line => .ok (.ABS, line)
  | 0x41 :: 0x43 :: 0x4f :: 0x53 :: line => .ok (.ACOS, line)
  | 0x41 :: 0x53 :: 0x49 :: 0x4e :: line => .ok (.ASIN, line)
  | 0x41 :: 0x54 :: 0x41 :: 0x4e :: line => .ok (.ATAN, line)
  | 0x43 :: 0x4f :: 0x53 :: line => .ok (.COS, line)
  | 0x45 :: 0x58 :: 0x50 :: line => .ok (.EXP, line)
  | 0x45 :: 0x58 :: 0x49 :: 0x53 :: 0x54 :: 0x53 :: line => .ok (.Exists, line)
  | 0x46 :: 0x49 :: 0x58 :: line => .ok (.FIX, line)
  | 0x46 :: 0x55 :: 0x50 :: line => .ok (.FUP, line)
  | 0x4c :: 0x4e :: line => .ok (.LN, line)
  | 0x52 :: 0x4f :: 0x55 :: 0x4e :: 0x44 :: line => .ok (.Round, line)
  | 0x53 :: 0x49 :: 0x4e :: line => .ok (.SIN, line)
  | 0x53 :: 0x51 :: 0x52 :: 0x54 :: line => .ok (.SQRT, line)
  | 0x54 :: 0x41 :: 0x4e :: line => .ok (.TAN, line)
  | _ => .error .ExpressionUnknownOp

def MAX_STACK : Nat := 7

/-- A cell of an array that something was stored in. -/
def cell {α : Type*} (cells : List (Option α)) (i : Nat) : Evaluated α :=
  match cells[i]? with
  | some (some a) => .ok a
  | _ => .fault

/-- A store to a cell of an array. -/
def put {α : Type*} (cells : List (Option α)) (i : Nat) (a : α) : Evaluated (List (Option α)) :=
  if i < cells.length then .ok (cells.set i (some a)) else .fault

/-- The local variables of `expression`. -/
structure Stacks (V : Type*) where
  values : List (Option V)
  operators : List (Option BinaryOp)
  stack_index : Nat

section Functions

variable {V : Type} (env : Env V)

/-- The inner loop of `expression`. -/
@[grind =] def reduce : Nat → Stacks V → Evaluated (Stacks V)
  | turns, s =>
    (cell s.operators s.stack_index).bind fun op => (cell s.operators (s.stack_index - 1)).bind fun prev =>
      if precedence op ≤ precedence prev then
        match turns with
        | 0 => .fault
        | turns + 1 =>
          (cell s.values (s.stack_index - 1)).bind fun lhs => (cell s.values s.stack_index).bind fun rhs =>
          (ofExcept (env.execute_binary prev lhs rhs)).bind fun result =>
          (put s.values (s.stack_index - 1) result).bind fun values =>
          (put s.operators (s.stack_index - 1) op).bind fun operators =>
            if s.stack_index > 1 then
              (cell operators (s.stack_index - 1)).bind fun o1 => (cell operators (s.stack_index - 2)).bind fun o2 =>
                if precedence o1 ≤ precedence o2 then
                  reduce turns { values, operators, stack_index := s.stack_index - 1 }
                else .ok { values, operators, stack_index := s.stack_index }
            else .ok { values, operators, stack_index := s.stack_index }
      else .ok s

/-- The outer loop of `expression`. -/
@[grind =] def expression_loop (read_number : Bytes → Evaluated (Option (V × Bytes))) :
    Nat → Stacks V → Bytes → Evaluated (Stacks V × Bytes)
  | turns, s, line =>
    (cell s.operators 0).bind fun first =>
      if first = .RightBracket then .ok (s, line)
      else
        match turns with
        | 0 => .fault
        | turns + 1 =>
          ((read_number line).orError .BadNumberFormat).bind fun (value, line) =>
          (put s.values s.stack_index value).bind fun values =>
          (ofExcept (read_operation line)).bind fun (op, line) =>
          (put s.operators s.stack_index op).bind fun operators =>
          (cell operators s.stack_index).bind fun op => (cell operators (s.stack_index - 1)).bind fun prev =>
            if precedence op > precedence prev then
              expression_loop read_number turns { values, operators, stack_index := s.stack_index + 1 } line
            else
              (reduce env s.stack_index { values, operators, stack_index := s.stack_index }).bind fun s =>
                expression_loop read_number turns s line

/-- `expression`, with the function that reads its operands. -/
def expression_with (read_number : Bytes → Evaluated (Option (V × Bytes))) : Bytes → Evaluated (V × Bytes)
  | 0x5b :: line =>
    ((read_number line).orError .BadNumberFormat).bind fun (value, line) =>
    (put (List.replicate MAX_STACK none) 0 value).bind fun values =>
    (ofExcept (read_operation line)).bind fun (op, line) =>
    (put (List.replicate MAX_STACK none) 0 op).bind fun operators =>
    (expression_loop env read_number (line.length + 1) { values, operators, stack_index := 1 } line).bind fun
    (s, line) =>
    (cell s.values 0).bind fun value => .ok (value, line)
  | _ => .error .GcodeUnsupportedCommand

/-- The second argument of `ATAN` is behind a slash. -/
def read_atan (expression : Bytes → Evaluated (V × Bytes)) (value : V) : Bytes → Evaluated (V × Bytes)
  | 0x2f :: 0x5b :: line =>
    (expression (0x5b :: line)).bind fun (argument2, line) => .ok (env.atan2 value argument2, line)
  | _ => .error .ExpressionSyntaxError

def read_unary (expression : Bytes → Evaluated (V × Bytes)) (line : Bytes) : Evaluated (V × Bytes) :=
  (ofExcept (read_operation_unary line)).bind fun (operation, line) =>
    match line with
    | 0x5b :: arg =>
      if operation = .Exists then
        match arg.dropWhile (· ≠ 0x5d) with
        | [] => .error .ExpressionSyntaxError
        | _ :: line => .ok (env.truth (env.named_param_exists (arg.takeWhile (· ≠ 0x5d))), line)
      else
        (expression (0x5b :: arg)).bind fun (value, line) =>
          if operation = .ATAN then read_atan env expression value line
          else (ofExcept (env.execute_unary operation value)).bind fun value => .ok (value, line)
    | _ => .error .ExpressionSyntaxError

/-- The reference behind a `#`. -/
@[grind =] def get_param_ref (expression : Bytes → Evaluated (V × Bytes)) :
    Bytes → Evaluated (Option (ParamRef × Bytes))
  | 0x23 :: line =>
    -- indirection resulting in a parameter number
    (get_param_ref expression line).bind fun
      | none => .ok none
      | some (next_param_ref, line) =>
        match env.get_param next_param_ref with
        | none => .ok none
        | some result => .ok (some (.numbered (env.param_id result), line))
  | 0x3c :: line =>
    match line.dropWhile (· ≠ 0x3e) with
    | [] => .ok none
    | _ :: rest => .ok (some (.named (((line.takeWhile (· ≠ 0x3e)).filter fun c => !isspace c).map toupper), rest))
  | 0x5b :: line =>
    (expression (0x5b :: line)).isOk.bind fun
      | none => .ok none
      | some (result, line) => .ok (some (.numbered (env.param_id result), line))
  | line =>
    match read_float line with
    | none => .ok none
    | some (result, line) => .ok (some (.numbered (env.param_id (env.literal result)), line))

def isalpha (c : UInt8) : Bool := (0x41 ≤ c ∧ c ≤ 0x5a) ∨ (0x61 ≤ c ∧ c ≤ 0x7a)

/-- `read_number`, with the depth to which it may be called again. -/
@[grind =] def read_number : Nat → Bool → Bytes → Evaluated (Option (V × Bytes))
  | 0, _, _ => .fault
  | depth + 1, in_expression, line =>
    let expression := expression_with env (read_number depth true)
    let c := line.headD 0
    if c = 0x23 then
      (get_param_ref env expression line.tail).bind fun
        | none => .ok none
        | some (param_ref, line) => .ok ((env.get_param param_ref).map fun result => (result, line))
    else if c = 0x5b then (expression line).isOk
    else if in_expression ∧ isalpha c then (read_unary env expression line).isOk
    else if in_expression ∧ c = 0x2d then
      (read_number depth in_expression line.tail).bind fun
        | none => .ok none
        | some (result, line) => .ok (some (env.neg result, line))
    else if in_expression ∧ c = 0x2b then read_number depth in_expression line.tail
    else .ok ((read_float line).map fun (result, line) => (env.literal result, line))

/-- `expression` on a text. No bracket, sign or `#` can be deeper in it than it is long. -/
def expression (line : Bytes) : Evaluated (V × Bytes) := expression_with env (read_number env line.length true) line

end Functions

end DuneWeaver.Expression
