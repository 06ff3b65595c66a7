import DuneWeaver.Types
import DuneWeaver.Transition.Machine
import Mathlib.Data.Rat.Floor

namespace DuneWeaver

/-- The operations of the O-words. -/
inductive ngc_cmd_t where
  | Op_NoOp
  | Op_If
  | Op_ElseIf
  | Op_Else
  | Op_EndIf
  | Op_Do
  | Op_Continue
  | Op_Break
  | Op_While
  | Op_EndWhile
  | Op_Repeat
  | Op_EndRepeat
  | Op_Return
  | Op_RaiseAlarm
  | Op_RaiseError
  deriving DecidableEq

open ngc_cmd_t

/-- An O-word block that is open. `file` is the job on top of the job stack when the block was
entered, if there was one. -/
structure ngc_stack_entry_t where
  o_label : Nat
  operation : ngc_cmd_t
  file : Option Nat
  file_pos : Nat := 0
  expr : String := ""
  repeats : Nat := 0
  skip : Bool
  handled : Bool := false
  brk : Bool := false
  deriving DecidableEq

/-- The context stack, from its top on. -/
abbrev Context := List ngc_stack_entry_t

def commands : List (String × ngc_cmd_t) := [
  ("IF", Op_If),
  ("ELSEIF", Op_ElseIf),
  ("ELSE", Op_Else),
  ("ENDIF", Op_EndIf),
  ("DO", Op_Do),
  ("CONTINUE", Op_Continue),
  ("BREAK", Op_Break),
  ("WHILE", Op_While),
  ("ENDWHILE", Op_EndWhile),
  ("REPEAT", Op_Repeat),
  ("ENDREPEAT", Op_EndRepeat),
  ("RETURN", Op_Return),
  ("ALARM", Op_RaiseAlarm),
  ("ERROR", Op_RaiseError)]

def read_command (key : String) : Option ngc_cmd_t := commands.lookup key

/-- What `flowcontrol` finds around it: the job on top of the job stack with the position of its
file, and `expression` with the present values of the parameters. -/
structure FlowEnv where
  source : Option Nat
  position : Nat
  expression : String → Except Error ℚ
  error_of : ℚ → Error

/-- What `flowcontrol` asks for: a position to continue a file at, or an alarm. -/
inductive FlowRequest where
  | nothing
  | set_position (file : Option Nat) (pos : Nat)
  | send_alarm (value : ℚ)
  deriving DecidableEq

/-- The conversion `(uint32_t)value`. -/
def uint32_of (value : ℚ) : Nat := ⌊value⌋.toNat % 2 ^ 32

namespace Context

/-- The skip flag that goes with the context. -/
def skipping (context : Context) : Bool := context.head?.any (·.skip)

def last_op (context : Context) : ngc_cmd_t := (context.head?.map (·.operation)).getD Op_NoOp

/-- Pull everything that lies on the block `o_label`. -/
def unwind_to (o_label : Nat) (context : Context) : Context := context.dropWhile (·.o_label ≠ o_label)

end Context

namespace FlowEnv

variable (env : FlowEnv)

/-- `Job::active`. -/
def active : Bool := env.source.isSome

def do_if (o_label : Nat) (arg : String) (context : Context) : Except Error (Context × FlowRequest) :=
  if context.skipping then .ok (context, .nothing)
  else do
    let value ← env.expression arg
    return ({
      o_label := o_label, operation := Op_If, file := env.source, skip := value = 0,
      handled := value ≠ 0 } :: context, .nothing)

def do_elseif (o_label : Nat) (arg : String) (context : Context) : Except Error (Context × FlowRequest) :=
  match context with
  | top :: rest =>
    if top.operation = Op_If ∨ top.operation = Op_ElseIf then
      if o_label = top.o_label then
        if top.handled then .ok ({ top with skip := true } :: rest, .nothing)
        else do
          let value ← env.expression arg
          if value ≠ 0 then
            return ({ top with skip := false, operation := Op_ElseIf, handled := true } :: rest, .nothing)
          else return ({ top with skip := true } :: rest, .nothing)
      else .ok (context, .nothing)
    else if top.skip then .ok (context, .nothing)
    else .error .FlowControlSyntaxError
  | [] => .error .FlowControlSyntaxError

def do_else (o_label : Nat) (context : Context) : Except Error (Context × FlowRequest) :=
  match context with
  | top :: rest =>
    if top.operation = Op_If ∨ top.operation = Op_ElseIf then
      if o_label = top.o_label then
        if top.handled then .ok ({ top with skip := true } :: rest, .nothing)
        else .ok ({ top with skip := false, operation := Op_Else } :: rest, .nothing)
      else .ok (context, .nothing)
    else if top.skip then .ok (context, .nothing)
    else .error .FlowControlSyntaxError
  | [] => .error .FlowControlSyntaxError

def do_endif (o_label : Nat) (context : Context) : Except Error (Context × FlowRequest) :=
  match context with
  | top :: rest =>
    if top.operation = Op_If ∨ top.operation = Op_ElseIf ∨ top.operation = Op_Else then
      .ok (if o_label = top.o_label then rest else context, .nothing)
    else if top.skip then .ok (context, .nothing)
    else .error .FlowControlSyntaxError
  | [] => .error .FlowControlSyntaxError

def do_do (o_label : Nat) (context : Context) : Except Error (Context × FlowRequest) :=
  if env.active then
    if context.skipping then .ok (context, .nothing)
    else .ok ({
      o_label := o_label, operation := Op_Do, file := env.source, file_pos := env.position,
      skip := false } :: context, .nothing)
  else .error .FlowControlNotExecutingMacro

/-- WHILE closes a DO block, or else opens a block of its own. -/
def do_while (o_label : Nat) (arg : String) (context : Context) : Except Error (Context × FlowRequest) :=
  if env.active then
    match context with
    | top :: rest =>
      if top.brk then
        .ok (if top.operation = Op_Do ∧ o_label = top.o_label then rest else context, .nothing)
      else if top.skip then .ok (context, .nothing)
      else do
        let value ← env.expression arg
        if top.operation = Op_Do then
          if o_label = top.o_label then
            if value ≠ 0 then return (context, .set_position top.file top.file_pos) else return (rest, .nothing)
          else return (context, .nothing)
        else return (push value :: context, .nothing)
    | [] => do
      let value ← env.expression arg
      return ([push value], .nothing)
  else .error .FlowControlNotExecutingMacro
where
  push (value : ℚ) : ngc_stack_entry_t :=
    if value ≠ 0 then {
      o_label := o_label, operation := Op_While, file := env.source, file_pos := env.position,
      expr := arg, skip := false }
    else { o_label := o_label, operation := Op_While, file := env.source, skip := true }

/-- What ENDWHILE does with the loop on top, and CONTINUE as well. -/
def again_while (top : ngc_stack_entry_t) (rest : Context) : Except Error (Context × FlowRequest) :=
  if top.skip then .ok (rest, .nothing)
  else do
    let value ← env.expression top.expr
    if value ≠ 0 then return (top :: rest, .set_position top.file top.file_pos) else return (rest, .nothing)

def do_endwhile (o_label : Nat) (context : Context) : Except Error (Context × FlowRequest) :=
  if env.active then
    match context with
    | top :: rest =>
      if top.operation = Op_While then
        if ¬ top.skip ∧ o_label = top.o_label then env.again_while top rest else .ok (context, .nothing)
      else if top.skip then .ok (context, .nothing)
      else .error .FlowControlSyntaxError
    | [] => .error .FlowControlSyntaxError
  else .error .FlowControlNotExecutingMacro

def do_repeat (o_label : Nat) (arg : String) (context : Context) : Except Error (Context × FlowRequest) :=
  if env.active then
    if context.skipping then .ok (context, .nothing)
    else do
      let value ← env.expression arg
      if value ≠ 0 then
        return ({
          o_label := o_label, operation := Op_Repeat, file := env.source, file_pos := env.position,
          repeats := uint32_of value, skip := false } :: context, .nothing)
      else
        return ({ o_label := o_label, operation := Op_Repeat, file := env.source, skip := true } :: context, .nothing)
  else .error .FlowControlNotExecutingMacro

/-- What ENDREPEAT does with the loop on top, and CONTINUE as well. -/
def again_repeat (top : ngc_stack_entry_t) (rest : Context) : Context × FlowRequest :=
  if top.repeats ≠ 0 ∧ top.repeats - 1 ≠ 0 then
    ({ top with repeats := top.repeats - 1 } :: rest, .set_position top.file top.file_pos)
  else (rest, .nothing)

def do_endrepeat (o_label : Nat) (context : Context) : Except Error (Context × FlowRequest) :=
  if env.active then
    match context with
    | top :: rest =>
      if top.operation = Op_Repeat then
        .ok (if o_label = top.o_label then again_repeat top rest else (context, .nothing))
      else if top.skip then .ok (context, .nothing)
      else .error .FlowControlSyntaxError
    | [] => .error .FlowControlSyntaxError
  else .error .FlowControlNotExecutingMacro

/-- BREAK. The operation is read from the top of the stack only when the stack is empty,
where the source reads beyond it: nothing is found there. -/
def do_break (o_label : Nat) (context : Context) : Except Error (Context × FlowRequest) :=
  if env.active then
    if context.skipping then .ok (context, .nothing)
    else
      let context := context.unwind_to o_label
      let last_op := if context ≠ [] then Op_NoOp else context.last_op
      if last_op = Op_Do ∨ last_op = Op_While ∨ last_op = Op_Repeat then
        match context with
        | top :: rest => .ok ({ top with repeats := 0, brk := true, skip := true, handled := true } :: rest, .nothing)
        | [] => .ok (context, .nothing)
      else .error .FlowControlSyntaxError
  else .error .FlowControlNotExecutingMacro

/-- BREAK fails in every block: once the stack is not empty the operation is not read, and from an
empty one there is none to read. -/
theorem do_break_fails {o_label : Nat} {context : Context} (hactive : env.active = true)
    (hskip : context.skipping = false) : env.do_break o_label context = .error .FlowControlSyntaxError := by
  have hnone : (if context.unwind_to o_label ≠ [] then Op_NoOp else (context.unwind_to o_label).last_op) = Op_NoOp := by
    by_cases h : context.unwind_to o_label = []
    · rw [if_neg (not_not.mpr h), h]
      rfl
    · rw [if_pos h]
  unfold do_break
  rw [if_pos hactive, hskip, if_neg Bool.false_ne_true]
  dsimp only
  rw [hnone, if_neg (by decide)]

/-- What CONTINUE does with the block it names, once that is on top. -/
def again (top : ngc_stack_entry_t) (rest : Context) : Except Error (Context × FlowRequest) :=
  match top.operation with
  | Op_Repeat => .ok (again_repeat top rest)
  | Op_Do => .ok (top :: rest, .set_position top.file top.file_pos)
  | Op_While => env.again_while top rest
  | _ => .error .FlowControlSyntaxError

def do_continue (o_label : Nat) (context : Context) : Except Error (Context × FlowRequest) :=
  if env.active then
    if context.skipping then .ok (context, .nothing)
    else
      match context.unwind_to o_label with
      | top :: rest => env.again top rest
      | [] => .error .FlowControlSyntaxError
  else .error .FlowControlNotExecutingMacro

/-- The switch of `flowcontrol`. -/
def perform (o_label : Nat) (operation : ngc_cmd_t) (arg : String) (context : Context) :
    Except Error (Context × FlowRequest) :=
  match operation with
  | Op_If => env.do_if o_label arg context
  | Op_ElseIf => env.do_elseif o_label arg context
  | Op_Else => do_else o_label context
  | Op_EndIf => do_endif o_label context
  | Op_Do => env.do_do o_label context
  | Op_While => env.do_while o_label arg context
  | Op_EndWhile => env.do_endwhile o_label context
  | Op_Repeat => env.do_repeat o_label arg context
  | Op_EndRepeat => env.do_endrepeat o_label context
  | Op_Break => env.do_break o_label context
  | Op_Continue => env.do_continue o_label context
  | Op_RaiseAlarm =>
    if context.skipping then .ok (context, .nothing)
    else
      match env.expression arg with
      | .ok value => .ok (context, .send_alarm value)
      | .error _ => .ok (context, .nothing)
  | Op_RaiseError =>
    if context.skipping then .ok (context, .nothing)
    else
      match env.expression arg with
      | .ok value => if env.error_of value = .Ok then .ok (context, .nothing) else .error (env.error_of value)
      | .error _ => .ok (context, .nothing)
  | Op_Return => if env.active then .ok (context, .nothing) else .error .FlowControlNotExecutingMacro
  | Op_NoOp => .error .FlowControlSyntaxError

end FlowEnv

/-- The flow control: the context stack and `gc_state.skip_blocks`. -/
structure Flow where
  context : Context := []
  skip_blocks : Bool := false
  deriving DecidableEq

/-- An O-word with what follows it, in capital letters and without blanks. `commented` says that the
line as it came in has a comment. -/
structure OWord where
  o_label : Nat
  command : String
  arg : String := ""
  commented : Bool := false
  deriving DecidableEq

namespace Flow

/-- `flowcontrol`. Any error but an unknown command clears the context stack. -/
def flowcontrol (env : FlowEnv) (word : OWord) (flow : Flow) : Error × Flow × FlowRequest :=
  match read_command word.command with
  | none => (.FlowControlSyntaxError, flow, .nothing)
  | some operation =>
    match env.perform word.o_label operation word.arg flow.context with
    | .error status => (status, {}, .nothing)
    | .ok (context, request) => (.Ok, { context := context, skip_blocks := context.skipping }, request)

/-- `gc_execute_line` with a line that begins with an O-word. While blocks are skipped a comment
takes the whole line with it. -/
def execute_oword (env : FlowEnv) (word : OWord) (flow : Flow) : Error × Flow × FlowRequest :=
  if flow.skip_blocks ∧ word.commented then (.Ok, flow, .nothing) else flow.flowcontrol env word

end Flow

end DuneWeaver
