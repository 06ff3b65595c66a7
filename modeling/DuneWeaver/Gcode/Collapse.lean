import Mathlib.Data.List.Infix
import DuneWeaver.Settings.Setting
import DuneWeaver.Stores

namespace DuneWeaver

def toupper (c : UInt8) : UInt8 := if 0x61 ≤ c ∧ c ≤ 0x7a then c - 0x20 else c

/-- What `gcode_comment_msg` gets from elsewhere: `read_number` with the value of the parameter at a `#`,
if it has one, and the number of characters it has passed, and the text that `sprintf` makes of the
value with a format. -/
structure CommentEnv (V : Type*) where
  read_number : Bytes → Nat → Option V × Nat
  print : Bytes → V → Bytes

/-- What `gcode_comment_msg` logs. -/
inductive CommentLog where
  | msg (text : Bytes)
  | print (text : Bytes)
  | debug (text : Bytes)
  deriving DecidableEq

/-- The size of the message buffer. -/
def msgSize : Nat := 128

/-- The formats are `%d`, `%f` and `%.0f` to `%.9f`. The index is left at the last character of the format. -/
def decode_format_string (comment : Bytes) (index : Nat) : Option (Nat × Bytes) :=
  let f i := comment.getD (index + i) 0
  let rem := comment.length - index
  if rem > 1 ∧ f 1 = 0x64 then some (index + 1, bytes "%.0f")
  else if rem > 2 ∧ f 1 = 0x66 then some (index + 1, bytes "%.4f")
  else if rem > 3 ∧ f 1 = 0x2e ∧ 0x30 ≤ f 2 ∧ f 2 ≤ 0x39 ∧ f 3 = 0x66 then
    some (index + 3, (comment.drop index).take 4)
  else none

section Message

variable {V : Type*} (env : CommentEnv V)

/-- The loop of `gcode_comment_msg`. It stops in front of a store outside of the buffer. -/
def comment_loop (comment : Bytes) : Nat → Nat → Bytes → Bytes → Nat → Option (Bytes × Nat)
  | turns, index, format, msg, msgindex =>
    if index < comment.length then
      match turns with
      | 0 => none
      | turns + 1 =>
        let c := comment.getD index 0
        if c = 0x25 then
          match decode_format_string comment index with
          | some (index, format) => comment_loop comment turns (index + 1) format msg msgindex
          | none =>
            (store msg msgindex c).bind fun msg => comment_loop comment turns (index + 1) format msg (msgindex + 1)
        else if c = 0x23 then
          match env.read_number comment index with
          | (some number, passed) =>
            let text := env.print format number
            (store_all msg msgindex (text ++ [0])).bind fun msg =>
              comment_loop comment turns (index + passed + 1) format msg (msgindex + text.length)
          | (none, passed) =>
            (store msg msgindex c).bind fun msg =>
              comment_loop comment turns (index + passed + 1) format msg (msgindex + 1)
        else (store msg msgindex c).bind fun msg => comment_loop comment turns (index + 1) format msg (msgindex + 1)
    else some (msg, msgindex)

/-- `gcode_comment_msg` on the memory from the comment on, with what it logs. A message begins four characters
on, which is behind the NUL of a comment that is `MSG` alone. -/
def gcode_comment_msg (memory : Bytes) : Option (List CommentLog) :=
  let comment := c_str memory
  if bytes "MSG" <:+: comment then some [.msg (c_str (memory.drop 4))]
  else
    let isdebug := (comment.take 6).map toupper = bytes "DEBUG,"
    if isdebug ∨ (comment.take 6).map toupper = bytes "PRINT," then
      (comment_loop env comment comment.length 6 (bytes "%lf") (List.replicate msgSize 0) 0).bind fun (msg, msgindex) =>
        (store msg msgindex 0).map fun msg => [if isdebug then .debug (c_str msg) else .print (c_str msg)]
    else some []

/-- The line while it is edited in place, with the messages that have come and whether a `%` has. -/
structure Collapse where
  line : Bytes
  outPtr : Nat := 0
  parenPtr : Option Nat := none
  log : List CommentLog := []
  percent : Bool := false
  deriving DecidableEq

/-- The message of the comment that begins at `parenPtr`. -/
def Collapse.comment_msg (s : Collapse) : Option Collapse :=
  match s.parenPtr with
  | none => some s
  | some parenPtr =>
    (gcode_comment_msg env (s.line.drop parenPtr)).map fun log => { s with log := s.log ++ log }

/-- End the line at `i`. -/
def Collapse.finish (s : Collapse) (i : Nat) : Option Collapse :=
  (store s.line i 0).map fun line => { s with line }

/-- The loop of `collapseGCode`, with `inPtr` as an index. -/
def collapse_loop (skip_blocks : Bool) : Nat → Nat → Collapse → Option Collapse
  | turns, inPtr, s =>
    let c := s.line.getD inPtr 0
    if c = 0 then (s.comment_msg env).bind fun s => s.finish s.outPtr
    else
      match turns with
      | 0 => none
      | turns + 1 =>
        if isspace c then collapse_loop skip_blocks turns (inPtr + 1) s
        else if c = 0x29 then
          if s.parenPtr.isSome then
            (s.finish inPtr).bind fun s => (s.comment_msg env).bind fun s =>
              collapse_loop skip_blocks turns (inPtr + 1) { s with parenPtr := none }
          else collapse_loop skip_blocks turns (inPtr + 1) s
        else if c = 0x28 then
          if skip_blocks then s.finish 0
          else collapse_loop skip_blocks turns (inPtr + 1) { s with parenPtr := some (inPtr + 1) }
        else if c = 0x3b then
          if skip_blocks then s.finish 0 else s.finish s.outPtr
        else if c = 0x25 then collapse_loop skip_blocks turns (inPtr + 1) { s with percent := true }
        else if s.parenPtr.isNone then
          (store s.line s.outPtr (toupper c)).bind fun line =>
            collapse_loop skip_blocks turns (inPtr + 1) { s with line, outPtr := s.outPtr + 1 }
        else collapse_loop skip_blocks turns (inPtr + 1) s

/-- `collapseGCode` on a buffer. -/
def collapseGCode (skip_blocks : Bool) (line : Bytes) : Option Collapse :=
  collapse_loop env skip_blocks line.length 0 { line }

end Message

end DuneWeaver
