import DuneWeaver.Bytes
import DuneWeaver.Json.Text

namespace DuneWeaver

/-- The kinds of channel that treat `out_acked` differently: the base class, and
the two that override it. -/
inductive OutChannel where
  | Channel
  | UartChannel
  | WebClient
  deriving DecidableEq

/-- What goes out on a channel: a line with the line end added to it, or a piece
whose text the receiver splices to that of the pieces around it. -/
inductive Sent where
  | line (s : Bytes)
  | spliced (s : Bytes)
  deriving DecidableEq

def Sent.text : Sent → Bytes
  | .line s => s ++ [0x0a]
  | .spliced s => s

/-- `log_stream`: a line that begins with a bracket is closed with one. -/
def log_stream (s : Bytes) : Sent := .line (if s.head? = some 0x5b then s ++ [0x5d] else s)

/-- The base class drops the tag and sends a line. A UART wraps the piece in
`[JSON:` and `]`, and a web client writes it as it is. -/
def OutChannel.out_acked : OutChannel → Bytes → Sent
  | .Channel, s => .line s
  | .UartChannel, s => .spliced s
  | .WebClient, s => .spliced s

/-- The text half of a `JSONencoder`. `sent` is what its channel has been given. -/
structure Output where
  _encapsulate : Bool
  _channel : Option OutChannel
  _str : Bytes := []
  sent : List Sent := []
  deriving DecidableEq

namespace Output

def flush (o : Output) : Output :=
  match o._channel with
  | some channel =>
    if o._str = [] then o
    else
      { o with
        sent := o.sent ++ [if o._encapsulate then channel.out_acked o._str else log_stream o._str]
        _str := [] }
  | none => o

def add (o : Output) (c : UInt8) : Output :=
  let o := { o with _str := o._str ++ [c] }
  if o._channel.isSome ∧ 100 ≤ o._str.length then o.flush else o

/-- One character of a quoted string. -/
def escape (o : Output) (c : UInt8) : Output :=
  if c = 0x08 then (o.add 0x5c).add 0x62
  else if c = 0x0a then (o.add 0x5c).add 0x6e
  else if c = 0x0c then (o.add 0x5c).add 0x66
  else if c = 0x0d then (o.add 0x5c).add 0x72
  else if c = 0x09 then (o.add 0x5c).add 0x74
  else if c = 0x22 then (o.add 0x5c).add 0x22
  else if c = 0x5c then (o.add 0x5c).add c
  else o.add c

/-- The loop stops at the first NUL. -/
def quoted (o : Output) (s : Bytes) : Output := ((c_str s).foldl escape (o.add 0x22)).add 0x22

/-- `for (int i = 0; i < 2 * level; i++)`. -/
def indent (o : Output) (level : Int) : Output := (List.replicate (2 * level).toNat 0x20).foldl add o

def line (o : Output) (level : Int) : Output :=
  if o._channel.isSome then
    if o._encapsulate then o
    else ({ o with sent := o.sent ++ [log_stream o._str], _str := [] } : Output).indent level
  else (o.add 0x0a).indent level

/-- The text at the other end of the channel, or in the string. -/
def received (o : Output) : Bytes := o.sent.flatMap Sent.text ++ if o._channel.isSome then [] else o._str

end Output

def MAX_JSON_LEVEL : Int := 16

structure JSONencoder extends Output where
  level : Int
  count : Int → Nat

namespace JSONencoder

/-- Both constructors set `count[0]` only. `memory` is what stands in the rest. -/
def new (memory : Int → Nat) (_encapsulate : Bool) (_channel : Option OutChannel) : JSONencoder where
  _encapsulate
  _channel
  level := 0
  count := Function.update memory 0 0

/-- The encoder after a change to its text. -/
def text (e : JSONencoder) (f : Output → Output) : JSONencoder := { e with toOutput := f e.toOutput }

/-- There is no result where `count` is read outside its bounds. -/
def comma_line (e : JSONencoder) : Option JSONencoder :=
  if 0 ≤ e.level ∧ e.level < MAX_JSON_LEVEL then
    let e := if e.count e.level ≠ 0 then e.text fun o => (o.add 0x2c).line e.level else e
    some { e with count := Function.update e.count e.level (e.count e.level + 1) }
  else none

/-- Every caller has been through `comma_line`, so the index is within bounds. -/
def inc_level (e : JSONencoder) : JSONencoder :=
  let level := if e.level + 1 = MAX_JSON_LEVEL then e.level + 1 - 1 else e.level + 1
  { e with level, count := Function.update e.count level 0 }

def dec_level (e : JSONencoder) : JSONencoder := { e with level := e.level - 1 }

def string (e : JSONencoder) (s : Bytes) : Option JSONencoder := do
  let e ← e.comma_line
  return e.text (·.quoted s)

def begin_member (e : JSONencoder) (tag : Bytes) : Option JSONencoder := do
  let e ← e.comma_line
  return e.text fun o => (o.quoted tag).add 0x3a

def begin_array (e : JSONencoder) (tag : Bytes) : Option JSONencoder := do
  let e ← e.begin_member tag
  let e := (e.text (·.add 0x5b)).inc_level
  return e.text (·.line e.level)

def end_array (e : JSONencoder) : JSONencoder :=
  let e := e.dec_level
  e.text fun o => (o.line e.level).add 0x5d

def begin_member_object (e : JSONencoder) (tag : Bytes) : Option JSONencoder := do
  let e ← e.comma_line
  return (e.text fun o => ((o.quoted tag).add 0x3a).add 0x7b).inc_level

def begin_object (e : JSONencoder) : Option JSONencoder := do
  let e ← e.comma_line
  return (e.text (·.add 0x7b)).inc_level

def end_object (e : JSONencoder) : JSONencoder :=
  let e := e.dec_level
  e.text fun o => (o.line e.level).add 0x7d

/-- Both overloads: the `std::string` one passes `value.c_str()`. -/
def member (e : JSONencoder) (tag value : Bytes) : Option JSONencoder := do
  let e ← e.begin_member tag
  return e.text (·.quoted value)

def end_ (e : JSONencoder) : JSONencoder :=
  let e := e.end_object
  e.text fun o => (o.line e.level).flush

end JSONencoder

/-- A call between `begin` and `end`. -/
inductive Call where
  | begin_object
  | end_object
  | begin_array (tag : Bytes)
  | end_array
  | begin_member_object (tag : Bytes)
  | begin_member (tag : Bytes)
  | member (tag value : Bytes)
  | string (s : Bytes)
  deriving DecidableEq

def JSONencoder.call (e : JSONencoder) : Call → Option JSONencoder
  | .begin_object => e.begin_object
  | .end_object => some e.end_object
  | .begin_array tag => e.begin_array tag
  | .end_array => some e.end_array
  | .begin_member_object tag => e.begin_member_object tag
  | .begin_member tag => e.begin_member tag
  | .member tag value => e.member tag value
  | .string s => e.string s

/-- What is received of the calls between `begin` and `end`. -/
def encode (memory : Int → Nat) (_encapsulate : Bool) (_channel : Option OutChannel) (calls : List Call) :
    Option Bytes := do
  let e ← (JSONencoder.new memory _encapsulate _channel).begin_object
  let e ← calls.foldlM JSONencoder.call e
  return e.end_.received

mutual

/-- The trees the calls can express. An object named through `begin_member` and
one begun by `begin_member_object` are the same object written in two ways. -/
inductive Members where
  | nil
  | member (tag value : Bytes) (rest : Members)
  | array (tag : Bytes) (elements : Elements) (rest : Members)
  | member_object (tag : Bytes) (members : Members) (rest : Members)
  | named_object (tag : Bytes) (members : Members) (rest : Members)

inductive Elements where
  | nil
  | string (s : Bytes) (rest : Elements)
  | object (members : Members) (rest : Elements)

end

mutual

def Members.calls : Members → List Call
  | .nil => []
  | .member tag value rest => .member tag value :: rest.calls
  | .array tag elements rest => .begin_array tag :: elements.calls ++ .end_array :: rest.calls
  | .member_object tag members rest => .begin_member_object tag :: members.calls ++ .end_object :: rest.calls
  | .named_object tag members rest =>
    .begin_member tag :: .begin_object :: members.calls ++ .end_object :: rest.calls

def Elements.calls : Elements → List Call
  | .nil => []
  | .string s rest => .string s :: rest.calls
  | .object members rest => .begin_object :: members.calls ++ .end_object :: rest.calls

end

mutual

/-- The tree as JSON. -/
def Members.json : Members → Json.Members
  | .nil => .nil
  | .member tag value rest => .cons tag (.string value) rest.json
  | .array tag elements rest => .cons tag (.array elements.json) rest.json
  | .member_object tag members rest => .cons tag (.object members.json) rest.json
  | .named_object tag members rest => .cons tag (.object members.json) rest.json

def Elements.json : Elements → Json.Elements
  | .nil => .nil
  | .string s rest => .cons (.string s) rest.json
  | .object members rest => .cons (.object members.json) rest.json

end

end DuneWeaver
