import DuneWeaver.Types
import DuneWeaver.Channel.Utf8

namespace DuneWeaver

/-- `Cmd`, the realtime command characters. -/
inductive Cmd where
  | Reset
  | StatusReport
  | CycleStart
  | FeedHold
  | SafetyDoor
  | JogCancel
  | DebugReport
  | Macro0
  | Macro1
  | Macro2
  | Macro3
  | FeedOvrReset
  | FeedOvrCoarsePlus
  | FeedOvrCoarseMinus
  | FeedOvrFinePlus
  | FeedOvrFineMinus
  | RapidOvrReset
  | RapidOvrMedium
  | RapidOvrLow
  | RapidOvrExtraLow
  | SpindleOvrReset
  | SpindleOvrCoarsePlus
  | SpindleOvrCoarseMinus
  | SpindleOvrFinePlus
  | SpindleOvrFineMinus
  | SpindleOvrStop
  | StopJob
  | CoolantFloodOvrToggle
  | CoolantMistOvrToggle
  deriving DecidableEq

namespace Cmd

def code : Cmd → UInt8
  | Reset => 0x18
  | StatusReport => 0x3f
  | CycleStart => 0x7e
  | FeedHold => 0x21
  | SafetyDoor => 0x84
  | JogCancel => 0x85
  | DebugReport => 0x86
  | Macro0 => 0x87
  | Macro1 => 0x88
  | Macro2 => 0x89
  | Macro3 => 0x8a
  | FeedOvrReset => 0x90
  | FeedOvrCoarsePlus => 0x91
  | FeedOvrCoarseMinus => 0x92
  | FeedOvrFinePlus => 0x93
  | FeedOvrFineMinus => 0x94
  | RapidOvrReset => 0x95
  | RapidOvrMedium => 0x96
  | RapidOvrLow => 0x97
  | RapidOvrExtraLow => 0x98
  | SpindleOvrReset => 0x99
  | SpindleOvrCoarsePlus => 0x9a
  | SpindleOvrCoarseMinus => 0x9b
  | SpindleOvrFinePlus => 0x9c
  | SpindleOvrFineMinus => 0x9d
  | SpindleOvrStop => 0x9e
  | StopJob => 0x9f
  | CoolantFloodOvrToggle => 0xa0
  | CoolantMistOvrToggle => 0xa1

/-- The enumerators of `Cmd` but `None`, for which nothing is done. -/
def all : List Cmd :=
  [Reset, StatusReport, CycleStart, FeedHold, SafetyDoor, JogCancel, DebugReport, Macro0, Macro1,
    Macro2, Macro3, FeedOvrReset, FeedOvrCoarsePlus, FeedOvrCoarseMinus, FeedOvrFinePlus,
    FeedOvrFineMinus, RapidOvrReset, RapidOvrMedium, RapidOvrLow, RapidOvrExtraLow, SpindleOvrReset,
    SpindleOvrCoarsePlus, SpindleOvrCoarseMinus, SpindleOvrFinePlus, SpindleOvrFineMinus,
    SpindleOvrStop, StopJob, CoolantFloodOvrToggle, CoolantMistOvrToggle]

/-- The enumerator of a code, if there is one. -/
def ofCode (code : UInt8) : Option Cmd := all.find? fun cmd => cmd.code = code

@[simp] theorem ofCode_code (cmd : Cmd) : ofCode cmd.code = some cmd := by
  cases cmd <;> rfl

/-- The ASCII characters among the commands. The others are extended codes. -/
def ascii (cmd : Cmd) : Bool := cmd.code < 0x80

end Cmd

/-- `is_realtime_command`. -/
def is_realtime_command (data : UInt8) : Bool :=
  data ≥ 0x80 || data = Cmd.Reset.code || data = Cmd.StatusReport.code ||
    data = Cmd.CycleStart.code || data = Cmd.FeedHold.code

/-- What a realtime command does: a status report, or an event sent to the main
task, with its argument. -/
inductive RtAction where
  | report_realtime_status
  | rtReset
  | cycleStart
  | feedHold
  | safetyDoor
  | motionCancel
  | debugReport
  | stopJob
  | accessoryOverride (arg : Int)
  | feedOverride (arg : Int)
  | rapidOverride (arg : Int)
  | spindleOverride (arg : Int)
  | doMacro (number : Nat)
  deriving DecidableEq

/-- Act upon a realtime character. A jog cancel is for `Jog` only. -/
def execute_realtime_command (state : State) (command : Cmd) : Option RtAction :=
  match command with
  | .Reset => some .rtReset
  | .StatusReport => some .report_realtime_status
  | .CycleStart => some .cycleStart
  | .FeedHold => some .feedHold
  | .SafetyDoor => some .safetyDoor
  | .JogCancel => if state = .Jog then some .motionCancel else none
  | .DebugReport => some .debugReport
  | .SpindleOvrStop => some (.accessoryOverride 1)
  | .StopJob => some .stopJob
  | .FeedOvrReset => some (.feedOverride 100)
  | .FeedOvrCoarsePlus => some (.feedOverride 10)
  | .FeedOvrCoarseMinus => some (.feedOverride (-10))
  | .FeedOvrFinePlus => some (.feedOverride 1)
  | .FeedOvrFineMinus => some (.feedOverride (-1))
  | .RapidOvrReset => some (.rapidOverride 100)
  | .RapidOvrMedium => some (.rapidOverride 50)
  | .RapidOvrLow => some (.rapidOverride 25)
  | .RapidOvrExtraLow => some (.rapidOverride 5)
  | .SpindleOvrReset => some (.spindleOverride 100)
  | .SpindleOvrCoarsePlus => some (.spindleOverride 10)
  | .SpindleOvrCoarseMinus => some (.spindleOverride (-10))
  | .SpindleOvrFinePlus => some (.spindleOverride 1)
  | .SpindleOvrFineMinus => some (.spindleOverride (-1))
  | .CoolantFloodOvrToggle => some (.accessoryOverride 2)
  | .CoolantMistOvrToggle => some (.accessoryOverride 3)
  | .Macro0 => some (.doMacro 0)
  | .Macro1 => some (.doMacro 1)
  | .Macro2 => some (.doMacro 2)
  | .Macro3 => some (.doMacro 3)

/-- What a decoded realtime character means to a channel. A command is the code
that `execute_realtime_command` is called with. -/
inductive RtInput where
  | ack
  | nak
  | pin_event (number : Nat) (active : Bool)
  | command (code : UInt8)
  deriving DecidableEq

/-- A `Channel`. `rx` holds the bytes `read()` has still to return; for the base
class there are none. -/
structure Channel where
  line : Bytes := []
  lastWasCR : Bool := false
  queue : List UInt8 := []
  utf8 : UTF8 := {}
  ackwait : Bool := false
  active : Bool := true
  paused : Bool := false
  rx : List UInt8 := []
  deriving DecidableEq

namespace Channel

def maxLine : Nat := 255

def maxRxQueue : Nat := 1024

def PinACK : Nat := 0xb2
def PinNAK : Nat := 0xb3
def PinLowFirst : Nat := 0x100
def PinLowLast : Nat := 0x13f
def PinHighFirst : Nat := 0x140
def PinHighLast : Nat := 0x17f

/-- Accumulate a character into the line. The line comes out when a line end is
seen, as far as `strcpy` copies it. -/
def lineComplete (c : Channel) (ch : UInt8) : Channel × Option Bytes :=
  if ch = 0x0a then
    if c.lastWasCR then ({ c with lastWasCR := false }, none)
    else ({ c with line := [] }, some (c_str c.line))
  else if ch = 0x0d then ({ c with lastWasCR := true, line := [] }, some (c_str c.line))
  else if ch = 0x08 then ({ c with lastWasCR := false, line := c.line.dropLast }, none)
  else if c.line.length < maxLine - 1 then ({ c with lastWasCR := false, line := c.line ++ [ch] }, none)
  else ({ c with lastWasCR := false }, none)

/-- The value is cut down to the byte that `Cmd` is. -/
def realtimeInput (c : Channel) (cmd : Nat) : Channel × Option RtInput :=
  if cmd = PinACK then ({ c with ackwait := false }, some .ack)
  else if cmd = PinNAK then ({ c with ackwait := false }, some .nak)
  else if PinLowFirst ≤ cmd ∧ cmd < PinLowLast then (c, some (.pin_event (cmd - PinLowFirst) false))
  else if PinHighFirst ≤ cmd ∧ cmd < PinHighLast then (c, some (.pin_event (cmd - PinHighFirst) true))
  else (c, some (.command (UInt8.ofNat cmd)))

def handleRealtimeCharacter (c : Channel) (ch : UInt8) : Channel × Option RtInput :=
  if ch &&& 0xf8 = 0xf8 then (c, none)
  else
    match c.utf8.decode ch with
    | (utf8, .error) => ({ c with utf8, active := false }, none)
    | (utf8, .pending) => ({ c with utf8 }, none)
    | (utf8, .value cmd) => { c with utf8, active := true }.realtimeInput cmd

def enqueue (c : Channel) (byte : UInt8) : Channel :=
  if c.queue.length < maxRxQueue then { c with queue := c.queue ++ [byte] } else c

def push (c : Channel) (byte : UInt8) : Channel × Option RtInput :=
  if is_realtime_command byte then c.handleRealtimeCharacter byte else (c.enqueue byte, none)

/-- What a call of `pollLine` comes to. The line is what it has put into the
caller's buffer. -/
structure Polled where
  channel : Channel
  realtime : List RtInput := []
  line : Option Bytes := none
  status : Error := .NoData

/-- The loop of `pollLine(nullptr)`. The bytes are those of `rx`. -/
def stash (c : Channel) : List UInt8 → Polled
  | [] => { channel := { c with rx := [] } }
  | ch :: rx =>
    let c := { c with active := true }
    if is_realtime_command ch then
      let (c, input) := c.handleRealtimeCharacter ch
      let polled := c.stash rx
      { polled with realtime := input.toList ++ polled.realtime }
    else (c.enqueue ch).stash rx

/-- The loop of `pollLine(line)` once the queue is empty. -/
def collect (c : Channel) : List UInt8 → Polled
  | [] => { channel := { c with rx := [] } }
  | ch :: rx =>
    let c := { c with active := true }
    if is_realtime_command ch then
      let (c, input) := c.handleRealtimeCharacter ch
      let polled := c.collect rx
      { polled with realtime := input.toList ++ polled.realtime }
    else
      match c.lineComplete ch with
      | (c, some line) => { channel := { c with rx }, line := some line, status := .Ok }
      | (c, none) => c.collect rx

/-- The loop of `pollLine(line)`. The bytes are those of the queue. -/
def drain (c : Channel) : List UInt8 → Polled
  | [] => { c with queue := [] }.collect c.rx
  | ch :: queue =>
    match c.lineComplete ch with
    | (c, some line) => { channel := { c with queue }, line := some line, status := .Ok }
    | (c, none) => c.drain queue

/-- `pollLine(line)` if `accepts`, else `pollLine(nullptr)`. -/
def pollLine (c : Channel) (accepts : Bool) : Polled :=
  if c.paused then { channel := c, status := .Ok }
  else if accepts then c.drain c.queue
  else c.stash c.rx

end Channel

end DuneWeaver
