import Mathlib.Tactic.Common

namespace DuneWeaver

/-- The machine state `sys.state`. -/
inductive State where
  | Idle
  | Alarm
  | CheckMode
  | Homing
  | Cycle
  | Hold
  | Jog
  | SafetyDoor
  | Sleep
  | ConfigAlarm
  | Critical
  deriving DecidableEq

/-- The result codes of the modelled handlers. -/
inductive Error where
  | Ok
  | NoData
  | Eof
  | IdleError
  | BadNumberFormat
  | InvalidStatement
  | NumberRange
  | InvalidValue
  | LineLengthExceeded
  | GcodeUnsupportedCommand
  | FlowControlSyntaxError
  | FlowControlNotExecutingMacro
  | ExpressionUnknownOp
  | ExpressionSyntaxError
  | NvsSetFailed
  | ReadOnlySetting
  deriving DecidableEq

/-- The events of the event queue. The handlers of the first five are modelled;
`doMacro` stands for the four macro events and `other` for the rest. -/
inductive Event where
  | feedHold
  | cycleStart
  | stopJob
  | cycleStop
  | motionCancel
  | doMacro
  | other
  deriving DecidableEq

/-- Any state in which a job cannot be started and a request is rejected. -/
def inAlarmState (state : State) : Bool :=
  state = .Alarm || state = .ConfigAlarm || state = .Critical

/-- `LINE_BUFFER_SIZE`. -/
def LINE_BUFFER_SIZE : Nat := 256

end DuneWeaver
