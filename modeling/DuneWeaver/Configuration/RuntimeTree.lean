import DuneWeaver.Configuration.RuntimeSetting

open Binary32 (Value)

namespace DuneWeaver.Configuration

inductive UartData where
  | Bits5
  | Bits6
  | Bits7
  | Bits8

inductive UartParity where
  | None
  | Even
  | Odd

inductive UartStop where
  | Bits1
  | Bits1_5
  | Bits2

structure UartMode where
  wordLength : UartData
  parity : UartParity
  stopBits : UartStop

/-- An item as `RuntimeSetting` is called with it: its value, and what else its function reads. -/
inductive RuntimeItem where
  | bool (value : Bool)
  | ranged (item : RangedItem)
  | uint8 (minValue maxValue value : UInt8)
  | speeds (value : List Parser.SpeedEntry)
  | floats (value : List Value)
  | uart (mode : UartMode)
  | string (value : Bytes)
  | pin (name : Bytes)
  | macroItem (gcode : Bytes)
  | ip (value : UInt32)
  | enum (e : EnumItems) (value : Int32)

/-- What is called of the standard library and the framework: `strtod` with its number as a `float` and what is behind
it, and `IPAddress::fromString`. -/
structure Library where
  strtod : Bytes → Value × Bytes
  fromString : Bytes → Option UInt32

section Lists

variable (lib : Library)

theorem length_behind_space_lt {s : Bytes} (h : s ≠ []) : (s.dropWhile (· ≠ 0x20)).tail.length < s.length := by
  have hle : (s.dropWhile (· ≠ 0x20)).length ≤ s.length := (List.dropWhile_suffix _).length_le
  have hpos := List.length_pos_iff.mpr h
  rw [List.length_tail]
  omega

/-- The loop over a speed map. -/
def speedMap (newStr : Bytes) (smValue : List Parser.SpeedEntry) : Except Bytes (List Parser.SpeedEntry) :=
  if newStr = [] then .ok smValue
  else
    let entryStr := newStr.takeWhile (· ≠ 0x20)
    if 0x3d ∉ entryStr then .error (bytes "Bad speed map entry")
    else
      let speed := .ofInt (atoi (entryStr.takeWhile (· ≠ 0x3d))).toInt
      let percent := (lib.strtod (entryStr.dropWhile (· ≠ 0x3d)).tail).1
      speedMap (newStr.dropWhile (· ≠ 0x20)).tail (smValue ++ [⟨speed, percent⟩])
termination_by newStr.length
decreasing_by exact length_behind_space_lt (by assumption)

/-- The loop over an array of floats. -/
def floatList (newStr : Bytes) (smValue : List Value) : Except Bytes (List Value) :=
  if trim newStr = [] then .ok smValue
  else
    let entryStr := (trim newStr).takeWhile (· ≠ 0x20)
    if (lib.strtod entryStr).2 ≠ [] then .error (bytes "Bad float value")
    else floatList ((trim newStr).dropWhile (· ≠ 0x20)).tail (smValue ++ [(lib.strtod entryStr).1])
termination_by newStr.length
decreasing_by
  exact (length_behind_space_lt (by assumption)).trans_le (Parser.length_trim_le newStr)

end Lists

section Uart

def UartData.ofBits (n : Int) : UartData :=
  if n = 5 then Bits5 else if n = 6 then Bits6 else if n = 7 then Bits7 else Bits8

/-- The mode that `decodeUartMode` leaves, and its message. A part that is read is stored before the next one is
looked at. -/
def decodeUartMode (str : Bytes) (mode : UartMode) : UartMode × Bytes :=
  let expected := bytes "Uart mode should be specified as [Bits Parity Stopbits] like [8N1]"
  let str := trim str
  if str.length = 5 ∨ str.length = 3 then
    match is_int (str.take 1) with
    | none => (mode, expected)
    | some wordLenInt =>
      if wordLenInt < 5 ∨ 8 < wordLenInt then
        (mode, bytes "Number of data bits for uart is out of range. Expected format like [8N1].")
      else
        let mode := { mode with wordLength := .ofBits wordLenInt.toInt }
        let parity : Option UartParity :=
          match (str.drop 1).head? with
          | some 0x4e | some 0x6e => some .None
          | some 0x4f | some 0x6f => some .Odd
          | some 0x45 | some 0x65 => some .Even
          | _ => none
        match parity with
        | none => (mode, expected)
        | some parity =>
          let mode := { mode with parity }
          let stop := str.drop 2
          if stop = bytes "1" then ({ mode with stopBits := .Bits1 }, [])
          else if stop = bytes "1.5" then ({ mode with stopBits := .Bits1_5 }, [])
          else if stop = bytes "2" then ({ mode with stopBits := .Bits2 }, [])
          else (mode, bytes "Uart stopbits can only be 1, 1.5 or 2. Syntax is [8N1]")
  else (mode, expected)

end Uart

/-- An item behind its function, the text that is left as the new value, and the message of an assertion that failed
there. -/
structure Stored where
  item : RuntimeItem
  newValue_ : Option Bytes
  failed : Option Bytes

namespace RuntimeItem

/-- The branch of an item's function that displays it. -/
def display : RuntimeItem → RuntimeItem
  -- the range of a `uint32_t` is looked at in either branch
  | ranged (.uint32 minValue maxValue value) =>
    ranged (.uint32 minValue maxValue (constrain_with_message value minValue maxValue))
  | it => it

/-- The value of an enumeration for an index or a name, and the name that stands for an index. -/
def enumValue (e : EnumItems) (newValue_ : Bytes) : Option (Int32 × Bytes) :=
  let indexed :=
    if newValue_.head?.any isdigit then e.items.find? fun e2 => e2.2 = atoi newValue_ else none
  match indexed with
  | some e2 => some (e2.2, e2.1.1)
  | none =>
    match e.items.find? fun e2 => equal_ignore_case newValue_ e2.1.1 with
    | some e2 => some (e2.2, newValue_)
    | none =>
      if newValue_ = [] then some ((e.items.head?.map Prod.snd).getD e.defaultValue, newValue_) else none

/-- The branch that stores a new value. -/
def store (lib : Library) (newValue_ : Bytes) (it : RuntimeItem) : Stored :=
  let stored (it : RuntimeItem) : Stored := ⟨it, some newValue_, none⟩
  let failed (msg : Bytes) : Stored := ⟨it, some newValue_, some msg⟩
  match it with
  | bool _ =>
    stored (.bool (equal_ignore_case newValue_ (bytes "true") || equal_ignore_case newValue_ (bytes "yes") ||
      equal_ignore_case newValue_ (bytes "1")))
  | ranged item =>
    match RuntimeSetting.item newValue_ item with
    | .ok item => stored (.ranged item)
    | .error msg => failed msg
  -- set as an `int32_t`, of which the low byte is kept
  | uint8 minValue maxValue _ => stored (.uint8 minValue maxValue (.ofInt (atoi newValue_).toInt))
  | speeds _ =>
    match speedMap lib newValue_ [] with
    | .ok value => stored (.speeds value)
    | .error msg => failed msg
  | floats _ =>
    match floatList lib newValue_ [] with
    | .ok value => stored (.floats value)
    | .error msg => failed msg
  | uart mode => stored (.uart (decodeUartMode newValue_ mode).1)
  | string _ => stored (.string newValue_)
  -- a pin is not set while running
  | pin name => stored (.pin name)
  | macroItem _ => stored (.macroItem newValue_)
  | ip _ =>
    match lib.fromString newValue_ with
    | some value => stored (.ip value)
    | none => failed (bytes "Expected an IP address like 192.168.0.100")
  | enum e _ =>
    match enumValue e newValue_ with
    | some (value, name) => ⟨.enum e value, some name, none⟩
    | none => failed (bytes "Provided enum value " ++ newValue_ ++ bytes " is not valid")

/-- What an item's function does where the name is the right one. -/
def answer (lib : Library) (newValue_ : Option Bytes) (it : RuntimeItem) : Stored :=
  match newValue_ with
  | none => ⟨it.display, none, none⟩
  | some newValue_ => it.store lib newValue_

end RuntimeItem

/-- The items and sections that `group` calls a handler with, in their order. -/
inductive RuntimeTree where
  | nil
  | item (name : Name) (it : RuntimeItem) (rest : RuntimeTree)
  | section (name : Name) (children : RuntimeTree) (rest : RuntimeTree)

structure RuntimeSetting where
  start_ : Bytes
  newValue_ : Option Bytes
  isHandled_ : Bool

/-- A configuration behind a handler, the handler, and the message of an assertion that ended the walk. -/
structure Walked where
  tree : RuntimeTree
  handler : RuntimeSetting
  failed : Option Bytes

namespace RuntimeSetting

/-- The handler for a key and a value. -/
def ofKey (key : Bytes) (value : Option Bytes) : RuntimeSetting where
  start_ := if key.head? = some 0x2f then key.tail else key
  newValue_ := value
  isHandled_ := false

/-- The name stands in front of the key that is left, and the key ends behind it or goes on with a slash. -/
def is (s : RuntimeSetting) (name : Name) : Bool :=
  equal_ignore_case name.1 (s.start_.take name.1.length) &&
    ((s.start_.drop name.1.length).head? = none || (s.start_.drop name.1.length).head? = some 0x2f)

variable (lib : Library)

/-- Any of the functions `item`. -/
def handle (s : RuntimeSetting) (name : Name) (it : RuntimeItem) : Stored × RuntimeSetting :=
  if s.is name then
    let stored := it.answer lib s.newValue_
    (stored, { s with isHandled_ := true, newValue_ := stored.newValue_ })
  else (⟨it, s.newValue_, none⟩, s)

/-- `group` with the handler, from an item or section on; `enterSection` is its case for a section. -/
def group : RuntimeTree → RuntimeSetting → Walked
  | .nil, s => ⟨.nil, s, none⟩
  | .item name it rest, s =>
    let (stored, s) := s.handle lib name it
    match stored.failed with
    | some msg => ⟨.item name stored.item rest, s, some msg⟩
    | none =>
      let after := group rest s
      ⟨.item name stored.item after.tree, after.handler, after.failed⟩
  | .section name children rest, s =>
    if s.is name && !s.isHandled_ then
      let next := s.start_.dropWhile (· ≠ 0x2f)
      if next.head? = some 0x2f ∧ next.tail ≠ [] then
        let inner := group children { s with start_ := next.tail }
        match inner.failed with
        | some msg => ⟨.section name inner.tree rest, inner.handler, some msg⟩
        | none =>
          -- the key is restored
          let after := group rest { inner.handler with start_ := s.start_ }
          ⟨.section name inner.tree after.tree, after.handler, after.failed⟩
      else
        -- a section is displayed, and no value can be set on it
        let after := group rest (if s.newValue_ = none then { s with isHandled_ := true } else s)
        ⟨.section name children after.tree, after.handler, after.failed⟩
    else
      let after := group rest s
      ⟨.section name children after.tree, after.handler, after.failed⟩

end RuntimeSetting

end DuneWeaver.Configuration
