import DuneWeaver.Types
import DuneWeaver.PlaylistParse

namespace DuneWeaver

def trim (s : Bytes) : Bytes := ((s.dropWhile isspace).reverse.dropWhile isspace).reverse

/-- `std::from_chars` into a 32-bit integer. What follows the digits is not looked at. -/
def from_chars (s : Bytes) : Option Int32 :=
  let negative := s.head? = some 45
  let digits := (if negative then s.tail else s).takeWhile isdigit
  let magnitude : Int := digits.foldl (fun n c => n * 10 + (c.toNat - 48 : Int)) 0
  let value := if negative then -magnitude else magnitude
  if digits = [] then none
  else if Int32.minValue.toInt ≤ value ∧ value ≤ Int32.maxValue.toInt then some (.ofInt value)
  else none

/-- `strcasecmp` finds no difference. -/
def sameLetters (a b : Bytes) : Bool := (c_str a).map tolower = (c_str b).map tolower

/-- A value of the non-volatile store, with its type. -/
inductive NvsValue where
  | i32 (value : Int32)
  | i8 (value : Int8)
  | str (value : Bytes)
  deriving DecidableEq

/-- The non-volatile store: the keys and what they hold. -/
abbrev Nvs := Bytes → Option NvsValue

namespace Nvs

def get_i32 (nvs : Nvs) (key : Bytes) : Option Int32 :=
  match nvs key with
  | some (.i32 value) => some value
  | _ => none

def get_i8 (nvs : Nvs) (key : Bytes) : Option Int8 :=
  match nvs key with
  | some (.i8 value) => some value
  | _ => none

/-- A C string is handed over, and what it holds beyond that is not. -/
def get_str (nvs : Nvs) (key : Bytes) : Option Bytes :=
  match nvs key with
  | some (.str value) => some (c_str value)
  | _ => none

def set (nvs : Nvs) (key : Bytes) (value : NvsValue) : Nvs := fun k => if k = key then some value else nvs k

def erase_key (nvs : Nvs) (key : Bytes) : Nvs := fun k => if k = key then none else nvs k

section Cells

variable (nvs : Nvs) (key : Bytes)

@[simp] theorem get_i32_set (value : Int32) : (nvs.set key (.i32 value)).get_i32 key = some value := by
  simp [get_i32, set]

@[simp] theorem get_i8_set (value : Int8) : (nvs.set key (.i8 value)).get_i8 key = some value := by
  simp [get_i8, set]

@[simp] theorem get_str_set (value : Bytes) : (nvs.set key (.str value)).get_str key = some (c_str value) := by
  simp [get_str, set]

@[simp] theorem get_i32_erase_key : (nvs.erase_key key).get_i32 key = none := by simp [get_i32, erase_key]

@[simp] theorem get_i8_erase_key : (nvs.erase_key key).get_i8 key = none := by simp [get_i8, erase_key]

@[simp] theorem get_str_erase_key : (nvs.erase_key key).get_str key = none := by simp [get_str, erase_key]

end Cells

end Nvs

/-- What a setting looks at before it is written. -/
structure WriteEnv where
  state : State
  isStepping : Bool
  deriving DecidableEq

def notIdleOrAlarm (state : State) : Bool :=
  state ≠ .Idle && state ≠ .Alarm && state ≠ .ConfigAlarm && state ≠ .SafetyDoor

/-- `Setting::check_state`. -/
def check_state (env : WriteEnv) (allow_hold : Bool) : Error :=
  if allow_hold && env.state = .Hold && !env.isStepping then .Ok
  else if notIdleOrAlarm env.state then .IdleError
  else .Ok

structure IntSetting where
  keyName : Bytes
  defaultValue : Int32
  currentValue : Int32
  storedValue : Int32
  minValue : Int32
  maxValue : Int32
  currentIsNvm : Bool := false
  allow_hold : Bool := false
  deriving DecidableEq

namespace IntSetting

def load (nvs : Nvs) (s : IntSetting) : IntSetting :=
  match nvs.get_i32 s.keyName with
  | none => { s with storedValue := Int32.minValue, currentValue := s.defaultValue }
  | some value => { s with storedValue := value, currentValue := value }

def setDefault (nvs : Nvs) (s : IntSetting) : IntSetting × Nvs :=
  if s.currentIsNvm then (s, nvs.erase_key s.keyName)
  else
    let s := { s with currentValue := s.defaultValue }
    if s.storedValue ≠ s.currentValue then (s, nvs.erase_key s.keyName) else (s, nvs)

/-- The checks of `setStringValue`, and the value it goes on with. -/
def convert (env : WriteEnv) (text : Bytes) (s : IntSetting) : Except Error Int32 :=
  match check_state env s.allow_hold with
  | .Ok =>
    match from_chars (trim text) with
    | none => .error .BadNumberFormat
    | some convertedValue =>
      if convertedValue < s.minValue ∨ convertedValue > s.maxValue then .error .NumberRange
      else .ok convertedValue
  | err => .error err

/-- The rest of `setStringValue`. -/
def assign (convertedValue : Int32) (nvs : Nvs) (s : IntSetting) : IntSetting × Nvs :=
  let s := if ¬ s.currentIsNvm then { s with currentValue := convertedValue } else s
  if s.storedValue ≠ convertedValue then
    if convertedValue = s.defaultValue then (s, nvs.erase_key s.keyName)
    else ({ s with storedValue := convertedValue }, nvs.set s.keyName (.i32 convertedValue))
  else (s, nvs)

def setStringValue (env : WriteEnv) (text : Bytes) (nvs : Nvs) (s : IntSetting) : Error × IntSetting × Nvs :=
  match s.convert env text with
  | .error err => (err, s, nvs)
  | .ok convertedValue => (.Ok, s.assign convertedValue nvs)

/-- `currentSettingValue`, which `getStringValue` prints. -/
def value (s : IntSetting) : Int32 :=
  if s.currentIsNvm then if s.storedValue = Int32.minValue then s.defaultValue else s.storedValue
  else s.currentValue

end IntSetting

/-- An `int` as a length. -/
def size_t (n : Int) : Nat := (n % 4294967296).toNat

structure StringSetting where
  keyName : Bytes
  defaultValue : Bytes
  currentValue : Bytes
  storedValue : Bytes
  minLength : Int
  maxLength : Int
  allow_hold : Bool := false
  deriving DecidableEq

namespace StringSetting

def load (nvs : Nvs) (s : StringSetting) : StringSetting :=
  match nvs.get_str s.keyName with
  | none => { s with storedValue := s.defaultValue, currentValue := s.defaultValue }
  | some value => { s with storedValue := value, currentValue := value }

def setDefault (nvs : Nvs) (s : StringSetting) : StringSetting × Nvs :=
  let s := { s with currentValue := s.defaultValue }
  if s.storedValue ≠ s.currentValue then (s, nvs.erase_key s.keyName) else (s, nvs)

def convert (env : WriteEnv) (text : Bytes) (s : StringSetting) : Except Error Bytes :=
  match check_state env s.allow_hold with
  | .Ok =>
    if s.minLength ≠ 0 ∧ s.maxLength ≠ 0 ∧ (text.length < size_t s.minLength ∨ text.length > size_t s.maxLength) then
      .error .BadNumberFormat
    else .ok text
  | err => .error err

def assign (text : Bytes) (nvs : Nvs) (s : StringSetting) : StringSetting × Nvs :=
  let s := { s with currentValue := text }
  if s.storedValue ≠ s.currentValue then
    if s.currentValue = s.defaultValue then
      ({ s with storedValue := s.defaultValue }, nvs.erase_key s.keyName)
    else ({ s with storedValue := s.currentValue }, nvs.set s.keyName (.str (c_str s.currentValue)))
  else (s, nvs)

def setStringValue (env : WriteEnv) (text : Bytes) (nvs : Nvs) (s : StringSetting) :
    Error × StringSetting × Nvs :=
  match s.convert env text with
  | .error err => (err, s, nvs)
  | .ok text => (.Ok, s.assign text nvs)

/-- `get`, which hands out a C string. -/
def value (s : StringSetting) : Bytes := c_str s.currentValue

end StringSetting

structure EnumSetting where
  keyName : Bytes
  defaultValue : Int8
  currentValue : Int8
  storedValue : Int8
  options : List (Bytes × Int8)
  allow_hold : Bool := false
  deriving DecidableEq

namespace EnumSetting

def load (nvs : Nvs) (s : EnumSetting) : EnumSetting :=
  match nvs.get_i8 s.keyName with
  | none => { s with storedValue := -1, currentValue := s.defaultValue }
  | some value => { s with storedValue := value, currentValue := value }

def setDefault (nvs : Nvs) (s : EnumSetting) : EnumSetting × Nvs :=
  let s := { s with currentValue := s.defaultValue }
  if s.storedValue ≠ s.currentValue then (s, nvs.erase_key s.keyName) else (s, nvs)

/-- An option is given by its name or by its number. -/
def convert (env : WriteEnv) (text : Bytes) (s : EnumSetting) : Except Error Int8 :=
  match check_state env s.allow_hold with
  | .Ok =>
    let text := trim text
    match s.options.find? fun option => sameLetters option.1 text with
    | some option => .ok option.2
    | none =>
      if text = [] then .error .BadNumberFormat
      else
        match from_chars text with
        | none => .error .BadNumberFormat
        | some num =>
          match s.options.find? fun option => option.2.toInt32 = num with
          | none => .error .BadNumberFormat
          | some option => .ok option.2
  | err => .error err

def assign (value : Int8) (nvs : Nvs) (s : EnumSetting) : EnumSetting × Nvs :=
  let s := { s with currentValue := value }
  if s.storedValue ≠ s.currentValue then
    if s.currentValue = s.defaultValue then (s, nvs.erase_key s.keyName)
    else ({ s with storedValue := s.currentValue }, nvs.set s.keyName (.i8 s.currentValue))
  else (s, nvs)

def setStringValue (env : WriteEnv) (text : Bytes) (nvs : Nvs) (s : EnumSetting) : Error × EnumSetting × Nvs :=
  match s.convert env text with
  | .error err => (err, s, nvs)
  | .ok value => (.Ok, s.assign value nvs)

/-- `get`. -/
def value (s : EnumSetting) : Int8 := s.currentValue

end EnumSetting

structure IPaddrSetting where
  keyName : Bytes
  defaultValue : UInt32
  currentValue : UInt32
  storedValue : UInt32
  allow_hold : Bool := false
  deriving DecidableEq

namespace IPaddrSetting

/-- The store keeps the bits as an `int32_t`. -/
def load (nvs : Nvs) (s : IPaddrSetting) : IPaddrSetting :=
  match nvs.get_i32 s.keyName with
  | none => { s with storedValue := 0x000000ff, currentValue := s.defaultValue }
  | some value => { s with storedValue := value.toUInt32, currentValue := value.toUInt32 }

def setDefault (nvs : Nvs) (s : IPaddrSetting) : IPaddrSetting × Nvs :=
  let s := { s with currentValue := s.defaultValue }
  if s.storedValue ≠ s.currentValue then (s, nvs.erase_key s.keyName) else (s, nvs)

/-- `fromString` is the network library's. -/
def convert (fromString : Bytes → Option (UInt32)) (env : WriteEnv) (text : Bytes) (s : IPaddrSetting) :
    Except Error (UInt32) :=
  match check_state env s.allow_hold with
  | .Ok =>
    match fromString (c_str text) with
    | none => .error .InvalidValue
    | some ipaddr => .ok ipaddr
  | err => .error err

def assign (ipaddr : UInt32) (nvs : Nvs) (s : IPaddrSetting) : IPaddrSetting × Nvs :=
  let s := { s with currentValue := ipaddr }
  if s.storedValue ≠ s.currentValue then
    if s.currentValue = s.defaultValue then (s, nvs.erase_key s.keyName)
    else ({ s with storedValue := s.currentValue }, nvs.set s.keyName (.i32 s.currentValue.toInt32))
  else (s, nvs)

def setStringValue (fromString : Bytes → Option (UInt32)) (env : WriteEnv) (text : Bytes) (nvs : Nvs)
    (s : IPaddrSetting) : Error × IPaddrSetting × Nvs :=
  match s.convert fromString env text with
  | .error err => (err, s, nvs)
  | .ok ipaddr => (.Ok, s.assign ipaddr nvs)

/-- `get`. -/
def value (s : IPaddrSetting) : UInt32 := s.currentValue

end IPaddrSetting

end DuneWeaver
