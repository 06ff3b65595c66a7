import DuneWeaver.Configuration.RuntimeSetting
import DuneWeaver.Settings.Reload
import DuneWeaver.Settings.Transport
import Mathlib.Logic.Function.Basic

open DuneWeaver.Configuration (atoi)

namespace DuneWeaver

/-- The categories of the machine state that a hook goes by. -/
inductive LedHook.Cat where
  | CatNone
  | CatRun
  | CatIdle
  deriving DecidableEq

/-- A hook puts its effect in front of the setting, but not while a choice made by hand stands for the category. -/
structure LedHook where
  cat : LedHook.Cat := .CatNone
  manual : Option LedHook.Cat := none
  deriving DecidableEq

namespace LedHook

def reportCat (cat : Cat) (h : LedHook) : LedHook := if cat ≠ h.cat then { cat } else h

def manualChoice (h : LedHook) : LedHook := { h with manual := some h.cat }

def effect (run_effect idle_effect : Int32) (h : LedHook) : Int32 :=
  if h.cat = .CatNone ∨ h.manual = some h.cat then -1
  else
    let hook := if h.cat = .CatRun then run_effect else idle_effect
    if hook < 0 then -1 else hook

theorem effect_manualChoice (run_effect idle_effect : Int32) (h : LedHook) :
    h.manualChoice.effect run_effect idle_effect = -1 := if_pos (.inr rfl)

end LedHook

def ledEffects : List (Bytes × Int8) :=
  [(bytes "off", 0), (bytes "static", 1), (bytes "rainbow", 2), (bytes "breathe", 3),
    (bytes "colorloop", 4), (bytes "theater", 5), (bytes "scan", 6), (bytes "running", 7),
    (bytes "sine", 8), (bytes "gradient", 9), (bytes "sinelon", 10), (bytes "twinkle", 11),
    (bytes "sparkle", 12), (bytes "fire", 13), (bytes "candle", 14), (bytes "meteor", 15),
    (bytes "bouncing", 16), (bytes "wipe", 17), (bytes "dualscan", 18), (bytes "juggle", 19),
    (bytes "multicomet", 20), (bytes "glitter", 21), (bytes "dissolve", 22), (bytes "ripple", 23),
    (bytes "drip", 24), (bytes "lightning", 25), (bytes "fireworks", 26), (bytes "plasma", 27),
    (bytes "heartbeat", 28), (bytes "strobe", 29), (bytes "police", 30), (bytes "chase", 31),
    (bytes "railway", 32), (bytes "pacifica", 33), (bytes "aurora", 34), (bytes "pride", 35),
    (bytes "colorwaves", 36), (bytes "bpm", 37), (bytes "ball", 38)]

def ledDirections : List (Bytes × Int8) := [(bytes "cw", 0), (bytes "ccw", 1)]

def ledPalettes : List (Bytes × Int8) :=
  [(bytes "rainbow", 0), (bytes "ocean", 1), (bytes "lava", 2), (bytes "forest", 3),
    (bytes "party", 4), (bytes "cloud", 5), (bytes "heat", 6), (bytes "sunset", 7)]

/-- The number of a name, or `dflt` where there is no such name. -/
def enumId (m : List (Bytes × Int8)) (name : Bytes) (dflt : Int32) : Int32 :=
  match m.find? fun option => sameLetters option.1 name with
  | some option => option.2.toInt32
  | none => dflt

namespace Leds

/-- The live parameters that are chosen by name. -/
inductive EnumKey where
  | effect
  | palette
  | direction
  | bg
  deriving DecidableEq

inductive ColorKey where
  | color
  | color2
  deriving DecidableEq

/-- The live parameters that are numbers. -/
inductive IntKey where
  | brightness
  | speed
  | intensity
  | align
  | size
  | fgbright
  | bgbright
  deriving DecidableEq

inductive Key where
  | enum (k : EnumKey)
  | color (k : ColorKey)
  | int (k : IntKey)
  deriving DecidableEq

section Declarations

def enumSetting (keyName : Bytes) (defaultValue : Int8) (options : List (Bytes × Int8)) : EnumSetting where
  keyName
  defaultValue
  currentValue := defaultValue
  storedValue := -1
  options
  allow_hold := true

def colorSetting (keyName defaultValue : Bytes) : StringSetting where
  keyName
  defaultValue
  currentValue := defaultValue
  storedValue := defaultValue
  minLength := 0
  maxLength := 7
  allow_hold := true

def intSetting (keyName : Bytes) (defaultValue minValue maxValue : Int32) : IntSetting where
  keyName
  defaultValue
  currentValue := defaultValue
  storedValue := Int32.minValue
  minValue
  maxValue
  allow_hold := true

/-- The settings as `init` makes them. -/
def EnumKey.setting : EnumKey → EnumSetting
  | effect => enumSetting (bytes "LED/Effect") 2 ledEffects
  | palette => enumSetting (bytes "LED/Palette") 0 ledPalettes
  | direction => enumSetting (bytes "LED/Direction") 0 ledDirections
  | bg => enumSetting (bytes "LED/BallBg") 1 ledEffects

def ColorKey.setting : ColorKey → StringSetting
  | color => colorSetting (bytes "LED/Color") (bytes "FFB060")
  | color2 => colorSetting (bytes "LED/Color2") (bytes "0040FF")

/-- `setLive` checks against the bounds that are given here. -/
def IntKey.setting : IntKey → IntSetting
  | brightness => intSetting (bytes "LED/Brightness") 40 0 255
  | speed => intSetting (bytes "LED/Speed") 50 1 255
  | intensity => intSetting (bytes "LED/Intensity") 128 0 255
  | align => intSetting (bytes "LED/Align") 0 0 359
  | size => intSetting (bytes "LED/BallSize") 3 1 200
  | fgbright => intSetting (bytes "LED/BallBright") 255 0 255
  | bgbright => intSetting (bytes "LED/BallBgBright") 255 0 255

end Declarations

/-- The keys of `setLive`, in the order in which `flushLive` goes through their overrides. -/
def keys : List (Bytes × Key) :=
  [(bytes "effect", .enum .effect), (bytes "palette", .enum .palette), (bytes "color", .color .color),
    (bytes "color2", .color .color2), (bytes "brightness", .int .brightness), (bytes "speed", .int .speed),
    (bytes "intensity", .int .intensity), (bytes "direction", .enum .direction), (bytes "align", .int .align),
    (bytes "size", .int .size), (bytes "bg", .enum .bg), (bytes "fgbright", .int .fgbright),
    (bytes "bgbright", .int .bgbright)]

def Key.ofText (key : Bytes) : Option Key := (keys.find? fun entry => entry.1 = key).map Prod.snd

end Leds

open Leds (EnumKey ColorKey IntKey Key)

/-- The settings of the strip, and the texts that stand in front of them while
the machine runs. Without one the text is empty. The options and bounds of a
setting stay those it was made with. -/
structure Leds where
  enums : EnumKey → EnumSetting
  colors : ColorKey → StringSetting
  ints : IntKey → IntSetting
  live : Key → Bytes := fun _ => []
  run_effect : Int8 := -1
  idle_effect : Int8 := -1
  hook : LedHook := {}
  last_setting_effect : Int32 := -1
  quiet_off : Bool := false
  was_running : Bool := false
  nvs : Nvs
  enum_declared : ∀ k, (enums k).options = k.setting.options
  color_declared : ∀ k, (colors k).minLength = 0
  int_declared : ∀ k, ((ints k).minValue = k.setting.minValue ∧ (ints k).maxValue = k.setting.maxValue) ∧
    (ints k).currentIsNvm = false

/-- A setting is not written while the machine runs. -/
def WriteEnv.idle (env : WriteEnv) : Bool := env.state = .Idle || env.state = .Alarm

theorem check_state_idle {env : WriteEnv} (h : env.idle = true) (allow_hold : Bool) :
    check_state env allow_hold = .Ok := by
  unfold WriteEnv.idle at h
  unfold check_state notIdleOrAlarm
  rcases Bool.or_eq_true_iff.mp h with hstate | hstate
  · rw [of_decide_eq_true hstate]
    simp
  · rw [of_decide_eq_true hstate]
    simp

section Declared

variable (env : WriteEnv) (text : Bytes) (nvs : Nvs)

theorem EnumSetting.setStringValue_options (s : EnumSetting) :
    (s.setStringValue env text nvs).2.1.options = s.options := by
  unfold EnumSetting.setStringValue
  cases s.convert env text with
  | error err => rfl
  | ok value =>
    dsimp only [EnumSetting.assign]
    split_ifs
    · rfl
    · rfl
    · rfl

theorem StringSetting.setStringValue_minLength (s : StringSetting) :
    (s.setStringValue env text nvs).2.1.minLength = s.minLength := by
  unfold StringSetting.setStringValue
  cases s.convert env text with
  | error err => rfl
  | ok value =>
    dsimp only [StringSetting.assign]
    split_ifs
    · rfl
    · rfl
    · rfl

theorem IntSetting.setStringValue_bounds (s : IntSetting) :
    ((s.setStringValue env text nvs).2.1.minValue = s.minValue ∧
      (s.setStringValue env text nvs).2.1.maxValue = s.maxValue) ∧
      (s.setStringValue env text nvs).2.1.currentIsNvm = s.currentIsNvm := by
  unfold IntSetting.setStringValue
  cases s.convert env text with
  | error err => exact ⟨⟨rfl, rfl⟩, rfl⟩
  | ok value =>
    dsimp only [IntSetting.assign]
    split_ifs
    · exact ⟨⟨rfl, rfl⟩, rfl⟩
    · exact ⟨⟨rfl, rfl⟩, rfl⟩
    · exact ⟨⟨rfl, rfl⟩, rfl⟩
    · exact ⟨⟨rfl, rfl⟩, rfl⟩
    · exact ⟨⟨rfl, rfl⟩, rfl⟩
    · exact ⟨⟨rfl, rfl⟩, rfl⟩

end Declared

namespace Leds

/-- `setStringValue` of the setting behind a key, on a flash that takes every write. -/
def setStringValue (env : WriteEnv) (key : Key) (text : Bytes) (s : Leds) : Error × Leds :=
  match key with
  | .enum k =>
    let written := (s.enums k).setStringValue env text s.nvs
    (written.1, { s with
      enums := Function.update s.enums k written.2.1
      nvs := written.2.2
      enum_declared := (Function.forall_update_iff s.enums fun k s => s.options = k.setting.options).mpr
        ⟨((s.enums k).setStringValue_options env text s.nvs).trans (s.enum_declared k), fun k _ => s.enum_declared k⟩ })
  | .color k =>
    let written := (s.colors k).setStringValue env text s.nvs
    (written.1, { s with
      colors := Function.update s.colors k written.2.1
      nvs := written.2.2
      color_declared := (Function.forall_update_iff s.colors fun _ s => s.minLength = 0).mpr
        ⟨((s.colors k).setStringValue_minLength env text s.nvs).trans (s.color_declared k), fun k _ =>
          s.color_declared k⟩ })
  | .int k =>
    let written := (s.ints k).setStringValue env text s.nvs
    (written.1, { s with
      ints := Function.update s.ints k written.2.1
      nvs := written.2.2
      int_declared := (Function.forall_update_iff s.ints fun k s =>
          (s.minValue = k.setting.minValue ∧ s.maxValue = k.setting.maxValue) ∧ s.currentIsNvm = false).mpr
        ⟨by
          obtain ⟨⟨hmin, hmax⟩, hnvm⟩ := (s.ints k).setStringValue_bounds env text s.nvs
          obtain ⟨⟨hmin', hmax'⟩, hnvm'⟩ := s.int_declared k
          exact ⟨⟨hmin.trans hmin', hmax.trans hmax'⟩, hnvm.trans hnvm'⟩, fun k _ => s.int_declared k⟩ })

/-- What `setLive` looks at before it takes a text. -/
def checkLive (key : Key) (value : Bytes) : Error :=
  match key with
  | .enum k => if enumId k.setting.options value (-1) < 0 then .InvalidStatement else .Ok
  | .color _ => .Ok
  | .int k =>
    let v := atoi (c_str value)
    if v < k.setting.minValue ∨ v > k.setting.maxValue then .NumberRange else .Ok

/-- An effect that is chosen outranks the hook. -/
def chosen (key : Key) (s : Leds) : Leds := if key = .enum .effect then { s with hook := s.hook.manualChoice } else s

/-- The text stands in front of the setting. -/
def override (key : Key) (value : Bytes) (s : Leds) : Leds :=
  { s.chosen key with live := Function.update s.live key value }

/-- `setLive`, whose branches are alike but for the check, the setting and the override. -/
def setLive (env : WriteEnv) (key value : Bytes) (s : Leds) : Error × Leds :=
  match Key.ofText key with
  | none => (.InvalidStatement, s)
  | some key =>
    match checkLive key value with
    | .Ok =>
      if env.idle then
        let written := s.setStringValue env key value
        (written.1, if written.1 = .Ok then written.2.chosen key else written.2)
      else (.Ok, s.override key value)
    | err => (err, s)

/-- `flushLive` for one of the overrides. -/
def flushKey (env : WriteEnv) (s : Leds) (key : Key) : Leds :=
  if s.live key = [] then s
  else
    let s := (s.setStringValue env key (s.live key)).2
    let s := { s with live := Function.update s.live key [] }
    -- handing the override back is no choice by hand
    if key = .enum .effect then { s with last_setting_effect := (s.enums .effect).value.toInt32 } else s

def flushLive (env : WriteEnv) (s : Leds) : Leds := (keys.map Prod.snd).foldl (flushKey env) s

/-- What a parameter is rendered with. -/
inductive Parameter where
  | number (n : Int32)
  | rgb (r g b : UInt8)
  deriving DecidableEq

/-- `strtoul` with base 16. -/
def strtoulHex (s : Bytes) : UInt32 :=
  if (strtolHex s).1.natAbs < 4294967296 then UInt32.ofInt (strtolHex s).1 else 0xffffffff

def colorOf (hex : Bytes) : Parameter :=
  let rgb := strtoulHex hex
  .rgb (rgb >>> 16).toUInt8 (rgb >>> 8).toUInt8 rgb.toUInt8

def getColor (s : StringSetting) : Parameter :=
  let hex := s.value
  colorOf (if hex.head? = some 35 then hex.tail else hex)

section Render

variable (s : Leds)

def liveColor (k : ColorKey) : Parameter :=
  if s.live (.color k) = [] then getColor (s.colors k) else colorOf (c_str (s.live (.color k)))

def primaryColor : Parameter := s.liveColor .color

def secondaryColor : Parameter := s.liveColor .color2

def hookEffect : Int32 := s.hook.effect s.run_effect.toInt32 s.idle_effect.toInt32

def effectiveEffect : Int32 :=
  if s.quiet_off then 0
  else if s.live (.enum .effect) ≠ [] then
    enumId ledEffects (s.live (.enum .effect)) (s.enums .effect).value.toInt32
  else if s.hookEffect ≥ 0 then s.hookEffect
  else (s.enums .effect).value.toInt32

/-- A name that is looked up, and what stands in where it is not found. -/
def enumParameter (k : EnumKey) (dflt : Int32) : Int32 :=
  if s.live (.enum k) = [] then (s.enums k).value.toInt32 else enumId k.setting.options (s.live (.enum k)) dflt

def intParameter (k : IntKey) : Int32 :=
  if s.live (.int k) = [] then (s.ints k).value else atoi (c_str (s.live (.int k)))

end Render

/-- An `int` that is kept in a `uint8_t`. -/
def uint8 (n : Int32) : Int32 := n.toUInt32.toUInt8.toUInt32.toInt32

def IntKey.width : IntKey → Int32 → Int32
  | brightness, n => uint8 n
  | speed, n => uint8 n
  | intensity, n => uint8 n
  | _, n => n

/-- What `render` and the ball effect use where a live name is none of the options. -/
def EnumKey.dflt : EnumKey → Int32
  | palette => 0
  | bg => 1
  | _ => 0

/-- The parameters as `render` and the effects resolve them. -/
def rendered (s : Leds) : Key → Parameter
  | .enum .effect => .number s.effectiveEffect
  | .enum k => .number (s.enumParameter k k.dflt)
  | .color .color => s.primaryColor
  | .color .color2 => s.secondaryColor
  | .int k => .number (k.width (s.intParameter k))

/-- The parameter as it is rendered without its override. -/
def fromSetting (s : Leds) (key : Key) : Parameter := { s with live := Function.update s.live key [] }.rendered key

/-- What `render` looks at first: another effect in the setting is a choice by hand, wherever it comes from. -/
def noticeChoice (s : Leds) : Leds :=
  let setting_effect := (s.enums .effect).value.toInt32
  if setting_effect ≠ s.last_setting_effect then
    { s with last_setting_effect := setting_effect, hook := s.hook.manualChoice }
  else s

/-- `pollLine`, with the category of a status report if one has come, and with a frame or without. -/
def pollLine (env : WriteEnv) (report : Option LedHook.Cat) (frame : Bool) (s : Leds) : Leds :=
  let s := match report with
    | some cat => { s with hook := s.hook.reportCat cat }
    | none => s
  let s := if s.was_running && env.idle then s.flushLive env else s
  let s := { s with was_running := !env.idle }
  if frame then s.noticeChoice else s

/-- A text that is accepted while the machine runs is rendered as the setting is where that accepts it while the machine
is idle, and is still rendered so when it has been handed back. -/
def LiveAgrees (key value : Bytes) (s : Leds) : Prop :=
  ∀ running idle : WriteEnv, running.idle = false → idle.idle = true → ∀ k, Key.ofText key = some k →
    (s.setLive running key value).1 = .Ok →
    ((s.setLive idle key value).1 = .Ok →
      (s.setLive running key value).2.rendered k = (s.setLive idle key value).2.fromSetting k) ∧
    ((s.setLive running key value).2.flushLive idle).rendered k = (s.setLive running key value).2.rendered k

/-- The setting reads the text as it is read live, or it makes no difference. A number is one that `from_chars` reads,
too: `atoi` lets a plus through, and takes what is no number for zero. A color has no `#` in front, which only the
setting lets through, and is not empty, which for an override says that there is none. -/
def ReadAlike (key value : Bytes) (s : Leds) : Prop :=
  match Key.ofText key with
  | some (.int k) =>
    let v := atoi (c_str value)
    value = [] ∨ (v < k.setting.minValue ∨ v > k.setting.maxValue) ∨ (from_chars (trim value)).isSome ∨
      k.width (s.ints k).value = k.width v
  | some (.color k) =>
    (value = [] → getColor (s.colors k) = .rgb 0 0 0) ∧
      (value.head? = some 35 → colorOf (c_str value.tail) = .rgb 0 0 0)
  | _ => True

end Leds

end DuneWeaver
