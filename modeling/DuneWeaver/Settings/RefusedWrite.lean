import DuneWeaver.Settings.Reload

namespace DuneWeaver

/-- How the non-volatile store takes the one write or erase of a call. -/
structure Flash where
  writeFails : Bool := false
  eraseFails : Bool := false
  deriving DecidableEq

namespace Flash

/-- A write that fails leaves the key as it was. -/
def set (flash : Flash) (nvs : Nvs) (key : Bytes) (value : NvsValue) : Option Nvs :=
  if flash.writeFails then none else some (nvs.set key value)

/-- Nobody looks at what `nvs_erase_key` returns. -/
def erase_key (flash : Flash) (nvs : Nvs) (key : Bytes) : Nvs :=
  if flash.eraseFails then nvs else nvs.erase_key key

end Flash

/-- `IntSetting::setStringValue` over a store that may refuse. -/
def IntSetting.setStringValueOn (flash : Flash) (env : WriteEnv) (text : Bytes) (nvs : Nvs) (s : IntSetting) :
    Error × IntSetting × Nvs :=
  match s.convert env text with
  | .error err => (err, s, nvs)
  | .ok convertedValue =>
    let s := if ¬ s.currentIsNvm then { s with currentValue := convertedValue } else s
    if s.storedValue ≠ convertedValue then
      if convertedValue = s.defaultValue then (.Ok, s, flash.erase_key nvs s.keyName)
      else
        match flash.set nvs s.keyName (.i32 convertedValue) with
        | none => (.NvsSetFailed, s, nvs)
        | some nvs => (.Ok, { s with storedValue := convertedValue }, nvs)
    else (.Ok, s, nvs)

/-- `StringSetting::setStringValue` over a store that may refuse. -/
def StringSetting.setStringValueOn (flash : Flash) (env : WriteEnv) (text : Bytes) (nvs : Nvs)
    (s : StringSetting) : Error × StringSetting × Nvs :=
  match s.convert env text with
  | .error err => (err, s, nvs)
  | .ok text =>
    let s := { s with currentValue := text }
    if s.storedValue ≠ s.currentValue then
      if s.currentValue = s.defaultValue then
        (.Ok, { s with storedValue := s.defaultValue }, flash.erase_key nvs s.keyName)
      else
        match flash.set nvs s.keyName (.str (c_str s.currentValue)) with
        | none => (.NvsSetFailed, s, nvs)
        | some nvs => (.Ok, { s with storedValue := s.currentValue }, nvs)
    else (.Ok, s, nvs)

/-- `EnumSetting::setStringValue` over a store that may refuse. -/
def EnumSetting.setStringValueOn (flash : Flash) (env : WriteEnv) (text : Bytes) (nvs : Nvs) (s : EnumSetting) :
    Error × EnumSetting × Nvs :=
  match s.convert env text with
  | .error err => (err, s, nvs)
  | .ok value =>
    let s := { s with currentValue := value }
    if s.storedValue ≠ s.currentValue then
      if s.currentValue = s.defaultValue then (.Ok, s, flash.erase_key nvs s.keyName)
      else
        match flash.set nvs s.keyName (.i8 s.currentValue) with
        | none => (.NvsSetFailed, s, nvs)
        | some nvs => (.Ok, { s with storedValue := s.currentValue }, nvs)
    else (.Ok, s, nvs)

/-- `IPaddrSetting::setStringValue` over a store that may refuse. -/
def IPaddrSetting.setStringValueOn (fromString : Bytes → Option UInt32) (flash : Flash) (env : WriteEnv)
    (text : Bytes) (nvs : Nvs) (s : IPaddrSetting) : Error × IPaddrSetting × Nvs :=
  match s.convert fromString env text with
  | .error err => (err, s, nvs)
  | .ok ipaddr =>
    let s := { s with currentValue := ipaddr }
    if s.storedValue ≠ s.currentValue then
      if s.currentValue = s.defaultValue then (.Ok, s, flash.erase_key nvs s.keyName)
      else
        match flash.set nvs s.keyName (.i32 s.currentValue.toInt32) with
        | none => (.NvsSetFailed, s, nvs)
        | some nvs => (.Ok, { s with storedValue := s.currentValue }, nvs)
    else (.Ok, s, nvs)

section Sound

/-- Over a store that takes everything the calls are the ones of the store that cannot
refuse. -/
theorem IntSetting.setStringValueOn_sound (env : WriteEnv) (text : Bytes) (nvs : Nvs) (s : IntSetting) :
    s.setStringValueOn {} env text nvs = s.setStringValue env text nvs := by
  unfold setStringValueOn setStringValue assign
  cases s.convert env text with
  | error err => rfl
  | ok value =>
    dsimp only
    split_ifs <;> rfl

theorem StringSetting.setStringValueOn_sound (env : WriteEnv) (text : Bytes) (nvs : Nvs) (s : StringSetting) :
    s.setStringValueOn {} env text nvs = s.setStringValue env text nvs := by
  unfold setStringValueOn setStringValue assign
  cases s.convert env text with
  | error err => rfl
  | ok value =>
    dsimp only
    split_ifs <;> rfl

theorem EnumSetting.setStringValueOn_sound (env : WriteEnv) (text : Bytes) (nvs : Nvs) (s : EnumSetting) :
    s.setStringValueOn {} env text nvs = s.setStringValue env text nvs := by
  unfold setStringValueOn setStringValue assign
  cases s.convert env text with
  | error err => rfl
  | ok value =>
    dsimp only
    split_ifs <;> rfl

theorem IPaddrSetting.setStringValueOn_sound (fromString : Bytes → Option UInt32) (env : WriteEnv) (text : Bytes)
    (nvs : Nvs) (s : IPaddrSetting) :
    s.setStringValueOn fromString {} env text nvs = s.setStringValue fromString env text nvs := by
  unfold setStringValueOn setStringValue assign
  cases s.convert fromString env text with
  | error err => rfl
  | ok value =>
    dsimp only
    split_ifs <;> rfl

end Sound

/-- The character is a letter. -/
def isalpha (c : UInt8) : Bool := (65 ≤ c && c ≤ 90) || (97 ≤ c && c ≤ 122)

/-- A setting whose value the store keeps. Some string settings look at every character
before anything else. -/
structure CheckedSetting where
  setting : Setting
  allowed : UInt8 → Bool := fun _ => true

def HostnameSetting (s : StringSetting) : CheckedSetting where
  setting := .string s
  allowed c := !(c = 32 || !(isdigit c || isalpha c || c = 45))

def BTNameSetting (s : StringSetting) : CheckedSetting where
  setting := .string s
  allowed c := isdigit c || isalpha c || c = 95

def AuthPasswordSetting (s : StringSetting) : CheckedSetting where
  setting := .string s
  allowed c := !(c = 32)

/-- A setting of any class: a `MachineConfigProxySetting` shows a value of the machine
configuration, and cannot be set. -/
inductive AnySetting where
  | checked (c : CheckedSetting)
  | proxy (got : Bytes)

/-- What `_currentValue` is, and what `get` hands out. -/
def Setting.current : Setting → SettingValue × SettingValue
  | .int s => (.int s.currentValue, .int s.currentValue)
  | .string s => (.string s.currentValue, .string s.value)
  | .enum s => (.enum s.currentValue, .enum s.value)
  | .ipaddr s => (.ipaddr s.currentValue, .ipaddr s.value)

section Calls

variable (fromString : Bytes → Option UInt32) (flash : Flash) (env : WriteEnv) (text : Bytes)

def Setting.setStringValueOn (nvs : Nvs) : Setting → Error × Setting × Nvs
  | .int s =>
    let (err, s, nvs) := s.setStringValueOn flash env text nvs
    (err, .int s, nvs)
  | .string s =>
    let (err, s, nvs) := s.setStringValueOn flash env text nvs
    (err, .string s, nvs)
  | .enum s =>
    let (err, s, nvs) := s.setStringValueOn flash env text nvs
    (err, .enum s, nvs)
  | .ipaddr s =>
    let (err, s, nvs) := s.setStringValueOn fromString flash env text nvs
    (err, .ipaddr s, nvs)

def AnySetting.setStringValueOn (nvs : Nvs) : AnySetting → Error × AnySetting × Nvs
  | .checked c =>
    if text.all c.allowed then
      let (err, setting, nvs) := c.setting.setStringValueOn fromString flash env text nvs
      (err, .checked { c with setting }, nvs)
    else (.InvalidValue, .checked c, nvs)
  | .proxy got => (.ReadOnlySetting, .proxy got, nvs)

/-- Nothing that can be asked of a setting has changed: not its value, not what `get` and
`getStringValue` report, not what a start would find. -/
structure Setting.Unchanged (s : Setting) (nvs : Nvs) (s' : Setting) (nvs' : Nvs) : Prop where
  current : s'.current = s.current
  value : s'.value = s.value
  reload : (s'.load nvs').value = (s.load nvs).value

def AnySetting.Unchanged (nvs : Nvs) (nvs' : Nvs) : AnySetting → AnySetting → Prop
  | .checked c, .checked c' => c.setting.Unchanged nvs c'.setting nvs'
  | .proxy got, .proxy got' => got' = got
  | _, _ => False

/-- A call that is turned down changes nothing. -/
def AnySetting.Atomic (nvs : Nvs) (s : AnySetting) : Prop :=
  (s.setStringValueOn fromString flash env text nvs).1 ≠ .Ok →
    s.Unchanged nvs (s.setStringValueOn fromString flash env text nvs).2.2
      (s.setStringValueOn fromString flash env text nvs).2.1

/-- The store refuses a value that the checks let through and that is a new one: neither
the current value, nor the default, nor the one that is stored. -/
def Setting.RefusesNew : Setting → Prop
  | .int s => ∃ value, s.convert env text = .ok value ∧ s.currentIsNvm = false ∧
      value ≠ s.currentValue ∧ value ≠ s.defaultValue ∧ value ≠ s.storedValue
  | .string s => ∃ value, s.convert env text = .ok value ∧
      value ≠ s.currentValue ∧ value ≠ s.defaultValue ∧ value ≠ s.storedValue
  | .enum s => ∃ value, s.convert env text = .ok value ∧
      value ≠ s.currentValue ∧ value ≠ s.defaultValue ∧ value ≠ s.storedValue
  | .ipaddr s => ∃ value, s.convert fromString env text = .ok value ∧
      value ≠ s.currentValue ∧ value ≠ s.defaultValue ∧ value ≠ s.storedValue

def AnySetting.RefusesNew : AnySetting → Prop
  | .checked c => flash.writeFails = true ∧ text.all c.allowed = true ∧ c.setting.RefusesNew fromString env text
  | .proxy _ => False

theorem Setting.Unchanged.refl (nvs : Nvs) (s : Setting) : s.Unchanged nvs s nvs := ⟨rfl, rfl, rfl⟩

/-- What the four classes have in common: a text that is turned down leaves the setting
alone, and a refused write comes after the new value has been made current. -/
private theorem atomic_iff_of {σ β : Type} [DecidableEq β] (wrap : σ → Setting) (assigned : β → σ) (s : σ)
    (nvs : Nvs) (result : Error × σ × Nvs) (convert : Except Error β) {current stored default : β}
    (herror : ∀ err, convert = .error err → result = (err, s, nvs))
    (hok : ∀ value, convert = .ok value →
      if flash.writeFails = true ∧ value ≠ stored ∧ value ≠ default then
        result = (.NvsSetFailed, assigned value, nvs)
      else result.1 = .Ok)
    (hsame : assigned current = s)
    (hnew : ∀ value, value ≠ current → (wrap (assigned value)).current ≠ (wrap s).current) :
    (result.1 ≠ .Ok → (wrap s).Unchanged nvs (wrap result.2.1) result.2.2) ↔
      ¬ (flash.writeFails = true ∧ ∃ value, convert = .ok value ∧
        value ≠ current ∧ value ≠ default ∧ value ≠ stored) := by
  cases hconvert : convert with
  | error err =>
    rw [herror err hconvert]
    refine iff_of_true (fun _ => .refl nvs _) ?_
    rintro ⟨-, value, hvalue, -⟩
    cases hvalue
  | ok value =>
    have houtcome := hok value hconvert
    by_cases hrefused : flash.writeFails = true ∧ value ≠ stored ∧ value ≠ default
    · rw [if_pos hrefused] at houtcome
      rw [houtcome]
      constructor
      · rintro hkept ⟨-, value', hvalue', hother, -⟩
        obtain rfl : value = value' := Except.ok.inj hvalue'
        exact hnew value hother (hkept (by simp)).current
      · intro hold _
        have hcurrent : value = current := by
          by_contra hother
          exact hold ⟨hrefused.1, value, rfl, hother, hrefused.2.2, hrefused.2.1⟩
        rw [hcurrent, hsame]
        exact .refl nvs _
    · rw [if_neg hrefused] at houtcome
      refine iff_of_true (fun hfails => absurd houtcome hfails) ?_
      rintro ⟨hfails, value', hvalue', -, hdefault, hstored⟩
      obtain rfl : value = value' := Except.ok.inj hvalue'
      exact hrefused ⟨hfails, hstored, hdefault⟩

theorem IntSetting.setStringValueOn_ok (nvs : Nvs) (s : IntSetting) {value : Int32}
    (h : s.convert env text = .ok value) :
    if flash.writeFails = true ∧ value ≠ s.storedValue ∧ value ≠ s.defaultValue then
      s.setStringValueOn flash env text nvs =
        (.NvsSetFailed, if s.currentIsNvm then s else { s with currentValue := value }, nvs)
    else (s.setStringValueOn flash env text nvs).1 = .Ok := by
  unfold setStringValueOn Flash.set
  rw [h]
  dsimp only
  split_ifs <;> simp_all

theorem StringSetting.setStringValueOn_ok (nvs : Nvs) (s : StringSetting) {value : Bytes}
    (h : s.convert env text = .ok value) :
    if flash.writeFails = true ∧ value ≠ s.storedValue ∧ value ≠ s.defaultValue then
      s.setStringValueOn flash env text nvs = (.NvsSetFailed, { s with currentValue := value }, nvs)
    else (s.setStringValueOn flash env text nvs).1 = .Ok := by
  unfold setStringValueOn Flash.set
  rw [h]
  dsimp only
  split_ifs <;> simp_all

theorem EnumSetting.setStringValueOn_ok (nvs : Nvs) (s : EnumSetting) {value : Int8}
    (h : s.convert env text = .ok value) :
    if flash.writeFails = true ∧ value ≠ s.storedValue ∧ value ≠ s.defaultValue then
      s.setStringValueOn flash env text nvs = (.NvsSetFailed, { s with currentValue := value }, nvs)
    else (s.setStringValueOn flash env text nvs).1 = .Ok := by
  unfold setStringValueOn Flash.set
  rw [h]
  dsimp only
  split_ifs <;> simp_all

theorem IPaddrSetting.setStringValueOn_ok (nvs : Nvs) (s : IPaddrSetting) {value : UInt32}
    (h : s.convert fromString env text = .ok value) :
    if flash.writeFails = true ∧ value ≠ s.storedValue ∧ value ≠ s.defaultValue then
      s.setStringValueOn fromString flash env text nvs = (.NvsSetFailed, { s with currentValue := value }, nvs)
    else (s.setStringValueOn fromString flash env text nvs).1 = .Ok := by
  unfold setStringValueOn Flash.set
  rw [h]
  dsimp only
  split_ifs <;> simp_all

/-- A refused write shows exactly when the value was new. -/
theorem Setting.atomic_iff (nvs : Nvs) (s : Setting) :
    ((s.setStringValueOn fromString flash env text nvs).1 ≠ .Ok →
      s.Unchanged nvs (s.setStringValueOn fromString flash env text nvs).2.1
        (s.setStringValueOn fromString flash env text nvs).2.2) ↔
      ¬ (flash.writeFails = true ∧ s.RefusesNew fromString env text) := by
  cases s with
  | int s =>
    cases hlive : s.currentIsNvm with
    | true =>
      refine iff_of_true (fun hfails => ?_) ?_
      · change (s.setStringValueOn flash env text nvs).1 ≠ .Ok at hfails
        have hkept : (s.setStringValueOn flash env text nvs).2 = (s, nvs) := by
          cases hconvert : s.convert env text with
          | error err => simp [IntSetting.setStringValueOn, hconvert]
          | ok value =>
            have houtcome := s.setStringValueOn_ok flash env text nvs hconvert
            split at houtcome
            · rw [houtcome]
            · exact absurd houtcome hfails
        change (Setting.int s).Unchanged nvs (.int (s.setStringValueOn flash env text nvs).2.1)
          (s.setStringValueOn flash env text nvs).2.2
        rw [hkept]
        exact .refl nvs _
      · rintro ⟨-, value, -, hnever, -⟩
        rw [hlive] at hnever
        cases hnever
    | false =>
      have hiff := atomic_iff_of flash Setting.int (fun value => { s with currentValue := value }) s nvs
        (s.setStringValueOn flash env text nvs) (s.convert env text)
        (fun err hconvert => by simp [IntSetting.setStringValueOn, hconvert])
        (fun value hconvert => by simpa [hlive] using s.setStringValueOn_ok flash env text nvs hconvert)
        (rfl : _ = s) (fun value hother heq => hother (SettingValue.int.inj (Prod.mk.inj heq).1))
      refine hiff.trans (not_congr (and_congr_right' (exists_congr fun value => ?_)))
      simp [hlive]
  | string s =>
    exact atomic_iff_of flash Setting.string (fun value => { s with currentValue := value }) s nvs
      (s.setStringValueOn flash env text nvs) (s.convert env text)
      (fun err hconvert => by simp [StringSetting.setStringValueOn, hconvert])
      (fun value hconvert => s.setStringValueOn_ok flash env text nvs hconvert)
      rfl (fun value hother heq => hother (SettingValue.string.inj (Prod.mk.inj heq).1))
  | enum s =>
    exact atomic_iff_of flash Setting.enum (fun value => { s with currentValue := value }) s nvs
      (s.setStringValueOn flash env text nvs) (s.convert env text)
      (fun err hconvert => by simp [EnumSetting.setStringValueOn, hconvert])
      (fun value hconvert => s.setStringValueOn_ok flash env text nvs hconvert)
      rfl (fun value hother heq => hother (SettingValue.enum.inj (Prod.mk.inj heq).1))
  | ipaddr s =>
    exact atomic_iff_of flash Setting.ipaddr (fun value => { s with currentValue := value }) s nvs
      (s.setStringValueOn fromString flash env text nvs) (s.convert fromString env text)
      (fun err hconvert => by simp [IPaddrSetting.setStringValueOn, hconvert])
      (fun value hconvert => s.setStringValueOn_ok fromString flash env text nvs hconvert)
      rfl (fun value hother heq => hother (SettingValue.ipaddr.inj (Prod.mk.inj heq).1))

/-- A call that is turned down, for whatever reason, changes nothing, except when the
store refuses to write a value that is new to the setting: that value stays current
until the next start. -/
theorem AnySetting.rejected_changes_nothing_iff (nvs : Nvs) (s : AnySetting) :
    s.Atomic fromString flash env text nvs ↔ ¬ s.RefusesNew fromString flash env text := by
  cases s with
  | proxy got => exact iff_of_true (fun _ => rfl) not_false
  | checked c =>
    unfold Atomic setStringValueOn RefusesNew
    by_cases hallowed : text.all c.allowed = true
    · dsimp only
      rw [if_pos hallowed]
      refine (c.setting.atomic_iff fromString flash env text nvs).trans (not_congr ?_)
      simp only [hallowed, true_and]
    · dsimp only
      rw [if_neg hallowed]
      refine iff_of_true (fun _ => .refl nvs _) ?_
      rintro ⟨-, hall, -⟩
      exact hallowed hall

end Calls

/-- Seconds between patterns, never set before. -/
private def pauseTime : AnySetting :=
  .checked { setting := .int { keyName := bytes "Playlist/PauseTime", defaultValue := 0, currentValue := 0,
                               storedValue := Int32.minValue, minValue := 0, maxValue := 86400, allow_hold := true } }

/-- A store that is full turns down a pause of five seconds, which is in force all the
same. -/
theorem refused_value_is_current :
    ¬ ∀ (fromString : Bytes → Option UInt32) (flash : Flash) (env : WriteEnv) (text : Bytes) (nvs : Nvs)
      (s : AnySetting), s.Atomic fromString flash env text nvs := by
  intro h
  have hkept := h (fun _ => none) { writeFails := true } ⟨.Idle, false⟩ (bytes "5") (fun _ => none) pauseTime
    (by decide)
  exact absurd hkept.current (by decide)

end DuneWeaver
