import DuneWeaver.Settings.Setting
import DuneWeaver.Settings.WriteCache
import DuneWeaver.Transition.Run

namespace DuneWeaver

/-- A setting of any type. -/
inductive Setting where
  | int (s : IntSetting)
  | string (s : StringSetting)
  | enum (s : EnumSetting)
  | ipaddr (s : IPaddrSetting)

/-- The value of a setting, as `getStringValue` prints it. -/
inductive SettingValue where
  | int (value : Int32)
  | string (value : Bytes)
  | enum (value : Int8)
  | ipaddr (value : UInt32)
  deriving DecidableEq

inductive SettingCall where
  | setStringValue (env : WriteEnv) (text : Bytes)
  | setDefault
  deriving DecidableEq

namespace Setting

def value : Setting → SettingValue
  | int s => .int s.value
  | string s => .string s.value
  | enum s => .enum s.value
  | ipaddr s => .ipaddr s.value

def load (nvs : Nvs) : Setting → Setting
  | int s => int (s.load nvs)
  | string s => string (s.load nvs)
  | enum s => enum (s.load nvs)
  | ipaddr s => ipaddr (s.load nvs)

end Setting

/-- A setting and the store behind it. -/
structure Stored where
  setting : Setting
  nvs : Nvs

namespace Stored

/-- The setting as it is after a start. -/
def loaded (setting : Setting) (nvs : Nvs) : Stored where
  setting := setting.load nvs
  nvs := nvs

variable (fromString : Bytes → Option UInt32)

def call (w : Stored) : SettingCall → Error × Stored
  | .setStringValue env text =>
    match w.setting with
    | .int s =>
      let (err, s, nvs) := s.setStringValue env text w.nvs
      (err, ⟨.int s, nvs⟩)
    | .string s =>
      let (err, s, nvs) := s.setStringValue env text w.nvs
      (err, ⟨.string s, nvs⟩)
    | .enum s =>
      let (err, s, nvs) := s.setStringValue env text w.nvs
      (err, ⟨.enum s, nvs⟩)
    | .ipaddr s =>
      let (err, s, nvs) := s.setStringValue fromString env text w.nvs
      (err, ⟨.ipaddr s, nvs⟩)
  | .setDefault =>
    match w.setting with
    | .int s =>
      let (s, nvs) := s.setDefault w.nvs
      (.Ok, ⟨.int s, nvs⟩)
    | .string s =>
      let (s, nvs) := s.setDefault w.nvs
      (.Ok, ⟨.string s, nvs⟩)
    | .enum s =>
      let (s, nvs) := s.setDefault w.nvs
      (.Ok, ⟨.enum s, nvs⟩)
    | .ipaddr s =>
      let (s, nvs) := s.setDefault w.nvs
      (.Ok, ⟨.ipaddr s, nvs⟩)

def step (w : Stored) (c : SettingCall) : Stored := (w.call fromString c).2

/-- A start would find the value that is current. -/
def SurvivesReboot (w : Stored) : Prop := (w.setting.load w.nvs).value = w.setting.value

instance (w : Stored) : Decidable w.SurvivesReboot := inferInstanceAs (Decidable (_ = _))

/-- The call goes by what the setting remembers of a key that has been erased. A value
is not written because it was the last one to be, or because it looks like the
mark of a key that is missing; and a setting whose live value is the stored one
does not notice that it goes back to its default. -/
def Forgets (w : Stored) : SettingCall → Prop
  | .setStringValue env text =>
    match w.setting with
    | .int s =>
      match s.convert env text with
      | .ok value =>
        if s.currentIsNvm then value = s.defaultValue ∧ s.value ≠ s.defaultValue
        else s.storedValue = value ∧ s.currentValue ≠ value
      | .error _ => False
    | .string s =>
      match s.convert env text with
      | .ok value => s.storedValue = value ∧ s.value ≠ c_str value
      | .error _ => False
    | .enum s =>
      match s.convert env text with
      | .ok value => s.storedValue = value ∧ s.currentValue ≠ value
      | .error _ => False
    | .ipaddr s =>
      match s.convert fromString env text with
      | .ok value => s.storedValue = value ∧ s.currentValue ≠ value
      | .error _ => False
  | .setDefault =>
    match w.setting with
    | .int s => s.currentIsNvm ∧ s.value ≠ s.defaultValue
    | _ => False

end Stored

section Caches

variable (nvs : Nvs)

/-- What a setting keeps, and its key in the store. -/
def IntSetting.cached (s : IntSetting) : WriteCache Int32 Int32 :=
    ⟨s.currentValue, s.storedValue, nvs.get_i32 s.keyName⟩

def StringSetting.cached (s : StringSetting) : WriteCache Bytes Bytes :=
  ⟨s.currentValue, s.storedValue, nvs.get_str s.keyName⟩

def EnumSetting.cached (s : EnumSetting) : WriteCache Int8 Int8 := ⟨s.currentValue, s.storedValue, nvs.get_i8 s.keyName⟩

def IPaddrSetting.cached (s : IPaddrSetting) : WriteCache Int32 UInt32 :=
  ⟨s.currentValue, s.storedValue, nvs.get_i32 s.keyName⟩

/-- The store hands out C strings. -/
theorem c_str_get_str {nvs : Nvs} {key value : Bytes} (h : nvs.get_str key = some value) : c_str value = value := by
  unfold Nvs.get_str at h
  split at h
  · cases h
    exact c_str_c_str _
  · cases h

theorem StringSetting.survives_iff (s : StringSetting) :
    (s.load nvs).value = s.value ↔ (s.cached nvs).Agrees c_str s.defaultValue := by
  unfold StringSetting.load StringSetting.value StringSetting.cached WriteCache.Agrees
  cases hcell : nvs.get_str s.keyName with
  | none => rfl
  | some value => simp [c_str_get_str hcell]

theorem EnumSetting.survives_iff (s : EnumSetting) :
    (s.load nvs).value = s.value ↔ (s.cached nvs).Agrees id s.defaultValue := by
  unfold EnumSetting.load EnumSetting.value EnumSetting.cached WriteCache.Agrees
  cases nvs.get_i8 s.keyName <;> rfl

/-- The store's type holds every address apart. -/
theorem toInt32_inj {x y : UInt32} : x.toInt32 = y.toInt32 ↔ x = y := by
  constructor
  · intro hsame
    rw [← x.toUInt32_toInt32, hsame, y.toUInt32_toInt32]
  · rintro rfl
    rfl

theorem IPaddrSetting.survives_iff (s : IPaddrSetting) :
    (s.load nvs).value = s.value ↔ (s.cached nvs).Agrees UInt32.toInt32 s.defaultValue := by
  unfold IPaddrSetting.load IPaddrSetting.value IPaddrSetting.cached WriteCache.Agrees
  cases nvs.get_i32 s.keyName with
  | none => exact toInt32_inj.symm
  | some value => simp [← toInt32_inj]

theorem IntSetting.survives_iff (s : IntSetting) (hlive : s.currentIsNvm = false) :
    (s.load nvs).value = s.value ↔ (s.cached nvs).Agrees id s.defaultValue := by
  unfold IntSetting.load IntSetting.value IntSetting.cached WriteCache.Agrees
  cases nvs.get_i32 s.keyName <;> simp [hlive]

theorem StringSetting.cached_setDefault (s : StringSetting) :
    (s.setDefault nvs).1.cached (s.setDefault nvs).2 = (s.cached nvs).restore s.defaultValue ∧
      (s.setDefault nvs).1.defaultValue = s.defaultValue := by
  unfold StringSetting.setDefault StringSetting.cached WriteCache.restore
  dsimp only
  split_ifs <;> simp

theorem StringSetting.cached_assign (s : StringSetting) (text : Bytes) :
    (s.assign text nvs).1.cached (s.assign text nvs).2 =
        (s.cached nvs).assign c_str s.defaultValue (fun _ => s.defaultValue) text ∧
      (s.assign text nvs).1.defaultValue = s.defaultValue := by
  unfold StringSetting.assign StringSetting.cached WriteCache.assign
  dsimp only
  split_ifs <;> simp

theorem EnumSetting.cached_setDefault (s : EnumSetting) :
    (s.setDefault nvs).1.cached (s.setDefault nvs).2 = (s.cached nvs).restore s.defaultValue ∧
      (s.setDefault nvs).1.defaultValue = s.defaultValue := by
  unfold EnumSetting.setDefault EnumSetting.cached WriteCache.restore
  dsimp only
  split_ifs <;> simp

theorem EnumSetting.cached_assign (s : EnumSetting) (value : Int8) :
    (s.assign value nvs).1.cached (s.assign value nvs).2 = (s.cached nvs).assign id s.defaultValue id value ∧
      (s.assign value nvs).1.defaultValue = s.defaultValue := by
  unfold EnumSetting.assign EnumSetting.cached WriteCache.assign
  dsimp only
  split_ifs <;> simp

theorem IPaddrSetting.cached_setDefault (s : IPaddrSetting) :
    (s.setDefault nvs).1.cached (s.setDefault nvs).2 = (s.cached nvs).restore s.defaultValue ∧
      (s.setDefault nvs).1.defaultValue = s.defaultValue := by
  unfold IPaddrSetting.setDefault IPaddrSetting.cached WriteCache.restore
  dsimp only
  split_ifs <;> simp

theorem IPaddrSetting.cached_assign (s : IPaddrSetting) (ipaddr : UInt32) :
    (s.assign ipaddr nvs).1.cached (s.assign ipaddr nvs).2 =
        (s.cached nvs).assign UInt32.toInt32 s.defaultValue id ipaddr ∧
      (s.assign ipaddr nvs).1.defaultValue = s.defaultValue := by
  unfold IPaddrSetting.assign IPaddrSetting.cached WriteCache.assign
  dsimp only
  split_ifs <;> simp

theorem IntSetting.setDefault_currentIsNvm (s : IntSetting) :
    (s.setDefault nvs).1.currentIsNvm = s.currentIsNvm := by
  unfold IntSetting.setDefault
  dsimp only
  split_ifs <;> rfl

theorem IntSetting.assign_currentIsNvm (s : IntSetting) (value : Int32) :
    (s.assign value nvs).1.currentIsNvm = s.currentIsNvm := by
  unfold IntSetting.assign
  dsimp only
  split_ifs <;> rfl

theorem IntSetting.cached_setDefault (s : IntSetting) (hlive : s.currentIsNvm = false) :
    (s.setDefault nvs).1.cached (s.setDefault nvs).2 = (s.cached nvs).restore s.defaultValue ∧
      (s.setDefault nvs).1.defaultValue = s.defaultValue := by
  unfold IntSetting.setDefault IntSetting.cached WriteCache.restore
  dsimp only
  rw [if_neg (by simp [hlive])]
  split_ifs <;> simp

theorem IntSetting.cached_assign (s : IntSetting) (value : Int32) (hlive : s.currentIsNvm = false) :
    (s.assign value nvs).1.cached (s.assign value nvs).2 = (s.cached nvs).assign id s.defaultValue id value ∧
      (s.assign value nvs).1.defaultValue = s.defaultValue := by
  unfold IntSetting.assign IntSetting.cached WriteCache.assign
  dsimp only
  simp only [hlive, Bool.false_eq_true, not_false_eq_true, if_true]
  split_ifs <;> simp

/-- Where the live value is the stored one, an erase goes unnoticed. -/
theorem IntSetting.erase_survives_iff (s : IntSetting) (hnvm : s.currentIsNvm = true) :
    (s.load (nvs.erase_key s.keyName)).value = s.value ↔ s.value = s.defaultValue := by
  have hdefault : (s.load (nvs.erase_key s.keyName)).value = s.defaultValue := by
    simp [IntSetting.load, IntSetting.value, hnvm]
  rw [hdefault]
  exact eq_comm

theorem IntSetting.nvm_assign_survives_iff (s : IntSetting) (value : Int32) (hnvm : s.currentIsNvm = true)
    (h : (s.load nvs).value = s.value) :
    ((s.assign value nvs).1.load (s.assign value nvs).2).value = (s.assign value nvs).1.value ↔
      ¬ (value = s.defaultValue ∧ s.value ≠ s.defaultValue) := by
  unfold IntSetting.assign
  simp only [hnvm, not_true, if_false]
  split_ifs with hstored hdefault
  · dsimp only
    rw [s.erase_survives_iff nvs hnvm]
    simp [hdefault]
  · simp [IntSetting.load, IntSetting.value, hnvm, hdefault]
  · have hcached := not_not.mp hstored
    refine iff_of_true h ?_
    rintro ⟨hdefault, hother⟩
    apply hother
    unfold IntSetting.value
    rw [if_pos hnvm, hcached, hdefault, ite_self]

end Caches

namespace Stored

variable (fromString : Bytes → Option UInt32)

/-- What a setting remembers of a key that is there is true. -/
def Honest (w : Stored) : Prop :=
  match w.setting with
  | .int s => s.currentIsNvm = true ∨ (s.cached w.nvs).Honest id
  | .string s => (s.cached w.nvs).Honest c_str
  | .enum s => (s.cached w.nvs).Honest id
  | .ipaddr s => (s.cached w.nvs).Honest UInt32.toInt32

theorem loaded_honest (setting : Setting) (nvs : Nvs) : (loaded setting nvs).Honest := by
  cases setting with
  | int s =>
    right
    change ((s.load nvs).cached nvs).Honest id
    intro v hv
    unfold IntSetting.cached IntSetting.load at *
    cases hcell : nvs.get_i32 s.keyName <;> simp_all
  | string s =>
    change ((s.load nvs).cached nvs).Honest c_str
    intro v hv
    have hcell : nvs.get_str s.keyName = some v := by
      unfold StringSetting.cached StringSetting.load at hv
      cases hcell : nvs.get_str s.keyName <;> simp_all
    unfold StringSetting.cached StringSetting.load
    rw [hcell]
    exact (c_str_get_str hcell).symm
  | enum s =>
    change ((s.load nvs).cached nvs).Honest id
    intro v hv
    unfold EnumSetting.cached EnumSetting.load at *
    cases hcell : nvs.get_i8 s.keyName <;> simp_all
  | ipaddr s =>
    change ((s.load nvs).cached nvs).Honest UInt32.toInt32
    intro v hv
    unfold IPaddrSetting.cached IPaddrSetting.load at *
    cases hcell : nvs.get_i32 s.keyName <;> simp_all

/-- Loading twice is loading once. -/
theorem loaded_survives (setting : Setting) (nvs : Nvs) : (loaded setting nvs).SurvivesReboot := by
  unfold SurvivesReboot loaded
  congr 1
  cases setting with
  | int s =>
    simp only [Setting.load, IntSetting.load]
    cases hcell : nvs.get_i32 s.keyName <;> simp [hcell]
  | string s =>
    simp only [Setting.load, StringSetting.load]
    cases hcell : nvs.get_str s.keyName <;> simp [hcell]
  | enum s =>
    simp only [Setting.load, EnumSetting.load]
    cases hcell : nvs.get_i8 s.keyName <;> simp [hcell]
  | ipaddr s =>
    simp only [Setting.load, IPaddrSetting.load]
    cases hcell : nvs.get_i32 s.keyName <;> simp [hcell]

theorem step_honest (w : Stored) (c : SettingCall) (h : w.Honest) : (w.step fromString c).Honest := by
  obtain ⟨setting, nvs⟩ := w
  cases setting with
  | int s =>
    change s.currentIsNvm = true ∨ (s.cached nvs).Honest id at h
    cases c with
    | setDefault =>
      change (s.setDefault nvs).1.currentIsNvm = true ∨ ((s.setDefault nvs).1.cached (s.setDefault nvs).2).Honest id
      cases hlive : s.currentIsNvm with
      | true => exact .inl ((s.setDefault_currentIsNvm nvs).trans hlive)
      | false =>
        rw [(s.cached_setDefault nvs hlive).1]
        exact .inr (h.resolve_left (by simp [hlive])).restore
    | setStringValue env text =>
      unfold step call IntSetting.setStringValue
      dsimp only
      cases s.convert env text with
      | error err => exact h
      | ok value =>
        change (s.assign value nvs).1.currentIsNvm = true ∨
          ((s.assign value nvs).1.cached (s.assign value nvs).2).Honest id
        cases hlive : s.currentIsNvm with
        | true => exact .inl ((s.assign_currentIsNvm nvs value).trans hlive)
        | false =>
          rw [(s.cached_assign nvs value hlive).1]
          exact .inr ((h.resolve_left (by simp [hlive])).assign value)
  | string s =>
    change (s.cached nvs).Honest c_str at h
    cases c with
    | setDefault =>
      change ((s.setDefault nvs).1.cached (s.setDefault nvs).2).Honest c_str
      rw [(s.cached_setDefault nvs).1]
      exact h.restore
    | setStringValue env text =>
      unfold step call StringSetting.setStringValue
      dsimp only
      cases s.convert env text with
      | error err => exact h
      | ok value =>
        change ((s.assign value nvs).1.cached (s.assign value nvs).2).Honest c_str
        rw [(s.cached_assign nvs value).1]
        exact h.assign value
  | enum s =>
    change (s.cached nvs).Honest id at h
    cases c with
    | setDefault =>
      change ((s.setDefault nvs).1.cached (s.setDefault nvs).2).Honest id
      rw [(s.cached_setDefault nvs).1]
      exact h.restore
    | setStringValue env text =>
      unfold step call EnumSetting.setStringValue
      dsimp only
      cases s.convert env text with
      | error err => exact h
      | ok value =>
        change ((s.assign value nvs).1.cached (s.assign value nvs).2).Honest id
        rw [(s.cached_assign nvs value).1]
        exact h.assign value
  | ipaddr s =>
    change (s.cached nvs).Honest UInt32.toInt32 at h
    cases c with
    | setDefault =>
      change ((s.setDefault nvs).1.cached (s.setDefault nvs).2).Honest UInt32.toInt32
      rw [(s.cached_setDefault nvs).1]
      exact h.restore
    | setStringValue env text =>
      unfold step call IPaddrSetting.setStringValue
      dsimp only
      cases s.convert fromString env text with
      | error err => exact h
      | ok value =>
        change ((s.assign value nvs).1.cached (s.assign value nvs).2).Honest UInt32.toInt32
        rw [(s.cached_assign nvs value).1]
        exact h.assign value

/-- The value of a setting survives exactly when the value under its constructor
does. -/
private theorem survives_of_value {w : Stored} {α : Type} {v v' : α} {wrap : α → SettingValue}
    (hwrap : Function.Injective wrap) (hloaded : (w.setting.load w.nvs).value = wrap v')
    (hvalue : w.setting.value = wrap v) : w.SurvivesReboot ↔ v' = v := by
  unfold SurvivesReboot
  rw [hloaded, hvalue]
  exact hwrap.eq_iff

/-- One call keeps the stored value in line unless it goes by a memory of an erased
key. -/
theorem step_survives_iff (w : Stored) (c : SettingCall) (hhonest : w.Honest) (h : w.SurvivesReboot) :
    (w.step fromString c).SurvivesReboot ↔ ¬ w.Forgets fromString c := by
  obtain ⟨setting, nvs⟩ := w
  cases setting with
  | int s =>
    have hsurvives (s : IntSetting) (nvs : Nvs) :
        SurvivesReboot ⟨.int s, nvs⟩ ↔ (s.load nvs).value = s.value :=
      survives_of_value (fun _ _ hsame => SettingValue.int.inj hsame) rfl rfl
    rw [hsurvives] at h
    cases c with
    | setDefault =>
      refine (hsurvives (s.setDefault nvs).1 (s.setDefault nvs).2).trans ?_
      cases hlive : s.currentIsNvm with
      | true =>
        have herase : s.setDefault nvs = (s, nvs.erase_key s.keyName) := by simp [IntSetting.setDefault, hlive]
        rw [herase, s.erase_survives_iff nvs hlive]
        simp [Forgets, hlive]
      | false =>
        have hcached : (s.cached nvs).Honest id := Or.resolve_left hhonest (by simp [hlive])
        have hstill := (s.setDefault_currentIsNvm nvs).trans hlive
        rw [IntSetting.survives_iff _ _ hstill]
        exact iff_of_true (hcached.restored_agrees (s.cached_setDefault nvs hlive)) (by simp [Forgets, hlive])
    | setStringValue env text =>
      unfold step call IntSetting.setStringValue Forgets
      dsimp only
      cases s.convert env text with
      | error err => exact iff_of_true ((hsurvives s nvs).mpr h) not_false
      | ok value =>
        refine (hsurvives (s.assign value nvs).1 (s.assign value nvs).2).trans ?_
        dsimp only
        cases hlive : s.currentIsNvm with
        | true => simpa [hlive] using s.nvm_assign_survives_iff nvs value hlive h
        | false =>
          have hstill := (s.assign_currentIsNvm nvs value).trans hlive
          rw [s.survives_iff nvs hlive] at h
          rw [IntSetting.survives_iff _ _ hstill, h.assigned_iff (s.cached_assign nvs value hlive)]
          simp [IntSetting.cached]
  | string s =>
    have hsurvives (s : StringSetting) (nvs : Nvs) :
        SurvivesReboot ⟨.string s, nvs⟩ ↔ (s.cached nvs).Agrees c_str s.defaultValue :=
      (survives_of_value (fun _ _ hsame => SettingValue.string.inj hsame) rfl rfl).trans (s.survives_iff nvs)
    rw [hsurvives] at h
    cases c with
    | setDefault =>
      have hagrees := WriteCache.Honest.restored_agrees hhonest (s.cached_setDefault nvs)
      exact iff_of_true ((hsurvives _ _).mpr hagrees) not_false
    | setStringValue env text =>
      unfold step call StringSetting.setStringValue Forgets
      dsimp only
      cases s.convert env text with
      | error err => exact iff_of_true ((hsurvives s nvs).mpr h) not_false
      | ok value =>
        exact (hsurvives _ _).trans (h.assigned_iff (s.cached_assign nvs value))
  | enum s =>
    have hsurvives (s : EnumSetting) (nvs : Nvs) :
        SurvivesReboot ⟨.enum s, nvs⟩ ↔ (s.cached nvs).Agrees id s.defaultValue :=
      (survives_of_value (fun _ _ hsame => SettingValue.enum.inj hsame) rfl rfl).trans (s.survives_iff nvs)
    rw [hsurvives] at h
    cases c with
    | setDefault =>
      have hagrees := WriteCache.Honest.restored_agrees hhonest (s.cached_setDefault nvs)
      exact iff_of_true ((hsurvives _ _).mpr hagrees) not_false
    | setStringValue env text =>
      unfold step call EnumSetting.setStringValue Forgets
      dsimp only
      cases s.convert env text with
      | error err => exact iff_of_true ((hsurvives s nvs).mpr h) not_false
      | ok value =>
        exact (hsurvives _ _).trans (h.assigned_iff (s.cached_assign nvs value))
  | ipaddr s =>
    have hsurvives (s : IPaddrSetting) (nvs : Nvs) :
        SurvivesReboot ⟨.ipaddr s, nvs⟩ ↔ (s.cached nvs).Agrees UInt32.toInt32 s.defaultValue :=
      (survives_of_value (fun _ _ hsame => SettingValue.ipaddr.inj hsame) rfl rfl).trans (s.survives_iff nvs)
    rw [hsurvives] at h
    cases c with
    | setDefault =>
      have hagrees := WriteCache.Honest.restored_agrees hhonest (s.cached_setDefault nvs)
      exact iff_of_true ((hsurvives _ _).mpr hagrees) not_false
    | setStringValue env text =>
      unfold step call IPaddrSetting.setStringValue Forgets
      dsimp only
      cases s.convert fromString env text with
      | error err => exact iff_of_true ((hsurvives s nvs).mpr h) not_false
      | ok value =>
        refine ((hsurvives _ _).trans (h.assigned_iff (s.cached_assign nvs value))).trans ?_
        unfold IPaddrSetting.cached
        rw [Ne, toInt32_inj]

/-- After every sequence of calls on a freshly loaded setting a start finds the current
value, exactly when none of the calls goes by a memory of an erased key. -/
theorem settings_survive_reboot_iff (setting : Setting) (nvs : Nvs) (calls : List SettingCall) :
    Transition.Always (step fromString) SurvivesReboot (loaded setting nvs) calls ↔
      Transition.Throughout (step fromString) (fun w c => ¬ w.Forgets fromString c) (loaded setting nvs) calls := by
  have hanyway : Transition.Throughout (step fromString) (fun _ _ => True) (loaded setting nvs) calls :=
    Transition.throughout_of_forall (fun _ _ => trivial) _ calls
  exact Transition.always_iff_throughout_not (I := Honest)
    (fun w c hhonest _ _ => w.step_honest fromString c hhonest)
    (fun w c hhonest _ h => w.step_survives_iff fromString c hhonest h)
    (loaded_honest setting nvs) (loaded_survives setting nvs) hanyway

/-- A number from 0 to 100 that has never been set. -/
private def percentage : Setting :=
  .int { keyName := bytes "a", defaultValue := 0, currentValue := 0, storedValue := 0, minValue := 0, maxValue := 100 }

/-- A value that is set, given up for the default and set again is gone after a
reboot. -/
theorem set_again_is_forgotten :
    ¬ ∀ (fromString : Bytes → Option UInt32) (setting : Setting) (nvs : Nvs) (calls : List SettingCall),
      Transition.Throughout (step fromString) (fun w c => (w.call fromString c).1 = .Ok) (loaded setting nvs) calls →
        Transition.Always (step fromString) SurvivesReboot (loaded setting nvs) calls := by
  intro h
  have hsurvives := h (fun _ => none) percentage (fun _ => none)
    [.setStringValue ⟨.Idle, false⟩ (bytes "5"), .setDefault, .setStringValue ⟨.Idle, false⟩ (bytes "5")] (by decide)
  exact absurd hsurvives.last (by decide)

end Stored

end DuneWeaver
