import DuneWeaver.Configuration.ItemText
import DuneWeaver.Settings.Setting
import DuneWeaver.ThetaRho
import DuneWeaver.Transition.Run

open Transition
open DuneWeaver.Configuration (to_string trim_to_string digits_value digits_ne_nil isdigit_of_mem_digits)

namespace DuneWeaver

/-- The feeds of a table with `ThetaRho` kinematics, its `$THR/Feed` as the setting that it is. -/
structure ThrFeed where
  live_feed : Int
  clear_feed : Int
  feed_setting : IntSetting
  nvs : Nvs

namespace ThrFeed

/-- `$THR/Feed` as `init` makes it, with what the flash holds. -/
def init (default_feed : Int32) (nvs : Nvs) : ThrFeed where
  live_feed := -1
  clear_feed := -1
  feed_setting :=
    { keyName := bytes "THR/Feed", defaultValue := default_feed, currentValue := default_feed,
      storedValue := default_feed, minValue := 0, maxValue := 100000 : IntSetting }.load nvs
  nvs

/-- `$THR/Feed=text`, on a flash that takes every write. -/
def setStringValue (env : WriteEnv) (text : Bytes) (f : ThrFeed) : Error × ThrFeed :=
  let (err, feed_setting, nvs) := f.feed_setting.setStringValue env text f.nvs
  (err, { f with feed_setting, nvs })

def flushFeedLive (env : WriteEnv) (f : ThrFeed) : ThrFeed :=
  if f.live_feed < 0 then f
  else if env.state = .Idle ∨ env.state = .Alarm then
    { (f.setStringValue env (to_string f.live_feed)).2 with live_feed := -1 }
  else f

def effectiveFeed (f : ThrFeed) : Int :=
  if f.clear_feed ≥ 0 then f.clear_feed
  else if f.live_feed ≥ 0 then f.live_feed
  else f.feed_setting.value.toInt

def setFeedLive (env : WriteEnv) (mm_per_min : Int) (f : ThrFeed) : Error × ThrFeed :=
  if mm_per_min < 0 ∨ mm_per_min > 100000 then (.NumberRange, f)
  else if env.state = .Idle ∨ env.state = .Alarm then
    { f with live_feed := -1 }.setStringValue env (to_string mm_per_min)
  else (.Ok, { f with live_feed := mm_per_min })

/-- The value of `$THR/Feed` that a start finds. -/
def persisted (f : ThrFeed) : Int32 := (f.feed_setting.load f.nvs).value

/-- The feeds without the store behind the setting. -/
def toThetaRho (f : ThrFeed) : ThetaRho where
  live_feed := f.live_feed
  clear_feed := f.clear_feed
  feed_setting := some f.feed_setting.value.toInt

/-- What never changes of the setting. -/
structure IsFeed (s : IntSetting) : Prop where
  min : s.minValue = 0
  max : s.maxValue = 100000
  live : s.currentIsNvm = false
  hold : s.allow_hold = false

section Setting

variable {s : IntSetting} {nvs : Nvs} {env : WriteEnv} {f : ThrFeed}

theorem isFeed_init (default_feed : Int32) (nvs : Nvs) : IsFeed (init default_feed nvs).feed_setting := by
  unfold init IntSetting.load
  dsimp only
  split <;> exact ⟨rfl, rfl, rfl, rfl⟩

theorem assign_eq (h : IsFeed s) (value : Int32) (nvs : Nvs) :
    s.assign value nvs =
      if s.storedValue ≠ value then
        if value = s.defaultValue then ({ s with currentValue := value }, nvs.erase_key s.keyName)
        else ({ s with currentValue := value, storedValue := value }, nvs.set s.keyName (.i32 value))
      else ({ s with currentValue := value }, nvs) := by
  have hlive := h.live
  cases s
  cases hlive
  rfl

theorem isFeed_assign (h : IsFeed s) (value : Int32) (nvs : Nvs) : IsFeed (s.assign value nvs).1 := by
  rw [assign_eq h]
  split
  · split <;> exact ⟨h.min, h.max, h.live, h.hold⟩
  · exact ⟨h.min, h.max, h.live, h.hold⟩

theorem value_eq (h : IsFeed s) : s.value = s.currentValue := by
  rw [IntSetting.value, if_neg (by rw [h.live]; exact Bool.false_ne_true)]

theorem value_assign (h : IsFeed s) (value : Int32) (nvs : Nvs) : (s.assign value nvs).1.value = value := by
  rw [value_eq (isFeed_assign h value nvs), assign_eq h]
  split
  · split <;> rfl
  · rfl

theorem load_load (nvs : Nvs) (s : IntSetting) : (s.load nvs).load nvs = s.load nvs := by
  have hkey : (s.load nvs).keyName = s.keyName := by
    rw [IntSetting.load]
    split <;> rfl
  rw [IntSetting.load, hkey]
  unfold IntSetting.load
  cases nvs.get_i32 s.keyName <;> rfl

/-- After a load the setting believes the flash to hold what it holds. -/
theorem stored_load (nvs : Nvs) (s : IntSetting) {value : Int32}
    (hcell : nvs.get_i32 (s.load nvs).keyName = some value) : (s.load nvs).storedValue = value := by
  unfold IntSetting.load at hcell ⊢
  cases hread : nvs.get_i32 s.keyName with
  | none =>
    rw [hread] at hcell
    dsimp only at hcell
    rw [hread] at hcell
    cases hcell
  | some cell =>
    rw [hread] at hcell
    dsimp only at hcell
    exact Option.some.inj (hread.symm.trans hcell)

theorem value_load (h : IsFeed s) (nvs : Nvs) : (s.load nvs).value = (nvs.get_i32 s.keyName).getD s.defaultValue := by
  rw [IntSetting.load]
  cases nvs.get_i32 s.keyName with
  | none => exact if_neg (by rw [h.live]; exact Bool.false_ne_true)
  | some value => exact if_neg (by rw [h.live]; exact Bool.false_ne_true)

/-- The flash is written unless it is believed to hold the value. -/
theorem load_assign (h : IsFeed s) (value : Int32) (nvs : Nvs) :
    ((s.assign value nvs).1.load (s.assign value nvs).2).value =
      if s.storedValue = value then (s.load nvs).value else value := by
  rw [value_load (isFeed_assign h value nvs), value_load h, assign_eq h]
  by_cases hstored : s.storedValue = value
  · rw [if_neg (not_not.mpr hstored), if_pos hstored]
  · rw [if_pos hstored, if_neg hstored]
    split
    case isTrue hdefault => rw [Nvs.get_i32_erase_key, Option.getD_none, hdefault]
    case isFalse hdefault => rw [Nvs.get_i32_set, Option.getD_some]

/-- A number in range is read back from its digits. -/
theorem from_chars_to_string {n : Int} (hlow : 0 ≤ n) (hhigh : n ≤ 100000) :
    from_chars (trim (to_string n)) = some (.ofInt n) := by
  have hdigits : ∀ c ∈ digits n.natAbs, isdigit c = true := fun c hc => isdigit_of_mem_digits hc
  have hsign : (digits n.natAbs).head? ≠ some 45 := fun h => absurd (hdigits 45 (List.mem_of_mem_head? h)) (by decide)
  have htake : (digits n.natAbs).takeWhile isdigit = digits n.natAbs := List.takeWhile_eq_self_iff.mpr hdigits
  have hvalue : (digits n.natAbs).foldl (fun (m : Int) c => m * 10 + (c.toNat - 48 : Int)) 0 = n := by
    have hmul : (fun (m : Int) (c : UInt8) => m * 10 + (c.toNat - 48 : Int)) =
        fun (m : Int) (c : UInt8) => 10 * m + (c.toNat - 48 : Int) := by
      funext m c
      rw [Int.mul_comm]
    rw [hmul, digits_value]
    omega
  have hmin : Int32.minValue.toInt ≤ n := by
    have hvalue : Int32.minValue.toInt = -2147483648 := rfl
    omega
  have hmax : n ≤ Int32.maxValue.toInt := by
    have hvalue : Int32.maxValue.toInt = 2147483647 := rfl
    omega
  rw [trim_to_string, to_string, if_neg (by omega), from_chars]
  simp only [hsign, if_false, htake, hvalue, digits_ne_nil, hmin, hmax, and_self, if_true]

theorem toInt_ofInt {n : Int} (hlow : 0 ≤ n) (hhigh : n ≤ 100000) : (Int32.ofInt n).toInt = n :=
  Int32.toInt_ofInt_of_le (by omega) (by omega)

/-- At rest the setting takes every number in range. -/
theorem convert_to_string (h : IsFeed s) (henv : env.state = .Idle ∨ env.state = .Alarm) {n : Int} (hlow : 0 ≤ n)
    (hhigh : n ≤ 100000) : s.convert env (to_string n) = .ok (.ofInt n) := by
  have hcheck : check_state env s.allow_hold = .Ok := by
    rw [check_state, h.hold]
    rcases henv with hstate | hstate <;> simp [hstate, notIdleOrAlarm]
  have hrange : ¬ (Int32.ofInt n < s.minValue ∨ Int32.ofInt n > s.maxValue) := by
    have hmin : (0 : Int32).toInt = 0 := rfl
    have hmax : (100000 : Int32).toInt = 100000 := rfl
    rw [h.min, h.max, gt_iff_lt, Int32.lt_iff_toInt_lt, Int32.lt_iff_toInt_lt, toInt_ofInt hlow hhigh, hmin, hmax]
    omega
  rw [IntSetting.convert, hcheck]
  dsimp only
  rw [from_chars_to_string hlow hhigh]
  dsimp only
  rw [if_neg hrange]

/-- What a number in range does to the setting at rest. -/
theorem setStringValue_to_string (h : IsFeed f.feed_setting) (henv : env.state = .Idle ∨ env.state = .Alarm) {n : Int}
    (hlow : 0 ≤ n) (hhigh : n ≤ 100000) :
    f.setStringValue env (to_string n) =
      (.Ok, { f with feed_setting := (f.feed_setting.assign (.ofInt n) f.nvs).1,
                     nvs := (f.feed_setting.assign (.ofInt n) f.nvs).2 }) := by
  rw [setStringValue, IntSetting.setStringValue, convert_to_string h henv hlow hhigh]

/-- A live request at rest is a setting. -/
theorem setFeedLive_rest (h : IsFeed f.feed_setting) (henv : env.state = .Idle ∨ env.state = .Alarm) {n : Int}
    (hlow : 0 ≤ n) (hhigh : n ≤ 100000) :
    f.setFeedLive env n =
      (.Ok, { f with live_feed := -1, feed_setting := (f.feed_setting.assign (.ofInt n) f.nvs).1,
                     nvs := (f.feed_setting.assign (.ofInt n) f.nvs).2 }) := by
  rw [setFeedLive, if_neg (by omega), if_pos henv]
  exact setStringValue_to_string (f := { f with live_feed := -1 }) h henv hlow hhigh

/-- The feeds do what they do without the store behind the setting. -/
theorem flushFeedLive_toThetaRho (h : IsFeed f.feed_setting) (hrange : f.live_feed ≤ 100000) :
    (f.flushFeedLive env).toThetaRho = f.toThetaRho.flushFeedLive env.state := by
  rw [flushFeedLive, ThetaRho.flushFeedLive]
  by_cases hlive : f.live_feed < 0
  · rw [if_pos hlive, if_pos (.inl hlive)]
  · have hthere : ¬ (f.toThetaRho.live_feed < 0 ∨ f.toThetaRho.feed_setting = none) :=
      fun h => h.elim hlive fun h => Option.some_ne_none _ h
    rw [if_neg hlive, if_neg hthere]
    split
    case isTrue henv =>
      have hlow : 0 ≤ f.live_feed := by omega
      rw [setStringValue_to_string h henv hlow hrange]
      simp only [toThetaRho, value_assign h, toInt_ofInt hlow hrange]
    case isFalse henv => rfl

theorem effectiveFeed_toThetaRho (f : ThrFeed) : f.toThetaRho.effectiveFeed = f.effectiveFeed := rfl

end Setting

/-- The setting does not write the value, which it believes the flash to hold, though the flash has lost it: the key
was erased when the setting went back to its default. -/
def SkipsWrite (f : ThrFeed) (value : Int32) : Prop :=
  f.feed_setting.storedValue = value ∧ value ≠ f.feed_setting.defaultValue ∧
    f.nvs.get_i32 f.feed_setting.keyName = none

instance (f : ThrFeed) (value : Int32) : Decidable (f.SkipsWrite value) := inferInstanceAs (Decidable (_ ∧ _))

/-- The feeds in the course of things. `last` is the request that was accepted last, and `flushed` says whether a
flush has found the machine idle since; `skipped` says whether the last value given to the setting was not written. -/
structure Run extends ThrFeed where
  env : WriteEnv
  last : Option Int
  flushed : Bool
  skipped : Bool

inductive Call
  | setFeedLive (mm_per_min : Int)
  | setting (text : Bytes)
  | flush
  | machine (env : WriteEnv)

namespace Run

/-- After a start, with any flash. -/
def boot (default_feed : Int32) (nvs : Nvs) (env : WriteEnv) : Run where
  toThrFeed := init default_feed nvs
  env
  last := none
  flushed := false
  skipped := false

/-- What the call gives the setting. -/
def given (r : Run) : Call → Option Int32
  | .setFeedLive mm_per_min =>
    if 0 ≤ mm_per_min ∧ mm_per_min ≤ 100000 ∧ (r.env.state = .Idle ∨ r.env.state = .Alarm) then some (.ofInt mm_per_min)
    else none
  | .setting text => (r.feed_setting.convert r.env text).toOption
  | .flush => if r.live_feed ≥ 0 ∧ (r.env.state = .Idle ∨ r.env.state = .Alarm) then some (.ofInt r.live_feed) else none
  | .machine _ => none

def serve (r : Run) : Call → Run
  | .setFeedLive mm_per_min =>
    let (err, f) := r.toThrFeed.setFeedLive r.env mm_per_min
    if err = .Ok then { r with toThrFeed := f, last := some mm_per_min, flushed := false }
    else { r with toThrFeed := f }
  | .setting text =>
    let (err, f) := r.toThrFeed.setStringValue r.env text
    if err = .Ok then { r with toThrFeed := f, last := some f.feed_setting.value.toInt, flushed := false }
    else { r with toThrFeed := f }
  | .flush =>
    { r with toThrFeed := r.toThrFeed.flushFeedLive r.env, flushed := r.flushed || r.env.state = .Idle }
  | .machine env => { r with env }

def step (r : Run) (call : Call) : Run :=
  { r.serve call with skipped := ((r.given call).map fun value => decide (r.SkipsWrite value)).getD r.skipped }

/-- The last request holds, and after a flush at rest also in the flash. -/
def Meets (r : Run) : Prop :=
  ∀ feed, r.last = some feed → r.effectiveFeed = feed ∧ (r.flushed = true → r.persisted.toInt = feed)

/-- What a flush makes the setting, or leaves it at. -/
def due (r : Run) : Int := if r.live_feed ≥ 0 then r.live_feed else r.feed_setting.value.toInt

/-- A setting is accepted while the live feed waits with another value; or a flush at rest does not write the live feed
that waits, or finds none and the last value of the setting not written. -/
def Breaks (r : Run) : Call → Prop
  | .setting text => r.live_feed ≥ 0 ∧ ∃ value, r.feed_setting.convert r.env text = .ok value ∧
      value.toInt ≠ r.live_feed
  | .flush =>
    r.env.state = .Idle ∧ if r.live_feed ≥ 0 then r.SkipsWrite (.ofInt r.live_feed) else r.skipped = true
  | _ => False

/-- What every run keeps. -/
structure Kept (r : Run) : Prop where
  setting : IsFeed r.feed_setting
  disarmed : r.clear_feed = -1
  range : r.live_feed ≤ 100000
  fresh : r.last = none → r.live_feed < 0 ∧ r.persisted = r.feed_setting.value
  settled : r.flushed = true → r.live_feed < 0
  stored : ∀ value, r.nvs.get_i32 r.feed_setting.keyName = some value → r.feed_setting.storedValue = value
  skipped : r.skipped = true ↔ r.persisted ≠ r.feed_setting.value

variable {r : Run}

theorem effectiveFeed_eq (h : r.Kept) : r.effectiveFeed = r.due := by
  rw [effectiveFeed, h.disarmed, if_neg (by decide), due]

theorem kept_boot (default_feed : Int32) (nvs : Nvs) (env : WriteEnv) : (boot default_feed nvs env).Kept where
  setting := isFeed_init default_feed nvs
  disarmed := rfl
  range := (by decide : (-1 : Int) ≤ 100000)
  fresh _ := ⟨(by decide : (-1 : Int) < 0), congrArg IntSetting.value (load_load nvs _)⟩
  settled h := nomatch h
  stored value hcell := stored_load nvs _ hcell
  skipped := by
    refine iff_of_false Bool.false_ne_true fun hother => hother ?_
    exact congrArg IntSetting.value (load_load nvs _)

section Step

/-- The setting takes a value. -/
def assign (r : Run) (value : Int32) : Run :=
  { r with
    feed_setting := (r.feed_setting.assign value r.nvs).1
    nvs := (r.feed_setting.assign value r.nvs).2
    skipped := r.SkipsWrite value }

theorem persisted_assign (h : r.Kept) (value : Int32) :
    (r.assign value).persisted = if r.feed_setting.storedValue = value then r.persisted else value :=
  load_assign h.setting value r.nvs

theorem setting_assign (h : r.Kept) (value : Int32) : (r.assign value).feed_setting.value = value :=
  value_assign h.setting value r.nvs

/-- What the flash holds differs from a value that is not written, and from no other that the setting believes it
to hold. -/
theorem skipsWrite_iff (h : r.Kept) (value : Int32) :
    r.SkipsWrite value ↔ r.feed_setting.storedValue = value ∧ r.persisted ≠ value := by
  refine and_congr_right fun hstored => ?_
  rw [persisted, value_load h.setting]
  cases hcell : r.nvs.get_i32 r.feed_setting.keyName with
  | none =>
    rw [Option.getD_none, and_iff_left rfl]
    exact ne_comm
  | some cell =>
    have hsame : cell = value := (h.stored cell hcell).symm.trans hstored
    exact iff_of_false (fun hgone => Option.some_ne_none _ hgone.2) fun hother => hother hsame

theorem stored_assign (h : r.Kept) (value cell : Int32)
    (hcell : (r.assign value).nvs.get_i32 (r.assign value).feed_setting.keyName = some cell) :
    (r.assign value).feed_setting.storedValue = cell := by
  unfold assign at hcell ⊢
  dsimp only at hcell ⊢
  rw [assign_eq h.setting] at hcell ⊢
  split_ifs at hcell ⊢ with hnew hdefault
  · rw [Nvs.get_i32_erase_key] at hcell
    cases hcell
  · rw [Nvs.get_i32_set] at hcell
    exact Option.some.inj hcell
  · exact h.stored cell hcell

theorem skipped_assign (h : r.Kept) (value : Int32) :
    (r.assign value).skipped = true ↔ (r.assign value).persisted ≠ (r.assign value).feed_setting.value := by
  rw [persisted_assign h, setting_assign h, assign, decide_eq_true_eq, skipsWrite_iff h]
  split_ifs with hstored
  · exact and_iff_right hstored
  · exact iff_of_false (fun hskips => hstored hskips.1) fun hother => hother rfl

/-- The live feed is set or dropped. -/
def setLive (r : Run) (live_feed : Int) : Run := { r with live_feed }

/-- A request has been accepted. -/
def accept (r : Run) (feed : Int) : Run := { r with last := some feed, flushed := false }

/-- A flush has been tried. -/
def tried (r : Run) : Run := { r with flushed := r.flushed || r.env.state = .Idle }

theorem step_setFeedLive (h : r.Kept) (mm : Int) :
    r.step (.setFeedLive mm) = r ∨ 0 ≤ mm ∧ mm ≤ 100000 ∧
      (r.step (.setFeedLive mm) = ((r.assign (.ofInt mm)).setLive (-1)).accept mm ∨
        r.step (.setFeedLive mm) = (r.setLive mm).accept mm) := by
  rw [step, serve, given]
  by_cases hrange : mm < 0 ∨ mm > 100000
  · rw [setFeedLive, if_pos hrange, if_neg fun hin => by omega]
    exact .inl rfl
  · have hlow : 0 ≤ mm := by omega
    have hhigh : mm ≤ 100000 := by omega
    refine .inr ⟨hlow, hhigh, ?_⟩
    by_cases henv : r.env.state = .Idle ∨ r.env.state = .Alarm
    · rw [setFeedLive_rest h.setting henv hlow hhigh, if_pos ⟨hlow, hhigh, henv⟩]
      exact .inl rfl
    · rw [setFeedLive, if_neg hrange, if_neg henv, if_neg fun hrest => henv hrest.2.2]
      exact .inr rfl

theorem convert_error {text : Bytes} {err : Error} (h : r.feed_setting.convert r.env text = .error err) :
    err ≠ .Ok := by
  rw [IntSetting.convert] at h
  split at h
  · split at h
    · cases h
      decide
    · split at h
      · cases h
        decide
      · cases h
  case h_2 hcheck =>
    cases h
    exact hcheck

theorem step_setting (r : Run) (text : Bytes) :
    (∃ err, r.feed_setting.convert r.env text = .error err) ∧ r.step (.setting text) = r ∨
      ∃ value, r.feed_setting.convert r.env text = .ok value ∧
        r.step (.setting text) = (r.assign value).accept (r.assign value).feed_setting.value.toInt := by
  rw [step, serve, given, setStringValue, IntSetting.setStringValue]
  cases hconvert : r.feed_setting.convert r.env text with
  | error err =>
    refine .inl ⟨⟨err, rfl⟩, ?_⟩
    dsimp only
    rw [if_neg (convert_error hconvert)]
    rfl
  | ok value => exact .inr ⟨value, rfl, rfl⟩

theorem step_flush (h : r.Kept) :
    r.live_feed ≥ 0 ∧ (r.env.state = .Idle ∨ r.env.state = .Alarm) ∧
      r.step .flush = ((r.assign (.ofInt r.live_feed)).setLive (-1)).tried ∨
    (r.live_feed < 0 ∨ r.env.state ≠ .Idle) ∧ r.step .flush = r.tried := by
  rw [step, serve, given, flushFeedLive]
  by_cases hlive : r.live_feed < 0
  · rw [if_pos hlive, if_neg fun hpending => by omega]
    exact .inr ⟨.inl hlive, rfl⟩
  · have hlow : 0 ≤ r.live_feed := by omega
    rw [if_neg hlive]
    by_cases henv : r.env.state = .Idle ∨ r.env.state = .Alarm
    · rw [if_pos henv, if_pos ⟨hlow, henv⟩, setStringValue_to_string h.setting henv hlow h.range]
      exact .inl ⟨hlow, henv, rfl⟩
    · rw [if_neg henv, if_neg fun hpending => henv hpending.2]
      exact .inr ⟨.inr fun hidle => henv (.inl hidle), rfl⟩

theorem kept_step (h : r.Kept) (call : Call) : (r.step call).Kept := by
  cases call with
  | setFeedLive mm =>
    rcases step_setFeedLive h mm with hstep | ⟨hlow, hhigh, hstep | hstep⟩ <;> rw [hstep]
    · exact h
    · exact ⟨isFeed_assign h.setting _ _, h.disarmed, (by decide : (-1 : Int) ≤ 100000), nofun, nofun,
        stored_assign h _, skipped_assign h _⟩
    · exact ⟨h.setting, h.disarmed, hhigh, nofun, nofun, h.stored, h.skipped⟩
  | setting text =>
    rcases step_setting r text with ⟨-, hstep⟩ | ⟨value, -, hstep⟩ <;> rw [hstep]
    · exact h
    · exact ⟨isFeed_assign h.setting _ _, h.disarmed, h.range, nofun, nofun, stored_assign h _, skipped_assign h _⟩
  | flush =>
    rcases step_flush h with ⟨hlive, -, hstep⟩ | ⟨hrest, hstep⟩ <;> rw [hstep]
    · refine ⟨isFeed_assign h.setting _ _, h.disarmed, (by decide : (-1 : Int) ≤ 100000), fun hnone => ?_,
        fun _ => (by decide : (-1 : Int) < 0), stored_assign h _, skipped_assign h _⟩
      have hfresh := (h.fresh hnone).1
      omega
    · refine ⟨h.setting, h.disarmed, h.range, h.fresh, fun hflushed => ?_, h.stored, h.skipped⟩
      rcases Bool.or_eq_true_iff.mp hflushed with hbefore | hidle
      · exact h.settled hbefore
      · exact hrest.resolve_right fun hnot => hnot (of_decide_eq_true hidle)
  | machine env => exact ⟨h.setting, h.disarmed, h.range, h.fresh, h.settled, h.stored, h.skipped⟩

theorem meets_iff (h : r.Kept) {feed : Int} (hlast : r.last = some feed) :
    r.Meets ↔ r.due = feed ∧ (r.flushed = true → r.persisted.toInt = feed) := by
  rw [Meets, hlast, effectiveFeed_eq h]
  exact ⟨fun hmeets => hmeets feed rfl, fun hmeets other hother => Option.some.inj hother ▸ hmeets⟩

theorem due_of_pending (hlive : r.live_feed ≥ 0) : r.due = r.live_feed := if_pos hlive

theorem due_of_settled (hlive : r.live_feed < 0) : r.due = r.feed_setting.value.toInt := if_neg (by omega)

theorem meets_setFeedLive (h : r.Kept) (hmeets : r.Meets) (mm : Int) : (r.step (.setFeedLive mm)).Meets := by
  have hkept := kept_step h (.setFeedLive mm)
  rcases step_setFeedLive h mm with hstep | ⟨hlow, hhigh, hstep | hstep⟩
  · rw [hstep]
    exact hmeets
  · rw [hstep] at hkept ⊢
    have hvalue : (((r.assign (.ofInt mm)).setLive (-1)).accept mm).feed_setting.value = .ofInt mm := setting_assign h _
    refine (meets_iff hkept rfl).mpr ⟨?_, nofun⟩
    rw [due_of_settled (by decide : (-1 : Int) < 0), hvalue, toInt_ofInt hlow hhigh]
  · rw [hstep] at hkept ⊢
    exact (meets_iff hkept rfl).mpr ⟨due_of_pending hlow, nofun⟩

theorem meets_setting_iff (h : r.Kept) (hmeets : r.Meets) (text : Bytes) :
    (r.step (.setting text)).Meets ↔ ¬ r.Breaks (.setting text) := by
  have hkept := kept_step h (.setting text)
  rcases step_setting r text with ⟨⟨err, herr⟩, hstep⟩ | ⟨value, hvalue, hstep⟩
  · rw [hstep]
    refine iff_of_true hmeets fun hbreaks => ?_
    obtain ⟨-, value, hvalue, -⟩ := hbreaks
    rw [herr] at hvalue
    cases hvalue
  · rw [hstep] at hkept ⊢
    have hbreaks : r.Breaks (.setting text) ↔ r.live_feed ≥ 0 ∧ value.toInt ≠ r.live_feed := by
      rw [Breaks, hvalue]
      exact and_congr_right fun _ => ⟨fun ⟨_, hsame, hne⟩ => Except.ok.inj hsame ▸ hne, fun hne => ⟨value, rfl, hne⟩⟩
    rw [meets_iff hkept rfl, hbreaks, not_and, not_not]
    have hlive : ((r.assign value).accept (r.assign value).feed_setting.value.toInt).live_feed = r.live_feed := rfl
    by_cases hpending : r.live_feed ≥ 0
    · rw [due_of_pending (hlive ▸ hpending), hlive, setting_assign h]
      exact ⟨fun hdue _ => hdue.1.symm, fun hsame => ⟨(hsame hpending).symm, nofun⟩⟩
    · rw [due_of_settled (by omega)]
      exact iff_of_true ⟨rfl, nofun⟩ fun hother => absurd hother hpending

/-- In effect, the flash differs at rest from what is due, and what is due is not written now. -/
theorem breaks_flush_iff (h : r.Kept) : r.Breaks .flush ↔ r.env.state = .Idle ∧ r.persisted.toInt ≠ r.due ∧
    (r.live_feed ≥ 0 → r.feed_setting.storedValue.toInt = r.live_feed) := by
  unfold Breaks
  refine and_congr_right fun _ => ?_
  by_cases hlive : r.live_feed ≥ 0
  · have hint : (Int32.ofInt r.live_feed).toInt = r.live_feed := toInt_ofInt hlive h.range
    rw [if_pos hlive, due_of_pending hlive, skipsWrite_iff h, ne_eq, ← Int32.toInt_inj, ← Int32.toInt_inj, hint]
    exact ⟨fun hskips => ⟨hskips.2, fun _ => hskips.1⟩, fun hother => ⟨hother.2 hlive, hother.1⟩⟩
  · rw [if_neg hlive, due_of_settled (by omega), h.skipped, ne_eq, ne_eq, Int32.toInt_inj]
    exact ⟨fun hother => ⟨hother, fun hpending => absurd hpending hlive⟩, And.left⟩

theorem meets_flush_iff (h : r.Kept) (hmeets : r.Meets) : (r.step .flush).Meets ↔ ¬ r.Breaks .flush := by
  have hkept := kept_step h .flush
  cases hlast : r.last with
  | none =>
    obtain ⟨hlive, hagree⟩ := h.fresh hlast
    refine iff_of_true ?_ fun hbreaks => ((breaks_flush_iff h).mp hbreaks).2.1 ?_
    · rintro feed hfeed
      have hkeep : (r.step .flush).last = r.last := rfl
      rw [hkeep, hlast] at hfeed
      cases hfeed
    · rw [due_of_settled hlive, hagree]
  | some feed =>
    obtain ⟨hdue, hflushed⟩ := (meets_iff h hlast).mp hmeets
    rcases step_flush h with ⟨hlive, henv, hstep⟩ | ⟨hrest, hstep⟩
    · rw [hstep] at hkept ⊢
      have hint : (Int32.ofInt r.live_feed).toInt = r.live_feed := toInt_ofInt hlive h.range
      have hvalue : (((r.assign (.ofInt r.live_feed)).setLive (-1)).tried).feed_setting.value = .ofInt r.live_feed :=
        setting_assign h _
      have hpersisted : (((r.assign (.ofInt r.live_feed)).setLive (-1)).tried).persisted = _ := persisted_assign h _
      have hunflushed : r.flushed = false := Bool.eq_false_iff.mpr fun hdone => by
        have := h.settled hdone
        omega
      have htried : (((r.assign (.ofInt r.live_feed)).setLive (-1)).tried).flushed = true ↔ r.env.state = .Idle := by
        change (r.flushed || decide (r.env.state = .Idle)) = true ↔ _
        rw [hunflushed, Bool.false_or, decide_eq_true_eq]
      have hstored : r.feed_setting.storedValue = .ofInt r.live_feed ↔
          r.feed_setting.storedValue.toInt = r.live_feed := by
        rw [← Int32.toInt_inj, hint]
      rw [due_of_pending hlive] at hdue
      rw [meets_iff hkept hlast, due_of_settled (by decide : (-1 : Int) < 0), hvalue, hint, hpersisted, htried,
        breaks_flush_iff h, due_of_pending hlive, hdue]
      rw [hdue] at hint hstored
      rw [hdue] at hlive
      by_cases hbelieved : r.feed_setting.storedValue = .ofInt feed
      · rw [if_pos hbelieved]
        constructor
        · rintro ⟨-, hcell⟩ ⟨hidle, hother, -⟩
          exact hother (hcell hidle)
        · intro hgood
          exact ⟨rfl, fun hidle => by_contra fun hother => hgood ⟨hidle, hother, fun _ => hstored.mp hbelieved⟩⟩
      · rw [if_neg hbelieved, hint]
        exact iff_of_true ⟨rfl, fun _ => rfl⟩ fun hbreaks => hbelieved (hstored.mpr (hbreaks.2.2 hlive))
    · rw [hstep] at hkept ⊢
      have htried : r.tried.flushed = true ↔ r.flushed = true ∨ r.env.state = .Idle := by
        change (r.flushed || decide (r.env.state = .Idle)) = true ↔ _
        rw [Bool.or_eq_true, decide_eq_true_eq]
      have hsame : r.tried.due = r.due ∧ r.tried.persisted = r.persisted := ⟨rfl, rfl⟩
      rw [meets_iff hkept hlast, htried, hsame.1, hsame.2, breaks_flush_iff h, hdue]
      rcases hrest with hlive | hmoving
      · constructor
        · rintro ⟨-, hcell⟩ ⟨hidle, hother, -⟩
          exact hother (hcell (.inr hidle))
        · intro hgood
          refine ⟨rfl, fun hdone => hdone.elim hflushed fun hidle => by_contra fun hother => ?_⟩
          exact hgood ⟨hidle, hother, fun hpending => absurd hpending (by omega)⟩
      · exact iff_of_true ⟨rfl, fun hdone => hdone.elim hflushed fun hidle => absurd hidle hmoving⟩
          fun hbreaks => hmoving hbreaks.1

/-- One call keeps the last request, unless it breaks it. -/
theorem meets_step_iff (h : r.Kept) (hmeets : r.Meets) (call : Call) : (r.step call).Meets ↔ ¬ r.Breaks call := by
  cases call with
  | setFeedLive mm => exact iff_of_true (meets_setFeedLive h hmeets mm) not_false
  | setting text => exact meets_setting_iff h hmeets text
  | flush => exact meets_flush_iff h hmeets
  | machine env => exact iff_of_true hmeets not_false

end Step

/-- The last request that was accepted always holds, and reaches the flash, precisely in runs without the two. -/
theorem last_request_wins_iff (default_feed : Int32) (nvs : Nvs) (env : WriteEnv) (calls : List Call) :
    Always step Meets (boot default_feed nvs env) calls ↔
      Throughout step (fun r call => ¬ Breaks r call) (boot default_feed nvs env) calls := by
  have hall : Throughout step (fun _ _ => True) (boot default_feed nvs env) calls :=
    throughout_of_forall (fun _ _ => trivial) _ calls
  exact always_iff_throughout_not (I := Kept) (fun r call h _ _ => kept_step h call)
    (fun r call h _ hmeets => meets_step_iff h hmeets call) (kept_boot default_feed nvs env) nofun hall

/-- A live request while a pattern runs, and a setting while the machine rests before the next one. -/
def settingBetweenPatterns : List Call :=
  [.machine ⟨.Cycle, true⟩, .setFeedLive 120, .machine ⟨.Idle, false⟩, .setting (bytes "80")]

/-- The setting is accepted, has no effect, and is written over by the flush at the end of the run. -/
theorem setting_loses_to_live_feed :
    (run step (boot 100 (fun _ => none) ⟨.Idle, false⟩) settingBetweenPatterns).last = some 80 ∧
      (run step (boot 100 (fun _ => none) ⟨.Idle, false⟩) settingBetweenPatterns).effectiveFeed = 120 ∧
      (run step (boot 100 (fun _ => none) ⟨.Idle, false⟩) (settingBetweenPatterns ++ [.flush])).persisted = 120 ∧
      ¬ ∀ default_feed nvs env calls, Always step Meets (boot default_feed nvs env) calls := by
  have hlast : (run step (boot 100 (fun _ => none) ⟨.Idle, false⟩) settingBetweenPatterns).last = some 80 := by
    decide
  have heffective : (run step (boot 100 (fun _ => none) ⟨.Idle, false⟩) settingBetweenPatterns).effectiveFeed =
      120 := by
    decide
  refine ⟨hlast, heffective, by decide, fun hall => ?_⟩
  have hmeets := (hall 100 (fun _ => none) ⟨.Idle, false⟩ settingBetweenPatterns).last
  have hfeed := (hmeets 80 hlast).1
  rw [heffective] at hfeed
  exact absurd hfeed (by decide)

end Run

end ThrFeed

end DuneWeaver
