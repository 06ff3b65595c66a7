import DuneWeaver.Settings.Reload
import Mathlib.Logic.Function.Basic

open Transition

namespace DuneWeaver

/-- A zone that is pushed: a C string of at most 64 bytes. -/
abbrev Zone := { z : Bytes // z.length ≤ 64 ∧ 0 ∉ z }

/-- The tasks that push zones. -/
inductive TzTask where
  | web
  | command
  deriving DecidableEq

/-- How far a call of `setTz` has come: the setting has taken the zone, or refused it; the
zone is parked; all is in place for `applyTz`; `applyTz` knows what to set. -/
inductive SetTz where
  | persisted
  | refused (z : Zone)
  | parked
  | changed
  | chosen (tz : Bytes)
  deriving DecidableEq

/-- The call has yet to see what `applyTz` is to set. -/
def SetTz.applies : SetTz → Bool
  | .chosen _ => false
  | _ => true

/-- The zone of the clock. `val` is the copy of a poll between its two halves. Of the
pushes, `last` is the zone that was handed over last, to the setting or to the buffer; `behind`
says of a task that the setting, the buffer or the flag has been changed since its call
saw them in `applyTz`; `fresh` and `polled` say that the poll under way, or a whole one,
was made with the machine idle and no push since. -/
structure TimeKeeper where
  env : WriteEnv
  tz_setting : StringSetting
  nvs : Nvs
  config_tz : Bytes
  pending_tz : Bytes := []
  tz_pending : Bool := false
  TZ : Bytes
  calls : TzTask → Option SetTz := fun _ => none
  val : Option Bytes := none
  last : Bytes
  behind : TzTask → Bool := fun _ => false
  fresh : Bool := false
  polled : Bool := false

/-- What the tasks, the poll and the machine do. -/
inductive TzAction where
  | setTz (task : TzTask) (z : Zone)
  | proceed (task : TzTask)
  | copy
  | write
  | machine (env : WriteEnv)

namespace TimeKeeper

/-- The zone that `applyTz` sets. -/
def effective (s : TimeKeeper) : Bytes :=
  if s.tz_pending then
    if s.pending_tz ≠ [] then s.pending_tz else s.config_tz
  else if s.tz_setting.value ≠ [] then s.tz_setting.value
  else s.config_tz

/-- On a store that takes every write. -/
def setStringValue (text : Bytes) (s : TimeKeeper) : Error × TimeKeeper :=
  let (err, setting, nvs) := s.tz_setting.setStringValue s.env text s.nvs
  (err, { s with tz_setting := setting, nvs := nvs })

/-- `setTz` comes to its next step. -/
def goes (task : TzTask) (call : Option SetTz) (s : TimeKeeper) : TimeKeeper :=
  { s with calls := Function.update s.calls task call }

/-- What `applyTz` reads is changed. -/
def changes (s : TimeKeeper) : TimeKeeper := { s with behind := fun _ => true }

/-- `applyTz` has read for the call of the task. -/
def sees (task : TzTask) (s : TimeKeeper) : TimeKeeper := { s with behind := Function.update s.behind task false }

/-- `setTz`, as far as the setting. -/
def setTz (task : TzTask) (z : Zone) (s : TimeKeeper) : TimeKeeper :=
  let (err, s) := { s with fresh := false, polled := false }.setStringValue z
  if err = .Ok then { s with last := z }.changes.goes task (some .persisted) else s.goes task (some (.refused z))

/-- The rest of `setTz`, one step at a time. -/
def proceed (task : TzTask) (s : TimeKeeper) : TimeKeeper :=
  match s.calls task with
  | none => s
  | some .persisted => { s with tz_pending := false }.changes.goes task (some .changed)
  | some (.refused z) => { s with pending_tz := strlcpy 65 z, last := z }.changes.goes task (some .parked)
  | some .parked => { s with tz_pending := true }.changes.goes task (some .changed)
  | some .changed => (s.sees task).goes task (some (.chosen s.effective))
  | some (.chosen tz) => { s with TZ := tz }.goes task none

def inProgress (s : TimeKeeper) : Bool := (s.calls .web).isSome || (s.calls .command).isSome

/-- The machine is idle, and nobody is pushing a zone. -/
def rests (s : TimeKeeper) : Bool := s.env.state = .Idle && !s.inProgress

/-- The first half of `poll`. -/
def copy (s : TimeKeeper) : TimeKeeper :=
  if ¬ s.tz_pending ∨ ¬ (s.env.state = .Idle ∨ s.env.state = .Alarm) then { s with polled := s.polled || s.rests }
  else { s with val := some (strlcpy 65 s.pending_tz), fresh := s.rests }

/-- The second half of `poll`. -/
def write (val : Bytes) (s : TimeKeeper) : TimeKeeper :=
  let (err, s) := { s with val := none, fresh := false, polled := s.polled || s.fresh }.setStringValue val
  if err = .Ok then
    let s := if val = s.pending_tz then { s with tz_pending := false } else s
    { s with TZ := s.effective }.changes
  else s

/-- A step of the system. A task makes one call at a time, and a poll its halves in turn. -/
def step (s : TimeKeeper) : TzAction → TimeKeeper
  | .setTz task z => if (s.calls task).isSome then s else s.setTz task z
  | .proceed task => s.proceed task
  | .copy => if s.val.isSome then s else s.copy
  | .write => s.val.elim s s.write
  | .machine env => { s with env := env, fresh := false }

/-- `$Time/Zone`. -/
def zoneSetting : StringSetting where
  keyName := bytes "Time/Zone"
  defaultValue := []
  currentValue := []
  storedValue := []
  minLength := 0
  maxLength := 64

/-- The clock as `init` leaves it. -/
def init (env : WriteEnv) (nvs : Nvs) (config_tz : Bytes) : TimeKeeper where
  env := env
  tz_setting := zoneSetting.load nvs
  nvs := nvs
  config_tz := config_tz
  TZ := if (zoneSetting.load nvs).value ≠ [] then (zoneSetting.load nvs).value else config_tz
  last := (zoneSetting.load nvs).value

/-- The zone that is in force and the one that is persisted are the last that was
pushed. -/
structure LastWins (s : TimeKeeper) : Prop where
  effective : s.TZ = if s.last ≠ [] then s.last else s.config_tz
  current : s.tz_setting.value = s.last
  persisted : (s.tz_setting.load s.nvs).value = s.last

/-- The machine is idle, no push is under way, and a poll has run since. -/
def Settled (s : TimeKeeper) : Prop := s.rests = true ∧ s.polled = true

/-- Some call is at a step. -/
def calling (P : SetTz → Prop) (s : TimeKeeper) : Prop := ∃ task, ∃ call ∈ s.calls task, P call

/-- A call is yet to clear the flag. -/
def clears : TimeKeeper → Prop := calling (· = .persisted)

/-- A call is yet to raise the flag. -/
def raises : TimeKeeper → Prop := calling (· = .parked)

/-- A call is yet to come to `applyTz`. -/
def applies : TimeKeeper → Prop := calling (·.applies = true)

/-- The next step of a task's call lets an older zone stand for the last one: it clears the
flag of another's zone, raises it for its own after another's was persisted, or sets the
zone it saw before another's came, with no `applyTz` to follow. -/
def stale (s : TimeKeeper) (task : TzTask) : SetTz → Prop
  | .persisted => s.tz_setting.value ≠ s.last ∧ ¬ s.raises
  | .parked => s.pending_tz ≠ s.last ∧ ¬ s.clears
  | .chosen tz => s.behind task = true ∧ tz ≠ s.effective ∧ ¬ s.applies
  | _ => False

/-- The step lets an older zone stand for the last one: that of a call, or that of a poll which
writes its copy where the last zone is not parked. -/
def Overtakes (s : TimeKeeper) : TzAction → Prop
  | .proceed task => ∃ call ∈ s.calls task, s.stale task call
  | .write => ∃ val ∈ s.val, notIdleOrAlarm s.env.state = false ∧ val ≠ s.last ∧
      ¬ (s.pending_tz = s.last ∧ (s.tz_pending = true ∨ s.raises))
  | _ => False

instance decidableCalling (P : SetTz → Prop) [DecidablePred P] (s : TimeKeeper) : Decidable (s.calling P) :=
  decidable_of_iff ((∃ call ∈ s.calls .web, P call) ∨ ∃ call ∈ s.calls .command, P call)
    ⟨fun h => h.elim (⟨.web, ·⟩) (⟨.command, ·⟩), fun ⟨task, h⟩ => task.casesOn (motive := fun task =>
      (∃ call ∈ s.calls task, P call) → _) Or.inl Or.inr h⟩

instance (s : TimeKeeper) : Decidable s.raises := inferInstanceAs (Decidable (s.calling _))

instance (s : TimeKeeper) : Decidable s.clears := inferInstanceAs (Decidable (s.calling _))

instance (s : TimeKeeper) : Decidable s.applies := inferInstanceAs (Decidable (s.calling _))

instance (s : TimeKeeper) (task : TzTask) : DecidablePred (s.stale task)
  | .persisted => inferInstanceAs (Decidable (_ ∧ _))
  | .parked => inferInstanceAs (Decidable (_ ∧ _))
  | .chosen _ => inferInstanceAs (Decidable (_ ∧ _))
  | .refused _ => inferInstanceAs (Decidable False)
  | .changed => inferInstanceAs (Decidable False)

instance (s : TimeKeeper) : DecidablePred s.Overtakes
  | .proceed task => inferInstanceAs (Decidable (∃ call ∈ s.calls task, s.stale task call))
  | .write => inferInstanceAs (Decidable (∃ val ∈ s.val, _))
  | .setTz _ _ => inferInstanceAs (Decidable False)
  | .copy => inferInstanceAs (Decidable False)
  | .machine _ => inferInstanceAs (Decidable False)

instance (s : TimeKeeper) : Decidable s.Settled := inferInstanceAs (Decidable (_ ∧ _))

/-- The setting takes any zone when the machine stands still, and knows what it wrote. -/
structure Kept (setting : StringSetting) (nvs : Nvs) : Prop where
  idle_only : setting.allow_hold = false
  unbounded : setting.minLength = 0
  stored : setting.storedValue = setting.currentValue
  survives : (setting.load nvs).value = setting.value

/-- The last zone is persisted, and will not be replaced by another that is parked; or it
is parked and will be written. -/
def Newest (s : TimeKeeper) : Prop :=
  (s.tz_setting.value = s.last ∧ (s.pending_tz = s.last ∨ s.tz_pending = false ∨ s.clears)) ∨
    (s.pending_tz = s.last ∧ (s.tz_pending = true ∨ s.raises))

/-- A zone that was seen in `applyTz` is still the one to set, unless something has been changed
since. -/
def Seen (s : TimeKeeper) : Prop :=
  ∀ task tz, s.calls task = some (.chosen tz) → s.behind task = false → tz = s.effective

structure Inv (s : TimeKeeper) : Prop where
  kept : Kept s.tz_setting s.nvs
  buffered : strlcpy 65 s.pending_tz = s.pending_tz
  copied : ∀ val ∈ s.val, strlcpy 65 val = val
  newest : s.Newest
  zone : s.applies ∨ s.TZ = s.effective ∨ s.calling (·.applies = false)
  fresh : s.fresh = true → s.rests = true ∧ ∀ val ∈ s.val, val = s.pending_tz
  polled : s.polled = true → s.inProgress = false ∧ s.tz_pending = false
  seen : s.Seen

section Kept

variable {setting : StringSetting} {nvs : Nvs}

theorem value_assign (setting : StringSetting) (text : Bytes) (nvs : Nvs) :
    (setting.assign text nvs).1.value = c_str text := by
  unfold StringSetting.assign StringSetting.value
  dsimp only
  split_ifs <;> rfl

theorem Kept.assign (hkept : Kept setting nvs) (text : Bytes) :
    Kept (setting.assign text nvs).1 (setting.assign text nvs).2 := by
  obtain ⟨hcached, hdefault⟩ := setting.cached_assign nvs text
  refine ⟨?_, ?_, ?_, ?_⟩
  · rw [← hkept.idle_only]
    unfold StringSetting.assign
    dsimp only
    split_ifs <;> rfl
  · rw [← hkept.unbounded]
    unfold StringSetting.assign
    dsimp only
    split_ifs <;> rfl
  · unfold StringSetting.assign
    dsimp only
    split_ifs with hstored herased
    · exact herased.symm
    · rfl
    · exact not_not.mp hstored
  · rw [StringSetting.survives_iff, hcached, hdefault]
    apply (WriteCache.Agrees.assign_iff ((setting.survives_iff nvs).mp hkept.survives) text).mpr
    rintro ⟨hstored, hother⟩
    apply hother
    have hcurrent : setting.currentValue = text := hkept.stored.symm.trans hstored
    exact congrArg c_str hcurrent

theorem Kept.load (hidle : setting.allow_hold = false) (hmin : setting.minLength = 0) (nvs : Nvs) :
    Kept (setting.load nvs) nvs := by
  unfold StringSetting.load
  cases hcell : nvs.get_str setting.keyName with
  | none => exact ⟨hidle, hmin, rfl, by simp [StringSetting.load, hcell]⟩
  | some value => exact ⟨hidle, hmin, rfl, by simp [StringSetting.load, hcell]⟩

/-- The setting takes a zone exactly if the machine stands still. -/
theorem setStringValue_cases {s : TimeKeeper} (hkept : Kept s.tz_setting s.nvs) (text : Bytes) :
    (notIdleOrAlarm s.env.state = true ∧ s.setStringValue text = (.IdleError, s)) ∨
    (notIdleOrAlarm s.env.state = false ∧ ∃ setting nvs,
      s.setStringValue text = (.Ok, { s with tz_setting := setting, nvs := nvs }) ∧
        Kept setting nvs ∧ setting.value = c_str text) := by
  cases hstate : notIdleOrAlarm s.env.state with
  | true =>
    refine .inl ⟨rfl, ?_⟩
    simp [TimeKeeper.setStringValue, StringSetting.setStringValue, StringSetting.convert, check_state,
      hkept.idle_only, hstate]
  | false =>
    refine .inr ⟨rfl, _, _, ?_, hkept.assign text, value_assign s.tz_setting text s.nvs⟩
    simp [TimeKeeper.setStringValue, StringSetting.setStringValue, StringSetting.convert, check_state, hkept.idle_only,
      hstate, hkept.unbounded]

end Kept

section Calls

variable {P : SetTz → Prop} {s : TimeKeeper} {task : TzTask}

theorem calling_goes (call : SetTz) (hcall : P call) : (s.goes task (some call)).calling P :=
  ⟨task, call, by simp [goes], hcall⟩

/-- The step of one task leaves the others where they are. -/
theorem calling.goes (hcalling : s.calling P) (hself : ∀ call ∈ s.calls task, ¬ P call) (next : Option SetTz) :
    (s.goes task next).calling P := by
  obtain ⟨other, call, hcall, hP⟩ := hcalling
  have hother : other ≠ task := by
    rintro rfl
    exact hself call hcall hP
  exact ⟨other, call, by simpa [TimeKeeper.goes, hother] using hcall, hP⟩

theorem not_calling_of_rest (hrest : s.inProgress = false) : ¬ s.calling P := by
  rintro ⟨other, call, hcall, _⟩
  cases other with
  | web => simp [inProgress, Option.mem_def.mp hcall] at hrest
  | command => simp [inProgress, Option.mem_def.mp hcall] at hrest

/-- A call that has nothing to do with the flag does not matter. -/
theorem Newest.goes (hnewest : s.Newest) (hclears : ∀ call ∈ s.calls task, call ≠ .persisted)
    (hraises : ∀ call ∈ s.calls task, call ≠ .parked) (next : Option SetTz) : (s.goes task next).Newest := by
  obtain ⟨hsetting, hflag⟩ | ⟨hbuffer, hflag⟩ := hnewest
  · exact .inl ⟨hsetting, hflag.imp_right (Or.imp_right (calling.goes · hclears next))⟩
  · exact .inr ⟨hbuffer, hflag.imp_right (calling.goes · hraises next)⟩

theorem seen_changes (s : TimeKeeper) (next : Option SetTz) : (s.changes.goes task next).Seen :=
  fun _ _ _ hbehind => Bool.noConfusion hbehind

theorem Seen.goes (hseen : s.Seen) {next : Option SetTz} (hnext : ∀ tz, next ≠ some (.chosen tz)) :
    (s.goes task next).Seen := by
  intro other tz hcall hbehind
  change Function.update s.calls task next other = _ at hcall
  by_cases hsame : other = task
  · rw [hsame, Function.update_self] at hcall
    exact absurd hcall (hnext tz)
  · rw [Function.update_of_ne hsame] at hcall
    exact hseen other tz hcall hbehind

theorem Seen.sees (hseen : s.Seen) : ((s.sees task).goes task (some (.chosen s.effective))).Seen := by
  intro other tz hcall hbehind
  change Function.update s.calls task _ other = _ at hcall
  change Function.update s.behind task false other = false at hbehind
  by_cases hsame : other = task
  · rw [hsame, Function.update_self] at hcall
    exact (SetTz.chosen.inj (Option.some.inj hcall)).symm
  · rw [Function.update_of_ne hsame] at hcall hbehind
    exact hseen other tz hcall hbehind

end Calls

theorem setTz_inv {s : TimeKeeper} (hinv : s.Inv) {task : TzTask} (hfree : s.calls task = none) (z : Zone) :
    (s.setTz task z).Inv := by
  have hself : ∀ {P : SetTz → Prop}, ∀ call ∈ s.calls task, ¬ P call := by simp [hfree]
  have hz : c_str z.1 = z.1 := c_str_eq_self z.2.2
  obtain ⟨hstate, heq⟩ | ⟨hstate, setting, nvs, heq, hkept, hvalue⟩ :=
    setStringValue_cases (s := { s with fresh := false, polled := false }) hinv.kept z.1
  · have hstep : s.setTz task z = { s with fresh := false, polled := false }.goes task (some (.refused z)) := by
      simp [setTz, heq]
    rw [hstep]
    refine ⟨hinv.kept, hinv.buffered, hinv.copied, ?_, .inl (calling_goes _ rfl), ?_, ?_, ?_⟩
    · exact hinv.newest.goes hself hself _
    · simp [goes]
    · simp [goes]
    · exact Seen.goes (s := { s with fresh := false, polled := false }) hinv.seen (by simp)
  · have hstep : s.setTz task z =
        { s with fresh := false, polled := false, tz_setting := setting, nvs := nvs, last := z }.changes.goes task
          (some .persisted) := by
      simp [setTz, heq]
    rw [hstep]
    refine ⟨hkept, hinv.buffered, hinv.copied, ?_, .inl (calling_goes _ rfl), ?_, ?_, seen_changes _ _⟩
    · exact .inl ⟨hvalue.trans hz, .inr (.inr (calling_goes _ rfl))⟩
    · simp [goes, changes]
    · simp [goes, changes]

theorem proceed_inv {s : TimeKeeper} (hinv : s.Inv) {task : TzTask} (hgood : ¬ s.Overtakes (.proceed task)) :
    (s.proceed task).Inv := by
  -- neither a poll that is fresh nor one that has run goes with a call in progress
  have hbusy : s.calls task ≠ none → s.inProgress = true := by
    cases task <;> simp [inProgress, Option.isSome_iff_ne_none] <;> tauto
  have hstale : s.calls task ≠ none → s.fresh = false ∧ s.polled = false := by
    intro hcall
    constructor
    · by_contra hfresh
      have hrests := (hinv.fresh (Bool.not_eq_false _ ▸ hfresh)).1
      simp [rests, hbusy hcall] at hrests
    · by_contra hpolled
      have hquiet := (hinv.polled (Bool.not_eq_false _ ▸ hpolled)).1
      simp [hbusy hcall] at hquiet
  unfold proceed
  cases hcall : s.calls task with
  | none => exact hinv
  | some call =>
    obtain ⟨hfresh, hpolled⟩ := hstale (by simp [hcall])
    have hgood : ¬ s.stale task call := fun hcallstale => hgood ⟨call, hcall, hcallstale⟩
    cases call with
    | persisted =>
      refine ⟨hinv.kept, hinv.buffered, hinv.copied, ?_, .inl (calling_goes _ rfl), ?_, ?_, seen_changes _ _⟩
      · by_cases hsetting : s.tz_setting.value = s.last
        · exact .inl ⟨hsetting, .inr (.inl rfl)⟩
        · have hraises : s.raises := by
            by_contra hnone
            exact hgood ⟨hsetting, hnone⟩
          obtain ⟨hvalue, _⟩ | ⟨hbuffer, _⟩ := hinv.newest
          · exact absurd hvalue hsetting
          · exact .inr ⟨hbuffer, .inr (calling.goes hraises (by simp [hcall]) _)⟩
      · simp [goes, changes, hfresh]
      · simp [goes, changes, hpolled]
    | refused z =>
      have hzone : strlcpy 65 z.1 = z.1 := (strlcpy_eq_self_iff (by decide) _).mpr ⟨z.2.2, Nat.lt_succ_of_le z.2.1⟩
      refine ⟨hinv.kept, ?_, hinv.copied, ?_, .inl (calling_goes _ rfl), ?_, ?_, seen_changes _ _⟩
      · simp [goes, changes]
      · exact .inr ⟨hzone, .inr (calling_goes _ rfl)⟩
      · simp [goes, changes, hfresh]
      · simp [goes, changes, hpolled]
    | parked =>
      refine ⟨hinv.kept, hinv.buffered, hinv.copied, ?_, .inl (calling_goes _ rfl), ?_, ?_, seen_changes _ _⟩
      · by_cases hbuffer : s.pending_tz = s.last
        · exact .inr ⟨hbuffer, .inl rfl⟩
        · have hclears : s.clears := by
            by_contra hnone
            exact hgood ⟨hbuffer, hnone⟩
          obtain ⟨hvalue, _⟩ | ⟨hparked, _⟩ := hinv.newest
          · exact .inl ⟨hvalue, .inr (.inr (calling.goes hclears (by simp [hcall]) _))⟩
          · exact absurd hparked hbuffer
      · simp [goes, changes, hfresh]
      · simp [goes, changes, hpolled]
    | changed =>
      refine ⟨hinv.kept, hinv.buffered, hinv.copied, ?_, .inr (.inr (calling_goes _ rfl)), ?_, ?_, ?_⟩
      · exact Newest.goes (s := s.sees task) hinv.newest (by simp [sees, hcall]) (by simp [sees, hcall]) _
      · simp [goes, sees, hfresh]
      · simp [goes, sees, hpolled]
      · exact hinv.seen.sees
    | chosen tz =>
      refine ⟨hinv.kept, hinv.buffered, hinv.copied, ?_, ?_, ?_, ?_, ?_⟩
      · exact hinv.newest.goes (by simp [hcall]) (by simp [hcall]) _
      · by_cases happlies : s.applies
        · exact .inl (calling.goes happlies (by simp [hcall, SetTz.applies]) none)
        · refine .inr (.inl ?_)
          by_contra hstalezone
          -- nothing was changed since `applyTz` saw the zone, or it would have been overtaken
          have hbehind : s.behind task = false := by
            by_contra hbehind
            exact hgood ⟨by simpa using hbehind, hstalezone, happlies⟩
          exact hstalezone (hinv.seen task tz hcall hbehind)
      · simp [goes, hfresh]
      · simp [goes, hpolled]
      · exact Seen.goes (s := { s with TZ := tz }) hinv.seen (by simp)

theorem copy_inv {s : TimeKeeper} (hinv : s.Inv) : s.copy.Inv := by
  unfold copy
  split
  case isTrue hnothing =>
    refine ⟨hinv.kept, hinv.buffered, hinv.copied, hinv.newest, hinv.zone, hinv.fresh, ?_, hinv.seen⟩
    intro hpolled
    cases hbefore : s.polled with
    | true => exact hinv.polled hbefore
    | false =>
      have hrests : s.rests = true := by simpa [hbefore] using hpolled
      simp only [rests, Bool.and_eq_true, decide_eq_true_eq, Bool.not_eq_true'] at hrests
      refine ⟨hrests.2, ?_⟩
      simpa [hrests.1] using hnothing
  case isFalse hparked =>
    refine ⟨hinv.kept, hinv.buffered, ?_, hinv.newest, hinv.zone, ?_, hinv.polled, hinv.seen⟩
    · intro val hmem
      obtain rfl : strlcpy 65 s.pending_tz = val := by simpa using hmem
      exact strlcpy_strlcpy 65 _
    · intro hfresh
      refine ⟨hfresh, ?_⟩
      intro val hmem
      obtain rfl : strlcpy 65 s.pending_tz = val := by simpa using hmem
      exact hinv.buffered

theorem write_inv {s : TimeKeeper} (hinv : s.Inv) {val : Bytes} (hval : s.val = some val)
    (hgood : ¬ s.Overtakes .write) : (s.write val).Inv := by
  have hcopied : strlcpy 65 val = val := hinv.copied val hval
  have hval_c : c_str val = val := c_str_eq_self ((strlcpy_eq_self_iff (by decide) val).mp hcopied).1
  have hquiet : s.polled = true ∨ s.fresh = true → s.inProgress = false := by
    rintro (hpolled | hfresh)
    · exact (hinv.polled hpolled).1
    · have hrests := (hinv.fresh hfresh).1
      simp only [rests, Bool.and_eq_true, Bool.not_eq_true'] at hrests
      exact hrests.2
  obtain ⟨hstate, heq⟩ | ⟨hstate, setting, nvs, heq, hkept, hvalue⟩ :=
    setStringValue_cases (s := { s with val := none, fresh := false, polled := s.polled || s.fresh }) hinv.kept val
  · have hstep : s.write val = { s with val := none, fresh := false, polled := s.polled || s.fresh } := by
      simp [write, heq]
    -- an idle machine would have let it write
    have hbusy : s.fresh = false := by
      by_contra hfresh
      have hrests := (hinv.fresh (Bool.not_eq_false _ ▸ hfresh)).1
      simp only [rests, Bool.and_eq_true, decide_eq_true_eq] at hrests
      rw [hrests.1] at hstate
      contradiction
    rw [hstep]
    refine ⟨hinv.kept, hinv.buffered, by simp, hinv.newest, hinv.zone, by simp, ?_, hinv.seen⟩
    simp only [hbusy, Bool.or_false]
    exact hinv.polled
  · have hstep : s.write val =
        { s with
          val := none
          fresh := false
          polled := s.polled || s.fresh
          tz_setting := setting
          nvs := nvs
          tz_pending := if val = s.pending_tz then false else s.tz_pending
          TZ := (s.write val).TZ
          behind := fun _ => true } := by
      simp only [write, heq, if_true]
      split <;> rfl
    have hzone : (s.write val).TZ = (s.write val).effective := by
      simp only [write, heq, if_true]
      rfl
    have hwritten : setting.value = val := hvalue.trans hval_c
    refine ⟨?_, ?_, ?_, ?_, .inr (.inl hzone), ?_, ?_, ?_⟩
    · rw [hstep]
      exact hkept
    · rw [hstep]
      exact hinv.buffered
    · rw [hstep]
      simp
    · rw [hstep]
      by_cases hlast : val = s.last
      · refine .inl ⟨hwritten.trans hlast, ?_⟩
        by_cases hsame : val = s.pending_tz
        · exact .inl (hsame.symm.trans hlast)
        · simp only [if_neg hsame]
          obtain ⟨_, hflag⟩ | ⟨hparked, _⟩ := hinv.newest
          · exact hflag
          · exact absurd (hlast.trans hparked.symm) hsame
      · have hparked : s.pending_tz = s.last ∧ (s.tz_pending = true ∨ s.raises) := by
          by_contra hnot
          exact hgood ⟨val, hval, hstate, hlast, hnot⟩
        have hother : val ≠ s.pending_tz := fun hsame => hlast (hsame.trans hparked.1)
        refine .inr ⟨hparked.1, ?_⟩
        simp only [if_neg hother]
        exact hparked.2
    · rw [hstep]
      simp
    · rw [hstep]
      intro hpolled
      simp only [Bool.or_eq_true] at hpolled
      refine ⟨hquiet hpolled, ?_⟩
      simp only
      obtain hpolled | hfresh := hpolled
      · simp [(hinv.polled hpolled).2]
      · simp [(hinv.fresh hfresh).2 val hval]
    · rw [hstep]
      exact fun _ _ _ hbehind => Bool.noConfusion hbehind

/-- A step that lets no older zone stand keeps what holds of the last. -/
theorem step_inv {s : TimeKeeper} (hinv : s.Inv) {a : TzAction} (hgood : ¬ s.Overtakes a) : (s.step a).Inv := by
  cases a with
  | setTz task z =>
    cases hcall : s.calls task with
    | none =>
      simp only [step, hcall, Option.isSome_none, Bool.false_eq_true, if_false]
      exact setTz_inv hinv hcall z
    | some call =>
      simp only [step, hcall, Option.isSome_some, if_true]
      exact hinv
  | proceed task => exact proceed_inv hinv hgood
  | copy =>
    simp only [step]
    split
    · exact hinv
    · exact copy_inv hinv
  | write =>
    cases hval : s.val with
    | none =>
      simp only [step, hval, Option.elim_none]
      exact hinv
    | some val =>
      simp only [step, hval, Option.elim_some]
      exact write_inv hinv hval hgood
  | machine env =>
    exact ⟨hinv.kept, hinv.buffered, hinv.copied, hinv.newest, hinv.zone, by simp [step], hinv.polled, hinv.seen⟩

theorem init_inv (env : WriteEnv) (nvs : Nvs) (config_tz : Bytes) : (init env nvs config_tz).Inv := by
  refine ⟨Kept.load rfl rfl nvs, rfl, ?_, .inl ⟨rfl, .inr (.inl rfl)⟩, .inr (.inl rfl), ?_, ?_, ?_⟩
  · simp [init]
  · simp [init]
  · simp [init]
  · simp [Seen, init]

/-- With nothing under way the last zone stands. -/
theorem Inv.lastWins {s : TimeKeeper} (hinv : s.Inv) (hsettled : s.Settled) : s.LastWins := by
  obtain ⟨hquiet, hunparked⟩ := hinv.polled hsettled.2
  have hcurrent : s.tz_setting.value = s.last := by
    obtain ⟨hvalue, _⟩ | ⟨_, hflag | hraises⟩ := hinv.newest
    · exact hvalue
    · rw [hunparked] at hflag
      contradiction
    · exact absurd hraises (not_calling_of_rest hquiet)
  refine ⟨?_, hcurrent, hinv.kept.survives.trans hcurrent⟩
  obtain happlies | hzone | hchosen := hinv.zone
  · exact absurd happlies (not_calling_of_rest hquiet)
  · simpa [effective, hunparked, hcurrent] using hzone
  · exact absurd hchosen (not_calling_of_rest hquiet)

/-- In every interleaving of the pushes of both tasks with the halves of the poll and the
machine, in which no step lets an older zone overtake the last one, the last zone
is in force and persisted whenever the machine is idle and a poll has run. -/
theorem last_push_wins (env : WriteEnv) (nvs : Nvs) (config_tz : Bytes) (actions : List TzAction)
    (hgood : Throughout step (fun s a => ¬ s.Overtakes a) (init env nvs config_tz) actions) :
    Always step (fun s => s.Settled → s.LastWins) (init env nvs config_tz) actions := by
  apply Always.mono (P := Inv) fun s hinv => hinv.lastWins
  exact always_of_invariant (fun s a hinv hstep => step_inv hinv hstep) (init_inv env nvs config_tz) hgood

/-- A zone pushed while the machine runs is parked, and persisted once it is idle. -/
theorem parked_push_wins :
    Always step (fun s => s.Settled → s.LastWins) (init ⟨.Cycle, false⟩ (fun _ => none) (bytes "UTC0"))
      [.setTz .web ⟨bytes "CET-1", by decide⟩, .proceed .web, .proceed .web, .proceed .web, .proceed .web,
        .machine ⟨.Idle, false⟩, .copy, .write] :=
  last_push_wins ⟨.Cycle, false⟩ (fun _ => none) (bytes "UTC0") _ (by decide)

/-- A zone pushed between the halves of a poll that writes the one parked before it. -/
theorem copied_zone_overtakes :
    ¬ Always step (fun s => s.Settled → s.LastWins) (init ⟨.Cycle, false⟩ (fun _ => none) (bytes "UTC0"))
      [.setTz .web ⟨bytes "CET-1", by decide⟩, .proceed .web, .proceed .web, .proceed .web, .proceed .web,
        .machine ⟨.Idle, false⟩, .copy, .setTz .web ⟨bytes "EST5", by decide⟩, .proceed .web, .proceed .web,
        .proceed .web, .write, .copy] := by
  intro halways
  have hzone := (halways.last (by decide)).effective
  revert hzone
  decide

end TimeKeeper

end DuneWeaver
