import DuneWeaver.Bytes
import DuneWeaver.Ticks.Clock
import DuneWeaver.Transition.Run
import DuneWeaver.Types

open Ticks Transition

namespace DuneWeaver

/-- `$WiFi/Mode`. -/
inductive WiFiStartupMode where
  | WiFiOff
  | WiFiSTA
  | WiFiFallback
  | WiFiAP
  deriving DecidableEq

/-- `WiFi.getMode()`. -/
inductive WifiMode where
  | WIFI_OFF
  | WIFI_STA
  | WIFI_AP
  | WIFI_AP_STA
  deriving DecidableEq

def STA_GRACE_MS : Nat := 20000
def STA_RETRY_MS : Nat := 30000
def STA_SLOW_MS : Nat := 120000
def STA_SLOW_AFTER : UInt32 := 5
def AP_PROBE_SETTLE_MS : Nat := 30000
def AP_PROBE_WINDOW_MS : Nat := 25000
def AP_PROBE_EVERY_MS : Nat := 300000

/-- A call of the WiFi driver; of a connect it is noted whether the recovery AP is
up then and a probe is being opened. -/
inductive WifiCall where
  | esp_wifi_connect (ap_raised ap_probing : Bool)
  | esp_wifi_disconnect
  deriving DecidableEq

/-- The settings that stay as they are. -/
structure WifiSettings where
  mode : WiFiStartupMode
  sta_ssid : Bytes
  deriving DecidableEq

/-- What a poll finds: the milliseconds since the poll before it, the link, the job
stack, the machine state, `$WiFi/ApFallbackMin`, and whether the AP can be raised. -/
structure WifiEnv where
  elapsed : Fin 1000
  connected : Bool := false
  associated : Bool := false
  job_active : Bool := false
  state : State := .Idle
  ap_fallback_min : Int := 10
  softAP : Bool := true

/-- The station link supervisor. The milliseconds are those of a 32-bit counter;
`polled_at`, `raised_at` and `opened_at` are the true times of the last poll, of the raising of
the AP and of the last probe since then, and `calls` what the last poll called. -/
structure StaLink where
  wifi_mode : WifiMode := .WIFI_OFF
  sta_down_since : UInt32 := 0
  sta_next_try : UInt32 := 0
  sta_tries : UInt32 := 0
  sta_gate_checked : UInt32 := 0
  sta_job_active : Bool := false
  sta_pattern_done : Bool := false
  ap_raised : Bool := false
  ap_probing : Bool := false
  ap_probe_until : UInt32 := 0
  ap_is_fallback : Bool := false
  sta_fail_reason : Bytes := []
  polled_at : Nat
  raised_at : Nat := 0
  opened_at : Option Nat := none
  calls : List WifiCall := []
  deriving DecidableEq

namespace StaLink

/-- `(int32_t)(now - until) < 0`. -/
def before (now deadline : UInt32) : Bool := (now - deadline).toInt32 < 0

def esp_wifi_connect (s : StaLink) : StaLink :=
  { s with calls := s.calls ++ [.esp_wifi_connect s.ap_raised s.ap_probing] }

def esp_wifi_disconnect (s : StaLink) : StaLink := { s with calls := s.calls ++ [.esp_wifi_disconnect] }

def staRetryWindowOpen (e : WifiEnv) (now : UInt32) (s : StaLink) : Bool × StaLink :=
  let s :=
    if now - s.sta_gate_checked ≥ 250 then
      { s with
        sta_gate_checked := now
        sta_pattern_done := s.sta_pattern_done || s.sta_job_active && !e.job_active
        sta_job_active := e.job_active }
    else s
  if e.state = .Homing then (false, s)
  else if s.sta_pattern_done then (true, { s with sta_pattern_done := false })
  else (e.state = .Idle || e.state = .Alarm, s)

def apFallbackMs (e : WifiEnv) : UInt32 :=
  if e.ap_fallback_min > 0 then UInt32.ofInt (e.ap_fallback_min * 60000) else 0

/-- `raiseRecoveryAp` at a time. -/
def raiseRecoveryAp (softAP : Bool) (time : Nat) (s : StaLink) : StaLink :=
  let s := { s.esp_wifi_disconnect with ap_probing := false, wifi_mode := .WIFI_AP_STA }
  if softAP then
    { s with
      ap_raised := true
      ap_is_fallback := true
      sta_fail_reason :=
        if s.sta_fail_reason = [] then
          bytes "home network unreachable for " ++ digits ((tick time - s.sta_down_since).toNat / 60000) ++ bytes " min"
        else s.sta_fail_reason
      sta_next_try := tick time + tick AP_PROBE_SETTLE_MS
      raised_at := time
      opened_at := none }
  else { s with wifi_mode := .WIFI_STA }.esp_wifi_connect

def dropRecoveryAp (s : StaLink) : StaLink :=
  { s with
    wifi_mode := .WIFI_STA
    ap_raised := false
    ap_probing := false
    ap_is_fallback := false
    sta_fail_reason := [] }

/-- `pollStaLink` where the link is down while the AP is up: the station is parked and
wakes for a probe. -/
def pollParked (e : WifiEnv) (time : Nat) (s : StaLink) : StaLink :=
  let now := tick time
  if s.ap_probing then
    if ¬ before now s.ap_probe_until then
      { { s with ap_probing := false }.esp_wifi_disconnect with sta_next_try := now + tick AP_PROBE_EVERY_MS }
    else s
  else if before now s.sta_next_try then s
  else
    let (opens, s) := s.staRetryWindowOpen e now
    if opens then
      { s with
        sta_tries := s.sta_tries + 1
        ap_probing := true
        ap_probe_until := now + tick AP_PROBE_WINDOW_MS
        opened_at := some time }.esp_wifi_connect
    else s

/-- The retry pass raises the AP. -/
def fallbackDue (c : WifiSettings) (e : WifiEnv) (now : UInt32) (s : StaLink) : Bool :=
  ¬ s.ap_raised ∧ c.mode = .WiFiFallback ∧ apFallbackMs e ≠ 0 ∧ now - s.sta_down_since ≥ apFallbackMs e

/-- `pollStaLink` where the link is down and the AP is not up. -/
def pollDown (c : WifiSettings) (e : WifiEnv) (time : Nat) (s : StaLink) : StaLink :=
  let now := tick time
  if s.sta_down_since = 0 then
    { s with sta_down_since := if now ≠ 0 then now else 1, sta_next_try := now + tick STA_GRACE_MS }
  else if before now s.sta_next_try then s
  else
    let (opens, s) := s.staRetryWindowOpen e now
    if opens then
      let s := if s.fallbackDue c e now then s.raiseRecoveryAp e.softAP time else s
      let tries := s.sta_tries + 1
      { s with
        sta_tries := tries
        sta_next_try := now + tick (if tries ≥ STA_SLOW_AFTER then STA_SLOW_MS else STA_RETRY_MS) }.esp_wifi_connect
    else s

/-- There is a station link to supervise. -/
def supervised (c : WifiSettings) (s : StaLink) : Bool :=
  (s.wifi_mode = .WIFI_STA ∨ s.wifi_mode = .WIFI_AP_STA ∧ s.ap_raised) ∧ c.sta_ssid ≠ []

def pollStaLink (c : WifiSettings) (e : WifiEnv) (time : Nat) (s : StaLink) : StaLink :=
  if ¬ s.supervised c then s
  else if s.ap_raised ∧ c.mode = .WiFiAP then
    if s.ap_probing then { s with ap_probing := false }.esp_wifi_disconnect else s
  else if e.connected then
    let s := { s with sta_down_since := 0, sta_tries := 0, sta_pattern_done := false }
    if s.ap_raised then s.dropRecoveryAp else s
  else if e.associated then s
  else if s.ap_raised then s.pollParked e time
  else s.pollDown c e time

/-- A poll of the link. -/
def poll (c : WifiSettings) (s : StaLink) (e : WifiEnv) : StaLink :=
  { s with polled_at := s.polled_at + e.elapsed, calls := [] }.pollStaLink c e (s.polled_at + e.elapsed)

/-- The link as `init` leaves it at a time: whether the station could join its
network, with the reason if it could not, and whether an AP could be raised beside it or alone. -/
def init (c : WifiSettings) (time : Nat) (joined softAP startAP : Bool) (fail_reason : Bytes) : StaLink :=
  let started : StaLink := { polled_at := time, sta_fail_reason := fail_reason }
  let startsAP (s : StaLink) : StaLink := { s with wifi_mode := if startAP then .WIFI_AP else .WIFI_OFF }
  match c.mode with
  | .WiFiOff => started
  | .WiFiSTA => if joined ∧ c.sta_ssid ≠ [] then { started with wifi_mode := .WIFI_STA } else started
  | .WiFiFallback =>
    if joined ∧ c.sta_ssid ≠ [] then { started with wifi_mode := .WIFI_STA }
    else
      let s :=
        if c.sta_ssid ≠ [] then
          { started with wifi_mode := .WIFI_STA, sta_down_since := tick time }.raiseRecoveryAp softAP time
        else started
      if s.ap_raised then s else startsAP { s with ap_is_fallback := true }
  | .WiFiAP => startsAP started

/-- What a poll keeps to, whether or not the AP is up. The times are those of the
polls. -/
structure Timed (s : StaLink) (e : WifiEnv) (after : StaLink) : Prop where
  settles : s.ap_probing = false → after.ap_probing = true →
    s.raised_at + AP_PROBE_SETTLE_MS ≤ s.polled_at + e.elapsed
  spaced : s.ap_probing = false → after.ap_probing = true →
    ∀ opened ∈ s.opened_at, opened + AP_PROBE_EVERY_MS ≤ s.polled_at + e.elapsed
  closes : s.ap_probing = true → e.connected = false → e.associated = false →
    ∀ opened ∈ s.opened_at, s.polled_at < opened + AP_PROBE_WINDOW_MS →
      opened + AP_PROBE_WINDOW_MS ≤ s.polled_at + e.elapsed →
        .esp_wifi_disconnect ∈ after.calls ∧ after.ap_probing = false
  homing : e.state = .Homing → ∀ raised probing, .esp_wifi_connect raised probing ∉ after.calls
  drops : s.ap_raised = true → e.connected = true → after.ap_raised = false

/-- The station stays parked: with the AP up, a connect opens a probe. -/
def Parked (s after : StaLink) : Prop :=
  ∀ probing, .esp_wifi_connect true probing ∈ after.calls →
    s.ap_raised = true ∧ s.ap_probing = false ∧ after.ap_probing = true

/-- What the station owes the hotspot at a poll. -/
structure Keeps (c : WifiSettings) (s : StaLink) (e : WifiEnv) : Prop where
  timed : s.Timed e (s.poll c e)
  parked : s.Parked (s.poll c e)

/-- The station is due for a retry, and may use the radio. -/
def retryDue (e : WifiEnv) (now : UInt32) (s : StaLink) : Bool :=
  s.sta_down_since ≠ 0 ∧ before now s.sta_next_try = false ∧ (s.staRetryWindowOpen e now).1 = true

/-- The poll comes to a retry that raises the AP. -/
def raises (c : WifiSettings) (s : StaLink) (e : WifiEnv) : Bool :=
  let now := tick (s.polled_at + e.elapsed)
  s.supervised c ∧ s.ap_raised = false ∧ e.connected = false ∧ e.associated = false ∧
    s.retryDue e now ∧ s.fallbackDue c e now ∧ e.softAP

/-- What holds between two polls: when the next probe may be opened, and when the one
that is open ends. -/
structure Inv (c : WifiSettings) (s : StaLink) : Prop where
  raised : s.ap_raised = true → s.wifi_mode = .WIFI_AP_STA ∧ c.sta_ssid ≠ [] ∧ c.mode = .WiFiFallback
  probing : s.ap_probing = true → s.ap_raised = true ∧
    ∃ opened, s.opened_at = some opened ∧ s.ap_probe_until = tick (opened + AP_PROBE_WINDOW_MS) ∧
      opened ≤ s.polled_at ∧ s.raised_at + AP_PROBE_SETTLE_MS ≤ opened
  parked : s.ap_raised = true → s.ap_probing = false →
    ∃ next, s.sta_next_try = tick next ∧ next ≤ s.polled_at + AP_PROBE_EVERY_MS ∧
      s.raised_at + AP_PROBE_SETTLE_MS ≤ next ∧ ∀ opened ∈ s.opened_at, opened + AP_PROBE_EVERY_MS ≤ next

theorem before_iff {first second : Nat} (hfirst : first < second + 2 ^ 31) (hsecond : second ≤ first + 2 ^ 31) :
    before (tick first) (tick second) = true ↔ first < second := by
  unfold before
  rw [decide_eq_true_iff, Int32.lt_iff_toInt_lt, signed_difference hfirst hsecond, Int32.toInt_zero]
  omega

/-- A deadline that a counter shows as reached is reached, unless it lies half a wrap
ahead. -/
theorem le_of_not_before {now deadline : Nat} (hnear : deadline ≤ now + 2 ^ 31)
    (hreached : before (tick now) (tick deadline) = false) : deadline ≤ now := by
  by_contra hearly
  have hbefore := (before_iff (by omega) hnear).mpr (Nat.lt_of_not_le hearly)
  rw [hreached] at hbefore
  contradiction

/-- The window changes only what it has seen of the jobs. -/
theorem staRetryWindowOpen_frame (e : WifiEnv) (now : UInt32) (s : StaLink) :
    ∃ checked active done, (s.staRetryWindowOpen e now).2 =
      { s with sta_gate_checked := checked, sta_job_active := active, sta_pattern_done := done } := by
  by_cases hsampled : now - s.sta_gate_checked ≥ 250
  · simp only [staRetryWindowOpen, if_pos hsampled]
    split
    · exact ⟨_, _, _, rfl⟩
    · split
      · exact ⟨_, _, _, rfl⟩
      · exact ⟨_, _, _, rfl⟩
  · simp only [staRetryWindowOpen, if_neg hsampled]
    split
    · exact ⟨_, _, _, rfl⟩
    · split
      · exact ⟨_, _, _, rfl⟩
      · exact ⟨_, _, _, rfl⟩

theorem not_homing_of_open {e : WifiEnv} {now : UInt32} {s : StaLink}
    (hopen : (s.staRetryWindowOpen e now).1 = true) : e.state ≠ .Homing := by
  intro hhoming
  simp only [staRetryWindowOpen, hhoming, if_true] at hopen
  contradiction

/-- What a parked station does at a poll: it waits, it closes the probe that is open, or it opens one. -/
theorem pollParked_cases (e : WifiEnv) (time : Nat) (s : StaLink) :
    (∃ checked active done, s.pollParked e time =
        { s with sta_gate_checked := checked, sta_job_active := active, sta_pattern_done := done } ∧
      (s.ap_probing = true → before (tick time) s.ap_probe_until = true)) ∨
    (s.ap_probing = true ∧ before (tick time) s.ap_probe_until = false ∧ s.pollParked e time =
      { s with
        ap_probing := false
        sta_next_try := tick time + tick AP_PROBE_EVERY_MS
        calls := s.calls ++ [.esp_wifi_disconnect] }) ∨
    (s.ap_probing = false ∧ before (tick time) s.sta_next_try = false ∧ e.state ≠ .Homing ∧
      ∃ checked active done, s.pollParked e time =
        { s with
          sta_gate_checked := checked
          sta_job_active := active
          sta_pattern_done := done
          sta_tries := s.sta_tries + 1
          ap_probing := true
          ap_probe_until := tick time + tick AP_PROBE_WINDOW_MS
          opened_at := some time
          calls := s.calls ++ [.esp_wifi_connect s.ap_raised true] }) := by
  obtain ⟨checked, active, done, hframe⟩ := s.staRetryWindowOpen_frame e (tick time)
  by_cases hprobing : s.ap_probing = true
  · by_cases hbefore : before (tick time) s.ap_probe_until = true
    · refine .inl ⟨s.sta_gate_checked, s.sta_job_active, s.sta_pattern_done, ?_, fun _ => hbefore⟩
      rw [pollParked, if_pos hprobing, if_neg (not_not.mpr hbefore)]
    · refine .inr (.inl ⟨hprobing, Bool.not_eq_true _ ▸ hbefore, ?_⟩)
      rw [pollParked, if_pos hprobing, if_pos hbefore, esp_wifi_disconnect]
  · by_cases hbefore : before (tick time) s.sta_next_try = true
    · refine .inl ⟨s.sta_gate_checked, s.sta_job_active, s.sta_pattern_done, ?_, fun h => absurd h hprobing⟩
      rw [pollParked, if_neg hprobing, if_pos hbefore]
    · by_cases hopen : (s.staRetryWindowOpen e (tick time)).1 = true
      · refine .inr (.inr ⟨Bool.not_eq_true _ ▸ hprobing, Bool.not_eq_true _ ▸ hbefore, not_homing_of_open hopen,
          checked, active, done, ?_⟩)
        simp only [pollParked, if_neg hprobing, if_neg hbefore, if_pos hopen, hframe, esp_wifi_connect]
      · refine .inl ⟨checked, active, done, ?_, fun h => absurd h hprobing⟩
        simp only [pollParked, if_neg hprobing, if_neg hbefore, if_neg hopen, hframe]

/-- Whether the retry raises the AP does not depend on what the window has seen of the jobs. -/
theorem fallbackDue_frame (c : WifiSettings) (e : WifiEnv) (now : UInt32) (s : StaLink) (checked : UInt32)
    (active done : Bool) :
    fallbackDue c e now
        { s with sta_gate_checked := checked, sta_job_active := active, sta_pattern_done := done } =
      s.fallbackDue c e now := rfl

/-- A connect is called only with the AP down. -/
def ConnectsDown (calls : List WifiCall) : Prop :=
    ∀ raised probing, .esp_wifi_connect raised probing ∈ calls → raised = false

/-- A station that is not due for a retry waits. -/
theorem pollDown_of_not_due (c : WifiSettings) {e : WifiEnv} {time : Nat} {s : StaLink}
    (hdue : ¬ s.retryDue e (tick time) = true) :
    ∃ checked active done since next, s.pollDown c e time =
      { s with
        sta_gate_checked := checked
        sta_job_active := active
        sta_pattern_done := done
        sta_down_since := since
        sta_next_try := next } := by
  obtain ⟨checked, active, done, hframe⟩ := s.staRetryWindowOpen_frame e (tick time)
  by_cases hsince : s.sta_down_since = 0
  · exact ⟨_, _, _, _, _, by rw [pollDown, if_pos hsince]⟩
  · by_cases hbefore : before (tick time) s.sta_next_try = true
    · exact ⟨_, _, _, _, _, by rw [pollDown, if_neg hsince, if_pos hbefore]⟩
    · have hshut : ¬ (s.staRetryWindowOpen e (tick time)).1 = true := by
        intro hopen
        apply hdue
        simp [retryDue, hsince, hbefore, hopen]
      refine ⟨checked, active, done, s.sta_down_since, s.sta_next_try, ?_⟩
      simp only [pollDown, if_neg hsince, if_neg hbefore, if_neg hshut, hframe]

/-- When the next retry is. -/
def retryAfter (tries : UInt32) : Nat := if tries ≥ STA_SLOW_AFTER then STA_SLOW_MS else STA_RETRY_MS

/-- A retry that leaves the AP down. -/
theorem pollDown_of_retry {c : WifiSettings} {e : WifiEnv} {time : Nat} {s : StaLink}
    (hdue : s.retryDue e (tick time) = true) (hstays : ¬ (s.fallbackDue c e (tick time) = true ∧ e.softAP = true))
    (hmode : s.wifi_mode = .WIFI_STA) (hraised : s.ap_raised = false) (hprobing : s.ap_probing = false)
    (hcalls : s.calls = []) :
    ∃ checked active done tries next calls, ConnectsDown calls ∧ s.pollDown c e time =
      { s with
        sta_gate_checked := checked
        sta_job_active := active
        sta_pattern_done := done
        sta_tries := tries
        sta_next_try := next
        calls := calls } := by
  obtain ⟨checked, active, done, hframe⟩ := s.staRetryWindowOpen_frame e (tick time)
  simp only [retryDue, decide_eq_true_eq] at hdue
  obtain ⟨hsince, hreached, hopen⟩ := hdue
  by_cases hfalls : s.fallbackDue c e (tick time) = true
  · have hsoft : e.softAP = false := by simpa [hfalls] using hstays
    refine ⟨checked, active, done, s.sta_tries + 1, tick time + tick (retryAfter (s.sta_tries + 1)),
      [.esp_wifi_disconnect, .esp_wifi_connect false false, .esp_wifi_connect false false], ?_, ?_⟩
    · simp [ConnectsDown]
    · simp only [pollDown, if_neg hsince, hreached, hopen, hframe, fallbackDue_frame, hfalls, if_true,
        Bool.false_eq_true, if_false, raiseRecoveryAp, hsoft]
      simp only [esp_wifi_disconnect, esp_wifi_connect, hmode, hraised, hcalls, hprobing, List.nil_append,
        List.cons_append, retryAfter]
  · refine ⟨checked, active, done, s.sta_tries + 1, tick time + tick (retryAfter (s.sta_tries + 1)),
      [.esp_wifi_connect false false], ?_, ?_⟩
    · simp [ConnectsDown]
    · simp only [pollDown, if_neg hsince, hreached, hopen, hframe, fallbackDue_frame, if_neg hfalls, if_true,
        Bool.false_eq_true, if_false]
      simp only [esp_wifi_connect, hraised, hprobing, hcalls, List.nil_append, retryAfter]

/-- A retry that raises the AP connects under it. -/
theorem pollDown_of_raise {c : WifiSettings} {e : WifiEnv} {time : Nat} {s : StaLink}
    (hdue : s.retryDue e (tick time) = true) (hfalls : s.fallbackDue c e (tick time) = true) (hsoft : e.softAP = true)
    (hcalls : s.calls = []) :
    ∃ checked active done reason, s.pollDown c e time =
      { s with
        sta_gate_checked := checked
        sta_job_active := active
        sta_pattern_done := done
        wifi_mode := .WIFI_AP_STA
        ap_raised := true
        ap_probing := false
        ap_is_fallback := true
        sta_fail_reason := reason
        sta_tries := s.sta_tries + 1
        sta_next_try := tick time + tick (retryAfter (s.sta_tries + 1))
        raised_at := time
        opened_at := none
        calls := [.esp_wifi_disconnect, .esp_wifi_connect true false] } := by
  obtain ⟨checked, active, done, hframe⟩ := s.staRetryWindowOpen_frame e (tick time)
  simp only [retryDue, decide_eq_true_eq] at hdue
  obtain ⟨hsince, hreached, hopen⟩ := hdue
  refine ⟨checked, active, done, (s.pollDown c e time).sta_fail_reason, ?_⟩
  simp only [pollDown, if_neg hsince, hreached, hopen, hframe, fallbackDue_frame, hfalls, if_true,
    Bool.false_eq_true, if_false, raiseRecoveryAp, hsoft]
  simp only [esp_wifi_disconnect, esp_wifi_connect, hcalls, List.nil_append, List.cons_append, retryAfter]

theorem settle_le_retryAfter (tries : UInt32) :
    AP_PROBE_SETTLE_MS ≤ retryAfter tries ∧ retryAfter tries ≤ STA_SLOW_MS := by
  unfold retryAfter
  split
  · decide
  · decide

/-- What a poll comes to, and whether it raises the AP. -/
inductive Polled (c : WifiSettings) (s : StaLink) (e : WifiEnv) : StaLink → Prop where
  | rests (checked : UInt32) (active done : Bool) (since next tries : UInt32)
      (hnext : s.ap_raised = true → e.connected = false ∧ next = s.sta_next_try)
      (hopen : s.ap_probing = true → e.connected = false → e.associated = false →
        before (tick (s.polled_at + e.elapsed)) s.ap_probe_until = true)
      (hraises : s.raises c e = false) :
      Polled c s e
        { s with
          polled_at := s.polled_at + e.elapsed
          calls := []
          sta_gate_checked := checked
          sta_job_active := active
          sta_pattern_done := done
          sta_down_since := since
          sta_next_try := next
          sta_tries := tries }
  | drops (done : Bool) (since tries : UInt32) (hconnected : e.connected = true) (hraises : s.raises c e = false) :
      Polled c s e
        { s with
          polled_at := s.polled_at + e.elapsed
          calls := []
          sta_pattern_done := done
          sta_down_since := since
          sta_tries := tries }.dropRecoveryAp
  | closes (hprobing : s.ap_probing = true) (hconnected : e.connected = false) (hraises : s.raises c e = false)
      (hended : before (tick (s.polled_at + e.elapsed)) s.ap_probe_until = false) :
      Polled c s e
        { s with
          polled_at := s.polled_at + e.elapsed
          ap_probing := false
          sta_next_try := tick (s.polled_at + e.elapsed) + tick AP_PROBE_EVERY_MS
          calls := [.esp_wifi_disconnect] }
  | opens (checked tries : UInt32) (active done : Bool) (hraised : s.ap_raised = true) (hprobing : s.ap_probing = false)
      (hreached : before (tick (s.polled_at + e.elapsed)) s.sta_next_try = false) (hhoming : e.state ≠ .Homing)
      (hconnected : e.connected = false) (hraises : s.raises c e = false) :
      Polled c s e
        { s with
          polled_at := s.polled_at + e.elapsed
          sta_gate_checked := checked
          sta_job_active := active
          sta_pattern_done := done
          sta_tries := tries
          ap_probing := true
          ap_probe_until := tick (s.polled_at + e.elapsed) + tick AP_PROBE_WINDOW_MS
          opened_at := some (s.polled_at + e.elapsed)
          calls := [.esp_wifi_connect true true] }
  | retries (checked tries next : UInt32) (active done : Bool) (calls : List WifiCall) (hcalls : ConnectsDown calls)
      (hraised : s.ap_raised = false) (hhoming : e.state ≠ .Homing) (hraises : s.raises c e = false) :
      Polled c s e
        { s with
          polled_at := s.polled_at + e.elapsed
          sta_gate_checked := checked
          sta_job_active := active
          sta_pattern_done := done
          sta_tries := tries
          sta_next_try := next
          calls := calls }
  | raises (checked tries : UInt32) (active done : Bool) (reason : Bytes) (hraised : s.ap_raised = false)
      (hhoming : e.state ≠ .Homing) (hmode : c.mode = .WiFiFallback) (hssid : c.sta_ssid ≠ [])
      (hraises : s.raises c e = true) :
      Polled c s e
        { s with
          polled_at := s.polled_at + e.elapsed
          sta_gate_checked := checked
          sta_job_active := active
          sta_pattern_done := done
          wifi_mode := .WIFI_AP_STA
          ap_raised := true
          ap_probing := false
          ap_is_fallback := true
          sta_fail_reason := reason
          sta_tries := tries
          sta_next_try := tick (s.polled_at + e.elapsed) + tick (retryAfter tries)
          raised_at := s.polled_at + e.elapsed
          opened_at := none
          calls := [.esp_wifi_disconnect, .esp_wifi_connect true false] }

/-- The link as a poll takes it up. -/
def taken (s : StaLink) (e : WifiEnv) : StaLink := { s with polled_at := s.polled_at + e.elapsed, calls := [] }

theorem retryDue_taken (s : StaLink) (e : WifiEnv) (now : UInt32) : (s.taken e).retryDue e now = s.retryDue e now := by
  have hopen : ((s.taken e).staRetryWindowOpen e now).1 = (s.staRetryWindowOpen e now).1 := by
    unfold taken
    by_cases hsampled : now - s.sta_gate_checked ≥ 250
    · simp only [staRetryWindowOpen, if_pos hsampled, apply_ite Prod.fst]
    · simp only [staRetryWindowOpen, if_neg hsampled, apply_ite Prod.fst]
  rw [retryDue, hopen]
  rfl

/-- What a poll does, for a hotspot that the standalone mode has not taken over. -/
theorem poll_eq {c : WifiSettings} {s : StaLink} (e : WifiEnv)
    (hstandalone : ¬ (s.ap_raised = true ∧ c.mode = .WiFiAP)) :
    s.poll c e =
      if ¬ s.supervised c = true then s.taken e
      else if e.connected = true then
        if s.ap_raised = true then
          { s.taken e with sta_down_since := 0, sta_tries := 0, sta_pattern_done := false }.dropRecoveryAp
        else { s.taken e with sta_down_since := 0, sta_tries := 0, sta_pattern_done := false }
      else if e.associated = true then s.taken e
      else if s.ap_raised = true then (s.taken e).pollParked e (s.polled_at + e.elapsed)
      else (s.taken e).pollDown c e (s.polled_at + e.elapsed) := by
  unfold poll pollStaLink
  congr 1
  rw [if_neg hstandalone]
  rfl

theorem poll_cases {c : WifiSettings} {s : StaLink} (hinv : s.Inv c) (e : WifiEnv) : Polled c s e (s.poll c e) := by
  have hstandalone : ¬ (s.ap_raised = true ∧ c.mode = .WiFiAP) := by
    rintro ⟨hraised, hmode⟩
    have hfallback := (hinv.raised hraised).2.2
    rw [hmode] at hfallback
    contradiction
  rw [poll_eq e hstandalone]
  by_cases hlink : s.supervised c = true
  · rw [if_neg (not_not.mpr hlink)]
    by_cases hconnected : e.connected = true
    · rw [if_pos hconnected]
      have hraises : s.raises c e = false := by simp [raises, hconnected]
      split
      · exact .drops false 0 0 hconnected hraises
      case isFalse hdown =>
        refine .rests s.sta_gate_checked s.sta_job_active false 0 s.sta_next_try 0 ?_ ?_ hraises
        · exact fun hraised => absurd hraised hdown
        · exact fun hprobing => absurd (hinv.probing hprobing).1 hdown
    · rw [if_neg hconnected]
      have hdark : e.connected = false := Bool.not_eq_true _ ▸ hconnected
      by_cases hassociated : e.associated = true
      · rw [if_pos hassociated]
        refine .rests s.sta_gate_checked s.sta_job_active s.sta_pattern_done s.sta_down_since s.sta_next_try
          s.sta_tries ?_ ?_ ?_
        · exact fun _ => ⟨hdark, rfl⟩
        · exact fun _ _ halone => by simp [hassociated] at halone
        · simp [raises, hassociated]
      · rw [if_neg hassociated]
        by_cases hraised : s.ap_raised = true
        · rw [if_pos hraised]
          have hraises : s.raises c e = false := by simp [raises, hraised]
          obtain ⟨checked, active, done, heq, hopen⟩ | ⟨hprobing, hended, heq⟩ |
            ⟨hprobing, hreached, hhoming, checked, active, done, heq⟩ :=
              (s.taken e).pollParked_cases e (s.polled_at + e.elapsed)
          · rw [heq]
            exact .rests checked active done s.sta_down_since s.sta_next_try s.sta_tries (fun _ => ⟨hdark, rfl⟩)
              (fun hprobing _ _ => hopen hprobing) hraises
          · rw [heq]
            exact .closes hprobing hdark hraises hended
          · have hconnect : (s.taken e).calls ++ [.esp_wifi_connect (s.taken e).ap_raised true] =
                [.esp_wifi_connect true true] := by
              simp [taken, hraised]
            rw [heq, hconnect]
            exact .opens checked (s.sta_tries + 1) active done hraised hprobing hreached hhoming hdark hraises
        · rw [if_neg hraised]
          have hdown : s.ap_raised = false := Bool.not_eq_true _ ▸ hraised
          have hclosed : s.ap_probing = false := by
            by_contra hprobing
            exact hraised (hinv.probing (Bool.not_eq_false _ ▸ hprobing)).1
          have hlinked : s.wifi_mode = .WIFI_STA ∧ c.sta_ssid ≠ [] := by simpa [supervised, hdown] using hlink
          have hraises : s.raises c e = ((s.taken e).retryDue e (tick (s.polled_at + e.elapsed)) &&
              ((s.taken e).fallbackDue c e (tick (s.polled_at + e.elapsed)) && e.softAP)) := by
            rw [retryDue_taken]
            simp [raises, hlink, hdown, hdark, hassociated]
            rfl
          by_cases hdue : (s.taken e).retryDue e (tick (s.polled_at + e.elapsed)) = true
          · by_cases hfalls : (s.taken e).fallbackDue c e (tick (s.polled_at + e.elapsed)) = true ∧ e.softAP = true
            · obtain ⟨checked, active, done, reason, heq⟩ := pollDown_of_raise hdue hfalls.1 hfalls.2 rfl
              have hmode : c.mode = .WiFiFallback := by
                have := hfalls.1
                simp only [fallbackDue, decide_eq_true_eq] at this
                exact this.2.1
              rw [heq]
              refine .raises checked (s.sta_tries + 1) active done reason hdown ?_ hmode hlinked.2 ?_
              · simp only [retryDue, decide_eq_true_eq] at hdue
                exact not_homing_of_open hdue.2.2
              · simp [hraises, hdue, hfalls]
            · obtain ⟨checked, active, done, tries, next, calls, hcalls, heq⟩ :=
                pollDown_of_retry hdue hfalls hlinked.1 hdown hclosed rfl
              rw [heq]
              refine .retries checked tries next active done calls hcalls hdown ?_ ?_
              · simp only [retryDue, decide_eq_true_eq] at hdue
                exact not_homing_of_open hdue.2.2
              · simpa [hraises, hdue] using hfalls
          · obtain ⟨checked, active, done, since, next, heq⟩ := pollDown_of_not_due c hdue
            rw [heq]
            refine .rests checked active done since next s.sta_tries ?_ ?_ ?_
            · exact fun h => absurd h hraised
            · exact fun h => absurd h (by simp [hclosed])
            · simp [hraises, hdue]
  · rw [if_pos hlink]
    have hdown : ¬ s.ap_raised = true := by
      intro hraised
      obtain ⟨hmode, hssid, _⟩ := hinv.raised hraised
      exact hlink (by simp [supervised, hmode, hraised, hssid])
    refine .rests s.sta_gate_checked s.sta_job_active s.sta_pattern_done s.sta_down_since s.sta_next_try s.sta_tries
      ?_ ?_ ?_
    · exact fun hraised => absurd hraised hdown
    · exact fun hprobing => absurd (hinv.probing hprobing).1 hdown
    · simp [raises, hlink]

/-- A probe is opened only when it is due. -/
theorem Inv.due {c : WifiSettings} {s : StaLink} (hinv : s.Inv c) {elapsed : Nat} (hraised : s.ap_raised = true)
    (hprobing : s.ap_probing = false) (hreached : before (tick (s.polled_at + elapsed)) s.sta_next_try = false) :
    s.raised_at + AP_PROBE_SETTLE_MS ≤ s.polled_at + elapsed ∧
      ∀ opened ∈ s.opened_at, opened + AP_PROBE_EVERY_MS ≤ s.polled_at + elapsed := by
  obtain ⟨next, hnext, hnear, hsettled, hspaced⟩ := hinv.parked hraised hprobing
  have hdue : next ≤ s.polled_at + elapsed := by
    rw [hnext] at hreached
    apply le_of_not_before _ hreached
    simp only [AP_PROBE_EVERY_MS] at hnear
    omega
  exact ⟨hsettled.trans hdue, fun opened hopened => (hspaced opened hopened).trans hdue⟩

theorem Polled.timed {c : WifiSettings} {s after : StaLink} {e : WifiEnv} (hinv : s.Inv c)
    (hpoll : Polled c s e after) :
    s.Timed e after := by
  cases hpoll with
  | rests checked active done since next tries hnext hopen hraises =>
    refine ⟨?_, ?_, ?_, ?_, ?_⟩
    · exact fun hshut hprobing => absurd hprobing (by simp [hshut])
    · exact fun hshut hprobing => absurd hprobing (by simp [hshut])
    · intro hprobing hconnected hassociated opened hopened _ hended
      obtain ⟨_, first, hfirst, huntil, hpast, _⟩ := hinv.probing hprobing
      have hsame : first = opened := by simpa [hfirst] using hopened
      have hbefore := hopen hprobing hconnected hassociated
      rw [huntil, hsame] at hbefore
      have hlate := (before_iff (by omega) (by omega)).mp hbefore
      omega
    · simp
    · intro hraised hconnected
      have hdark := (hnext hraised).1
      rw [hconnected] at hdark
      contradiction
  | drops done since tries hconnected hraises =>
    refine ⟨?_, ?_, ?_, ?_, ?_⟩
    · exact fun _ hprobing => by simp [dropRecoveryAp] at hprobing
    · exact fun _ hprobing => by simp [dropRecoveryAp] at hprobing
    · exact fun _ hdark => by simp [hconnected] at hdark
    · simp [dropRecoveryAp]
    · simp [dropRecoveryAp]
  | closes hprobing hconnected hraises hended =>
    refine ⟨?_, ?_, ?_, ?_, ?_⟩
    · simp
    · simp
    · simp
    · simp
    · simp [hconnected]
  | opens checked tries active done hraised hprobing hreached hhoming hconnected hraises =>
    obtain ⟨hsettled, hspaced⟩ := hinv.due hraised hprobing hreached
    refine ⟨fun _ _ => hsettled, fun _ _ => hspaced, ?_, ?_, ?_⟩
    · simp [hprobing]
    · simp [hhoming]
    · simp [hconnected]
  | retries checked tries next active done calls hcalls hraised hhoming hraises =>
    refine ⟨?_, ?_, ?_, ?_, ?_⟩
    · exact fun hshut hprobing => absurd hprobing (by simp [hshut])
    · exact fun hshut hprobing => absurd hprobing (by simp [hshut])
    · exact fun hprobing => absurd (hinv.probing hprobing).1 (by simp [hraised])
    · exact fun hstate => absurd hstate hhoming
    · simp [hraised]
  | raises checked tries active done reason hraised hhoming hmode hssid hraises =>
    refine ⟨?_, ?_, ?_, ?_, ?_⟩
    · simp
    · simp
    · exact fun hprobing => absurd (hinv.probing hprobing).1 (by simp [hraised])
    · exact fun hstate => absurd hstate hhoming
    · simp [hraised]

theorem Polled.inv {c : WifiSettings} {s after : StaLink} {e : WifiEnv} (hinv : s.Inv c) (hpoll : Polled c s e after) :
    after.Inv c := by
  cases hpoll with
  | rests checked active done since next tries hnext hopen hraises =>
    refine ⟨hinv.raised, ?_, ?_⟩
    · intro hprobing
      obtain ⟨hraised, opened, hopened, huntil, hpast, hsettled⟩ := hinv.probing hprobing
      exact ⟨hraised, opened, hopened, huntil, by simp only; omega, hsettled⟩
    · intro hraised hprobing
      obtain ⟨due, hdue, hnear, hsettled, hspaced⟩ := hinv.parked hraised hprobing
      exact ⟨due, (hnext hraised).2.trans hdue, by simp only; omega, hsettled, hspaced⟩
  | drops done since tries hconnected hraises =>
    constructor
    · simp [dropRecoveryAp]
    · simp [dropRecoveryAp]
    · simp [dropRecoveryAp]
  | closes hprobing hconnected hraises hended =>
    obtain ⟨hraised, first, hfirst, _, hpast, hsettled⟩ := hinv.probing hprobing
    refine ⟨hinv.raised, by simp, ?_⟩
    intro _ _
    refine ⟨s.polled_at + e.elapsed + AP_PROBE_EVERY_MS, tick_add _ _, le_rfl, ?_, ?_⟩
    · simp only
      omega
    · intro opened hopened
      have hsame : first = opened := by simpa [hfirst] using hopened
      omega
  | opens checked tries active done hraised hprobing hreached hhoming hconnected hraises =>
    refine ⟨hinv.raised, ?_, by simp⟩
    intro _
    exact ⟨hraised, _, rfl, tick_add _ _, le_rfl, (hinv.due hraised hprobing hreached).1⟩
  | retries checked tries next active done calls hcalls hraised hhoming hraises =>
    refine ⟨hinv.raised, ?_, ?_⟩
    · exact fun hprobing => absurd (hinv.probing hprobing).1 (by simp [hraised])
    · exact fun h => absurd h (by simp [hraised])
  | raises checked tries active done reason hraised hhoming hmode hssid hraises =>
    refine ⟨fun _ => ⟨rfl, hssid, hmode⟩, by simp, ?_⟩
    intro _ _
    obtain ⟨hsettle, hslow⟩ := settle_le_retryAfter tries
    refine ⟨s.polled_at + e.elapsed + retryAfter tries, tick_add _ _, ?_, ?_, by simp⟩
    · simp only [STA_SLOW_MS, AP_PROBE_EVERY_MS] at hslow ⊢
      omega
    · simp only
      omega

theorem Polled.parked_iff {c : WifiSettings} {s after : StaLink} {e : WifiEnv} (hpoll : Polled c s e after) :
    s.Parked after ↔ ¬ s.raises c e = true := by
  cases hpoll with
  | rests checked active done since next tries hnext hopen hraises => simp [Parked, hraises]
  | drops done since tries hconnected hraises => simp [Parked, hraises, dropRecoveryAp]
  | closes hprobing hconnected hraises hended => simp [Parked, hraises]
  | opens checked tries active done hraised hprobing hreached hhoming hconnected hraises =>
    simp [Parked, hraises, hraised, hprobing]
  | retries checked tries next active done calls hcalls hraised hhoming hraises =>
    apply iff_of_true
    · intro probing hconnect
      have hup := hcalls _ _ hconnect
      contradiction
    · simp [hraises]
  | raises checked tries active done reason hraised hhoming hmode hssid hraises => simp [Parked, hraises, hraised]

theorem Inv.of_down {c : WifiSettings} {s : StaLink} (hraised : s.ap_raised = false) (hprobing : s.ap_probing = false) :
    s.Inv c := by
  refine ⟨?_, ?_, ?_⟩
  · simp [hraised]
  · simp [hprobing]
  · simp [hraised]

/-- At boot the AP is raised with the station parked until the AP has settled. -/
theorem raiseRecoveryAp_inv {c : WifiSettings} {s : StaLink} (hssid : c.sta_ssid ≠ [])
    (hmode : c.mode = .WiFiFallback) :
    (s.raiseRecoveryAp true s.polled_at).Inv c := by
  refine ⟨fun _ => ⟨rfl, hssid, hmode⟩, ?_, ?_⟩
  · intro hprobing
    contradiction
  · intro _ _
    refine ⟨s.polled_at + AP_PROBE_SETTLE_MS, tick_add _ _, ?_, le_rfl, ?_⟩
    · exact Nat.add_le_add_left (by decide) s.polled_at
    · intro opened hopened
      contradiction

theorem init_inv (c : WifiSettings) (time : Nat) (joined softAP startAP : Bool) (fail_reason : Bytes) :
    (init c time joined softAP startAP fail_reason).Inv c := by
  obtain ⟨mode, sta_ssid⟩ := c
  by_cases hjoined : joined = true ∧ sta_ssid ≠ []
  · cases mode with
    | WiFiOff => exact .of_down rfl rfl
    | WiFiAP => exact .of_down rfl rfl
    | WiFiSTA =>
      simp only [init, if_pos hjoined]
      exact .of_down rfl rfl
    | WiFiFallback =>
      simp only [init, if_pos hjoined]
      exact .of_down rfl rfl
  · cases mode with
    | WiFiOff => exact .of_down rfl rfl
    | WiFiAP => exact .of_down rfl rfl
    | WiFiSTA =>
      simp only [init, if_neg hjoined]
      exact .of_down rfl rfl
    | WiFiFallback =>
      by_cases hssid : sta_ssid = []
      · simp only [init, if_neg hjoined, if_neg (not_not.mpr hssid)]
        exact .of_down rfl rfl
      · simp only [init, if_neg hjoined, if_pos hssid]
        cases softAP with
        | true => exact raiseRecoveryAp_inv hssid rfl
        | false => exact .of_down rfl rfl

theorem keeps_iff {c : WifiSettings} {s : StaLink} (hinv : s.Inv c) (e : WifiEnv) :
    s.Keeps c e ↔ ¬ s.raises c e = true := by
  have hpoll := poll_cases hinv e
  rw [← hpoll.parked_iff]
  constructor
  · exact fun hkeeps => hkeeps.parked
  · exact fun hparked => ⟨hpoll.timed hinv, hparked⟩

/-- Along every run of polls from boot, with the counter wrapping as it may, the station
keeps to its times and stays parked behind the hotspot exactly if no retry raises
the hotspot: that retry goes on to connect under it. -/
theorem parked_behind_hotspot_iff (c : WifiSettings) (time : Nat) (joined softAP startAP : Bool) (fail_reason : Bytes)
    (envs : List WifiEnv) :
    Throughout (poll c) (Keeps c) (init c time joined softAP startAP fail_reason) envs ↔
      Throughout (poll c) (fun s e => ¬ s.raises c e = true) (init c time joined softAP startAP fail_reason) envs := by
  apply throughout_iff_of_invariant (I := Inv c)
  · exact fun s e hinv _ => (poll_cases hinv e).inv hinv
  · exact fun s e hinv => keeps_iff hinv e
  · exact init_inv c time joined softAP startAP fail_reason

/-- The home network is gone for a minute, after which the hotspot is due. -/
theorem retry_connects_under_hotspot :
    ¬ Throughout (poll ⟨.WiFiFallback, bytes "home"⟩) (Keeps ⟨.WiFiFallback, bytes "home"⟩)
      (init ⟨.WiFiFallback, bytes "home"⟩ 0 true true true [])
      (List.replicate 83 { elapsed := 999, ap_fallback_min := 1 } ++ [{ elapsed := 999, ap_fallback_min := 1 }]) := by
  intro hall
  have hraised := (hall.last.parked false (by decide +kernel)).1
  revert hraised
  decide +kernel

end StaLink

end DuneWeaver
