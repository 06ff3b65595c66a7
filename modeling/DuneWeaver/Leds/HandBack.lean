import DuneWeaver.Leds.Agreement
import DuneWeaver.Overlay.HandBack

open Transition (run Throughout)

namespace DuneWeaver

/-- The strip while the machine goes on, with the text that was accepted last
for each key. -/
structure Strip where
  leds : Leds
  env : WriteEnv
  accepted : Leds.Key → Option Bytes := fun _ => none

namespace Strip

open Leds (Key checkLive LiveAgrees ReadAlike)

inductive Event where
  | setLive (key value : Bytes)
  | machine (env : WriteEnv)
  | pollLine (report : Option LedHook.Cat) (frame : Bool)

def step (s : Strip) : Event → Strip
  | .setLive key value =>
    let called := s.leds.setLive s.env key value
    let accepted := match Key.ofText key with
      | some k => if called.1 = .Ok then Function.update s.accepted k (some value) else s.accepted
      | none => s.accepted
    { s with leds := called.2, accepted }
  | .machine env => { s with env }
  | .pollLine report frame => { s with leds := s.leds.pollLine s.env report frame }

/-- Nothing has been set yet. -/
structure Fresh (s : Strip) : Prop where
  live : ∀ k, s.leds.live k = []
  accepted : ∀ k, s.accepted k = none

/-- While the machine runs a text is set that the setting reads, and not the empty one. While it is idle nothing is set
behind an override, and the machine is not idle again, with an override there, before a poll has seen it run. -/
def InOrder (s : Strip) : Event → Prop
  | .setLive key value => ∀ k, Key.ofText key = some k → checkLive k value = .Ok →
    if s.env.idle then (k.reading value).isSome → s.leds.live k = [] else value ≠ [] ∧ (k.reading value).isSome
  | .machine env => s.env.idle = false → env.idle = true → s.leds.was_running = true ∨ ∀ k, s.leds.live k = []
  | .pollLine _ _ => True

/-- No override is left, and every setting holds what was accepted last. -/
def Settled (s : Strip) : Prop :=
  ∀ k, s.leds.live k = [] ∧ ∀ value, s.accepted k = some value → k.reading value = some (s.leds.get k)

/-- The strip as values behind overrides. -/
def store (s : Strip) : Overlay.Store Key (Option SettingValue) where
  backing k := some (s.leds.get k)
  pending k := if s.leds.live k = [] then none else some (k.reading (s.leds.live k))
  direct := s.env.idle
  seen := s.leds.was_running
  last k := (s.accepted k).map fun value => k.reading value

/-- The overrides are such that can be handed back. -/
def Readable (s : Strip) : Prop := ∀ k, s.leds.live k ≠ [] → (k.reading (s.leds.live k)).isSome

end Strip

namespace Leds

variable (env : WriteEnv) (report : Option LedHook.Cat) (frame : Bool) (s : Leds)

theorem noticeChoice_same (s : Leds) : s.noticeChoice.get = s.get ∧ s.noticeChoice.live = s.live ∧
    s.noticeChoice.was_running = s.was_running := by
  unfold noticeChoice
  dsimp only
  split_ifs
  · exact ⟨rfl, rfl, rfl⟩
  · exact ⟨rfl, rfl, rfl⟩

theorem chosen_was_running (k : Key) (s : Leds) : (s.chosen k).was_running = s.was_running := by
  unfold chosen
  split_ifs
  · rfl
  · rfl

/-- What a poll does to the settings and to the overrides. -/
theorem pollLine_spec (k : Key) :
    (s.pollLine env report frame).get k =
        (if s.was_running && env.idle then k.handedBack (s.live k) (s.get k) else s.get k) ∧
      (s.pollLine env report frame).live k = (if s.was_running && env.idle then [] else s.live k) ∧
      (s.pollLine env report frame).was_running = !env.idle := by
  obtain ⟨reported, hreported, hget, hlive, hrunning⟩ : ∃ reported : Leds,
      s.pollLine env report frame =
        (let s := if reported.was_running && env.idle then reported.flushLive env else reported
        let s := { s with was_running := !env.idle }
        if frame then s.noticeChoice else s) ∧
      reported.get = s.get ∧ reported.live = s.live ∧ reported.was_running = s.was_running := by
    cases report with
    | none => exact ⟨s, rfl, rfl, rfl, rfl⟩
    | some cat => exact ⟨{ s with hook := s.hook.reportCat cat }, rfl, rfl, rfl, rfl⟩
  rw [hreported, ← hget, ← hlive, ← hrunning]
  have hnotice : ∀ polled : Leds, (if frame then polled.noticeChoice else polled).get = polled.get ∧
      (if frame then polled.noticeChoice else polled).live = polled.live ∧
      (if frame then polled.noticeChoice else polled).was_running = polled.was_running := by
    intro polled
    split_ifs
    · exact noticeChoice_same polled
    · exact ⟨rfl, rfl, rfl⟩
  dsimp only
  obtain ⟨hget', hlive', hrunning'⟩ := hnotice
    { (if reported.was_running && env.idle then reported.flushLive env else reported) with was_running := !env.idle }
  rw [hget', hlive', hrunning']
  by_cases hflush : (reported.was_running && env.idle) = true
  · have hidle : env.idle = true := (Bool.and_eq_true_iff.mp hflush).2
    obtain ⟨hflushed, hnone⟩ := flushLive_spec hidle reported k
    simp only [hflush, if_true]
    exact ⟨hflushed, hnone, trivial⟩
  · rw [if_neg hflush, if_neg hflush, if_neg hflush]
    exact ⟨rfl, rfl, rfl⟩

end Leds

namespace Strip

open Leds (Key checkLive LiveAgrees ReadAlike)

variable {s : Strip} {key value : Bytes} {k : Key}

/-- A text that is turned down changes nothing but for the store. -/
theorem setLive_rejected (hkey : Key.ofText key = some k) (hreject : checkLive k value ≠ .Ok) :
    s.step (.setLive key value) = s := by
  have hcall : s.leds.setLive s.env key value = (checkLive k value, s.leds) := by
    cases hidle : s.env.idle with
    | true => rw [Leds.setLive_idle hkey hidle, if_neg hreject]
    | false => rw [Leds.setLive_running hkey hidle, if_neg hreject]
  rw [step, hcall, hkey]
  dsimp only
  rw [if_neg hreject]

theorem setLive_unknown (hkey : Key.ofText key = none) : s.step (.setLive key value) = s := by
  rw [step, Leds.setLive, hkey]

/-- What was accepted last, as the settings read it. -/
theorem accepted_last : (fun k' => (Function.update s.accepted k (some value) k').map fun value => k'.reading value) =
    Function.update s.store.last k (some (k.reading value)) := by
  funext k'
  by_cases hsame : k' = k
  · subst hsame
    rw [Function.update_self, Function.update_self]
    rfl
  · rw [Function.update_of_ne hsame, Function.update_of_ne hsame]
    rfl

theorem step_override (hkey : Key.ofText key = some k) (hcheck : checkLive k value = .Ok)
    (hrunning : s.env.idle = false) : s.step (.setLive key value) =
      { s with leds := s.leds.override k value, accepted := Function.update s.accepted k (some value) } := by
  rw [step, Leds.setLive_running hkey hrunning, hkey, if_pos hcheck]
  rfl

/-- While the machine runs, a text that is taken is an override. -/
theorem store_override (hkey : Key.ofText key = some k) (hcheck : checkLive k value = .Ok)
    (hrunning : s.env.idle = false) (hne : value ≠ []) :
    (s.step (.setLive key value)).store = s.store.step (.put k (k.reading value)) := by
  obtain ⟨hget, hlive, -, -⟩ := Leds.chosen_same k s.leds
  rw [step_override hkey hcheck hrunning, Overlay.Store.step_put_behind hrunning]
  refine Overlay.Store.ext ?_ ?_ rfl ?_ ?_
  · funext k'
    exact congrArg some (congrFun hget k')
  · funext k'
    change (if Function.update s.leds.live k value k' = [] then none
      else some (k'.reading (Function.update s.leds.live k value k'))) =
        Function.update s.store.pending k (some (k.reading value)) k'
    by_cases hsame : k' = k
    · subst hsame
      rw [Function.update_self, Function.update_self, if_neg hne]
    · rw [Function.update_of_ne hsame, Function.update_of_ne hsame]
      rfl
  · exact Leds.chosen_was_running k s.leds
  · exact accepted_last

/-- The settings and overrides that a call while the machine is idle leaves. -/
theorem setLive_idle_spec (hkey : Key.ofText key = some k) (hcheck : checkLive k value = .Ok)
    (hidle : s.env.idle = true) :
    let called := s.leds.setLive s.env key value
    (called.1 = .Ok ↔ (k.reading value).isSome) ∧
      called.2.get = Function.update s.leds.get k ((k.reading value).getD (s.leds.get k)) ∧
      called.2.live = s.leds.live ∧ called.2.was_running = s.leds.was_running := by
  obtain ⟨hok, hget⟩ := Leds.setStringValue_spec k value s.leds hidle
  have hwritten : (s.leds.setStringValue s.env k value).2.get =
      Function.update s.leds.get k ((k.reading value).getD (s.leds.get k)) := by
    funext k'
    by_cases hsame : k' = k
    · subst hsame
      rw [Function.update_self, hget]
    · rw [Function.update_of_ne hsame, Leds.setStringValue_get_of_ne k value s.leds hsame]
  have hlive : (s.leds.setStringValue s.env k value).2.live = s.leds.live := Leds.setStringValue_live k value s.leds
  have hrunning : (s.leds.setStringValue s.env k value).2.was_running = s.leds.was_running := by
    cases k
    all_goals rfl
  obtain ⟨hget', hlive', -, -⟩ := Leds.chosen_same k (s.leds.setStringValue s.env k value).2
  have hrunning' := Leds.chosen_was_running k (s.leds.setStringValue s.env k value).2
  rw [Leds.setLive_idle hkey hidle, if_pos hcheck]
  refine ⟨hok, ?_⟩
  dsimp only
  split_ifs
  · exact ⟨hget'.trans hwritten, hlive'.trans hlive, hrunning'.trans hrunning⟩
  · exact ⟨hwritten, hlive, hrunning⟩

/-- While it is idle, the setting is written. -/
theorem store_written (hkey : Key.ofText key = some k) (hcheck : checkLive k value = .Ok) (hidle : s.env.idle = true)
    (hread : (k.reading value).isSome) :
    (s.step (.setLive key value)).store = s.store.step (.put k (k.reading value)) := by
  obtain ⟨hok, hget, hlive, hrunning⟩ := setLive_idle_spec hkey hcheck hidle
  obtain ⟨v, hv⟩ := Option.isSome_iff_exists.mp hread
  rw [Overlay.Store.step_put_direct hidle, step, hkey]
  dsimp only
  rw [if_pos (hok.mpr hread)]
  refine Overlay.Store.ext ?_ ?_ rfl hrunning ?_
  · funext k'
    change some ((s.leds.setLive s.env key value).2.get k') = Function.update s.store.backing k (k.reading value) k'
    rw [hget, hv, Option.getD_some]
    by_cases hsame : k' = k
    · subst hsame
      rw [Function.update_self, Function.update_self]
    · rw [Function.update_of_ne hsame, Function.update_of_ne hsame]
      rfl
  · funext k'
    change (if (s.leds.setLive s.env key value).2.live k' = [] then none
      else some (k'.reading ((s.leds.setLive s.env key value).2.live k'))) = s.store.pending k'
    rw [hlive]
    rfl
  · exact accepted_last

/-- A text that the setting does not take changes nothing. -/
theorem store_refused (hkey : Key.ofText key = some k) (hcheck : checkLive k value = .Ok) (hidle : s.env.idle = true)
    (hread : ¬ (k.reading value).isSome) : (s.step (.setLive key value)).store = s.store := by
  obtain ⟨hok, hget, hlive, hrunning⟩ := setLive_idle_spec hkey hcheck hidle
  rw [Option.not_isSome_iff_eq_none] at hread
  rw [hread, Option.getD_none, Function.update_eq_self] at hget
  have hnot : (s.leds.setLive s.env key value).1 ≠ .Ok := fun h => by
    have hsome := hok.mp h
    rw [hread] at hsome
    cases hsome
  rw [step, hkey]
  dsimp only
  rw [if_neg hnot]
  unfold store
  dsimp only
  rw [hget, hlive, hrunning]

theorem store_machine (env : WriteEnv) : (s.step (.machine env)).store = s.store.step (.turn env.idle) := rfl

theorem store_pollLine (hreadable : s.Readable) (report : Option LedHook.Cat) (frame : Bool) :
    (s.step (.pollLine report frame)).store = s.store.step .poll := by
  have hspec := Leds.pollLine_spec s.env report frame s.leds
  cases hflush : s.leds.was_running && s.env.idle with
  | true =>
    rw [Overlay.Store.step_poll_due hflush]
    refine Overlay.Store.ext ?_ ?_ rfl (hspec (.int .speed)).2.2 rfl
    · funext k'
      change some ((s.leds.pollLine s.env report frame).get k') = s.store.effective k'
      rw [(hspec k').1, hflush, if_pos rfl, Key.handedBack]
      change _ =
        ((if s.leds.live k' = [] then none else some (k'.reading (s.leds.live k'))).getD (some (s.leds.get k')))
      split_ifs with hnone
      · rfl
      · obtain ⟨v, hv⟩ := Option.isSome_iff_exists.mp (hreadable k' hnone)
        rw [hv]
        rfl
    · funext k'
      change (if (s.leds.pollLine s.env report frame).live k' = [] then none else _) = none
      rw [(hspec k').2.1, hflush, if_pos rfl, if_pos rfl]
  | false =>
    rw [Overlay.Store.step_poll_else hflush]
    refine Overlay.Store.ext ?_ ?_ rfl (hspec (.int .speed)).2.2 rfl
    · funext k'
      change some ((s.leds.pollLine s.env report frame).get k') = some (s.leds.get k')
      rw [(hspec k').1, hflush, if_neg Bool.false_ne_true]
    · funext k'
      change (if (s.leds.pollLine s.env report frame).live k' = [] then none
        else some (k'.reading ((s.leds.pollLine s.env report frame).live k'))) = s.store.pending k'
      rw [(hspec k').2.1, hflush, if_neg Bool.false_ne_true]
      rfl

theorem InOrder.behind (horder : s.InOrder (.setLive key value)) (hkey : Key.ofText key = some k)
    (hcheck : checkLive k value = .Ok) (hidle : s.env.idle = true) (hread : (k.reading value).isSome) :
    s.leds.live k = [] := by
  have hset := horder k hkey hcheck
  rw [hidle, if_pos rfl] at hset
  exact hset hread

/-- What stands for each key is what was accepted last for it, and the overrides
can be handed back. -/
structure InForce (s : Strip) : Prop where
  current : s.store.Current
  readable : s.Readable

theorem InForce.setLive (h : s.InForce) (horder : s.InOrder (.setLive key value)) :
    (s.step (.setLive key value)).InForce := by
  cases hkey : Key.ofText key with
  | none =>
    rw [setLive_unknown hkey]
    exact h
  | some k =>
    by_cases hcheck : checkLive k value = .Ok
    swap
    · rw [setLive_rejected hkey hcheck]
      exact h
    cases hidle : s.env.idle with
    | true =>
      have hreadable : (s.step (.setLive key value)).Readable := by
        intro k' hne
        have hlive : (s.step (.setLive key value)).leds.live = s.leds.live :=
          (setLive_idle_spec hkey hcheck hidle).2.2.1
        rw [hlive] at hne ⊢
        exact h.readable k' hne
      by_cases hread : (k.reading value).isSome
      · refine ⟨?_, hreadable⟩
        rw [store_written hkey hcheck hidle hread]
        refine h.current.put fun _ => ?_
        exact if_pos (horder.behind hkey hcheck hidle hread)
      · refine ⟨?_, hreadable⟩
        rw [store_refused hkey hcheck hidle hread]
        exact h.current
    | false =>
      have hset := horder k hkey hcheck
      rw [hidle, if_neg Bool.false_ne_true] at hset
      refine ⟨?_, ?_⟩
      · rw [store_override hkey hcheck hidle hset.1]
        refine h.current.put fun hdirect => ?_
        change s.env.idle = true at hdirect
        rw [hidle] at hdirect
        cases hdirect
      · rw [step_override hkey hcheck hidle]
        intro k' hne
        change Function.update s.leds.live k value k' ≠ [] at hne
        change (k'.reading (Function.update s.leds.live k value k')).isSome
        by_cases hsame : k' = k
        · subst hsame
          rw [Function.update_self]
          exact hset.2
        · rw [Function.update_of_ne hsame] at hne ⊢
          exact h.readable k' hne

theorem InForce.machine (h : s.InForce) {env : WriteEnv} (horder : s.InOrder (.machine env)) :
    (s.step (.machine env)).InForce where
  current := by
    rw [store_machine]
    refine h.current.step fun hrunning hidle => ?_
    rcases horder hrunning hidle with hseen | hnone
    · exact .inl hseen
    · exact .inr fun k => if_pos (hnone k)
  readable := h.readable

theorem InForce.pollLine (h : s.InForce) (report : Option LedHook.Cat) (frame : Bool) :
    (s.step (.pollLine report frame)).InForce where
  current := by
    rw [store_pollLine h.readable]
    exact h.current.poll
  readable := by
    intro k hne
    have hlive := (Leds.pollLine_spec s.env report frame s.leds k).2.1
    change (s.leds.pollLine s.env report frame).live k ≠ [] at hne
    change (k.reading ((s.leds.pollLine s.env report frame).live k)).isSome
    rw [hlive] at hne ⊢
    split_ifs at hne ⊢ with hflush
    · exact absurd rfl hne
    · exact h.readable k hne

theorem InForce.step {e : Event} (h : s.InForce) (horder : s.InOrder e) : (s.step e).InForce := by
  cases e with
  | setLive key value => exact h.setLive horder
  | machine env => exact h.machine horder
  | pollLine report frame => exact h.pollLine report frame

theorem Fresh.inForce (h : s.Fresh) : s.InForce where
  current := by
    refine Overlay.Store.current_of_fresh (fun k => if_pos (h.live k)) fun k => ?_
    change (s.accepted k).map (fun value => k.reading value) = none
    rw [h.accepted k]
    rfl
  readable k hne := absurd (h.live k) hne

theorem InForce.settled (h : s.InForce) (hidle : s.env.idle = true) (report : Option LedHook.Cat) (frame : Bool) :
    (s.step (.pollLine report frame)).Settled := by
  have hstore : (s.step (.pollLine report frame)).store.Settled := by
    rw [store_pollLine h.readable]
    exact h.current.settled hidle
  refine fun k => ⟨?_, fun value haccepted => ?_⟩
  · have hnone := (hstore k).1
    change (if (s.step (.pollLine report frame)).leds.live k = [] then none else _) = none at hnone
    by_contra hne
    rw [if_neg hne] at hnone
    cases hnone
  · refine ((hstore k).2 (k.reading value) ?_).symm
    change ((s.step (.pollLine report frame)).accepted k).map (fun value => k.reading value) = some (k.reading value)
    rw [haccepted]
    rfl

theorem run_inForce (h : s.InForce) {events : List Event} (horder : Throughout step InOrder s events) :
    (run step s events).InForce :=
  (Transition.always_of_invariant (fun _ _ hs hin => InForce.step hs hin) h horder).last

/-- A live parameter agrees with its setting exactly on the texts that both read alike. And where live texts are set in
order, every poll that finds the machine idle leaves no override, and each setting with what was accepted last. -/
theorem live_settings_agree_iff (key value : Bytes) (leds : Leds) (start : Strip) (events : List Event) :
    (LiveAgrees key value leds ↔ ReadAlike key value leds) ∧
      (start.Fresh → Throughout step InOrder start events → (run step start events).env.idle = true →
        ∀ report frame, ((run step start events).step (.pollLine report frame)).Settled) :=
  ⟨Leds.live_agrees_iff key value leds, fun hfresh horder hidle report frame =>
    (run_inForce hfresh.inForce horder).settled hidle report frame⟩

/-- The strip as it is made, with a machine at rest. -/
def atBoot : Strip where
  leds := {
    enums := Leds.EnumKey.setting
    colors := Leds.ColorKey.setting
    ints := Leds.IntKey.setting
    nvs := fun _ => none
    enum_declared := fun _ => rfl
    color_declared := fun k => by cases k <;> rfl
    int_declared := fun k => by cases k <;> exact ⟨⟨rfl, rfl⟩, rfl⟩ }
  env := ⟨.Idle, false⟩

theorem fresh_atBoot : atBoot.Fresh := ⟨fun _ => rfl, fun _ => rfl⟩

/-- A color set while a pattern runs, and handed back behind it. -/
def greenMeanwhile : List Event :=
  [.machine ⟨.Cycle, true⟩, .pollLine none false, .setLive (bytes "color") (bytes "00FF00"), .machine ⟨.Idle, false⟩]

theorem live_settings_agree_iff_green :
    LiveAgrees (bytes "color") (bytes "00FF00") atBoot.leds ∧
      ∀ report frame, ((run step atBoot greenMeanwhile).step (.pollLine report frame)).Settled := by
  have hkey : Key.ofText (bytes "color") = some (.color .color) := by decide
  have halike : ReadAlike (bytes "color") (bytes "00FF00") atBoot.leds := by
    unfold ReadAlike
    rw [hkey]
    exact ⟨fun hnil => absurd hnil (by decide), fun hhash => absurd hhash (by decide)⟩
  have horder : Throughout step InOrder atBoot greenMeanwhile := by
    refine ⟨(fun hrunning => by cases hrunning), trivial, fun k hk hcheck => ?_, fun _ _ => .inl rfl, trivial⟩
    obtain rfl : .color .color = k := Option.some.inj (hkey.symm.trans hk)
    exact ⟨by decide, rfl⟩
  have hsettles := live_settings_agree_iff (bytes "color") (bytes "00FF00") atBoot.leds atBoot greenMeanwhile
  exact ⟨hsettles.1.mpr halike, hsettles.2 fresh_atBoot horder rfl⟩

/-- A brightness set while a pattern runs comes back over one that is set behind the pattern. -/
def dimmedBefore : List Event :=
  [.machine ⟨.Cycle, true⟩, .pollLine none false, .setLive (bytes "brightness") (bytes "10"),
    .machine ⟨.Idle, false⟩, .setLive (bytes "brightness") (bytes "200")]

/-- A pattern between two polls. -/
def unseenPattern : List Event :=
  [.machine ⟨.Cycle, true⟩, .setLive (bytes "speed") (bytes "80"), .machine ⟨.Idle, false⟩]

/-- A color with a `#` is black while the pattern runs, a brightness is not the one set last, and an override
is left. -/
theorem live_settings_disagree :
    ¬ LiveAgrees (bytes "color") (bytes "#FF0000") atBoot.leds ∧
      ¬ ((run step atBoot dimmedBefore).step (.pollLine none false)).Settled ∧
      ¬ ((run step atBoot unseenPattern).step (.pollLine none false)).Settled := by
  refine ⟨?_, fun hsettled => ?_, fun hsettled => ?_⟩
  · rw [Leds.live_agrees_iff]
    have hkey : Key.ofText (bytes "color") = some (.color .color) := by decide
    unfold ReadAlike
    rw [hkey]
    exact fun halike => absurd (halike.2 (by decide)) (by decide)
  · have hlast := (hsettled (.int .brightness)).2 (bytes "200") (by decide)
    exact absurd hlast (by decide)
  · exact absurd (hsettled (.int .speed)).1 (by decide)

end Strip

end DuneWeaver
