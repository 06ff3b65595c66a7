import DuneWeaver.Spindles.VfdQueue

namespace DuneWeaver.Spindles.VfdQueue

/-- What the processes count on when they go by what they have recorded, or lose a command in silence. -/
def Allowed (s : System) : Action → Prop
  | .setState state _ _ abort => s.caller = .idle →
      abort = false ∧ (s._current_state = state → s.mode_missed = false ∧ s.overtaken = false)
  | .call => ∀ state dev_speed, s.caller = .compare state dev_speed → s._current_dev_speed = dev_speed →
      s.speed_answered = true ∧ System.NoSpeed s.ahead
  | .setSpeedfromISR dev_speed => s.interrupt = .idle → s._current_dev_speed = dev_speed ∨ s._last_speed = dev_speed →
      (s._current_dev_speed = dev_speed ∧ s.speed_answered = true ∨ s._last_speed = dev_speed ∧ s.isr_last = true) ∧
        System.NoSpeed s.ahead
  | .send => s.interrupt ≠ .idle → s.vfd_cmd_queue.length < queueSize
  | .prepare => ∀ a, s.task = .taken a →
      (a.speed = some s._current_dev_speed → s.speed_answered = true ∧ System.NoSpeed s.vfd_cmd_queue) ∧
      (a.mode = some .Disable → ∀ b ∈ s.vfd_cmd_queue, b.mode = some .Disable)
  | .exchange _ => ∀ a, s.task = .exchange a 0 → s.unresponsive = true → a.critical = true
  | _ => True

/-- What the three variables record of the commands, for as long as nothing has happened that they do not know of. -/
structure Records (s : System) : Prop where
  dev_speed : s.speed_answered = true → s.speed.acknowledged = some s._current_dev_speed
  exchanging : ∀ a left, s.task = .exchange a left → ∀ speed ∈ a.speed, s._current_dev_speed = speed
  last_speed : s.isr_last = true → due VFDaction.speed s.speed s.ahead = some s._last_speed
  sending : ∀ dev_speed, s.interrupt = .send dev_speed → s._last_speed = dev_speed
  state : s.caller = .idle → s.mode_missed = false → s.overtaken = false →
    due VFDaction.mode s.mode s.ahead = some s._current_state
  initial : ∀ mode critical, s.caller = .set_mode mode critical none → s.overtaken = false → s._current_state = mode
  target : ∀ state ∈ s.caller.target, s.mode_missed = false → due VFDaction.mode s.mode s.ahead = some state

section Records

variable {s : System} {a : VFDaction} {dev_speed : UInt32}

theorem Records.boot : Records System.boot where
  dev_speed h := absurd h (by decide)
  exchanging _ _ h := Task.noConfusion h
  last_speed h := absurd h (by decide)
  sending _ h := Interrupt.noConfusion h
  state h := Caller.noConfusion h
  initial _ _ h _ := by cases h; rfl
  target _ h := by cases h

/-- A mode that is sent is due; `setState` records it when it is done, `init` has done so already. -/
theorem Records.call_set_mode (h : Records s) {mode : SpindleState} {critical : Bool} {next : Option UInt32}
    (hcaller : s.caller = .set_mode mode critical next) : Records s.call := by
  unfold System.call
  rw [hcaller]
  dsimp only
  by_cases hroom : s.vfd_cmd_queue.length < queueSize
  · rw [set_mode_room hroom]
    have hdue : due VFDaction.mode (s.mode.request mode false)
        (s.task.flight ++ (s.vfd_cmd_queue ++ [⟨.setMode mode, critical⟩])) = some mode := due_ahead_append rfl
    refine ⟨h.dev_speed, h.exchanging, fun hisr => ?_, h.sending, fun hidle _ hovertaken => ?_, fun _ _ hset _ => ?_,
      fun state hstate _ => ?_⟩
    · exact (due_ahead_append_other rfl).trans (h.last_speed hisr)
    · cases next with
      | none => exact hdue.trans (congrArg some (h.initial mode critical hcaller hovertaken).symm)
      | some dev_speed => cases hidle
    · cases next <;> cases hset
    · cases next with
      | none => cases hstate
      | some dev_speed =>
        cases hstate
        exact hdue
  · rw [set_mode_full hroom]
    refine ⟨h.dev_speed, h.exchanging, h.last_speed, h.sending, fun _ hmissed => ?_, fun _ _ hset _ => ?_,
      fun _ _ hmissed => ?_⟩
    · cases hmissed
    · cases next <;> cases hset
    · cases hmissed

/-- A speed of `setSpeed` is not the one of the interrupt. -/
theorem Records.call_setSpeed (h : Records s) {state : SpindleState}
    (hcaller : s.caller = .setSpeed state dev_speed) : Records s.call := by
  unfold System.call
  rw [hcaller]
  dsimp only
  have htarget : ∀ state' ∈ (Caller.waiting state).target, s.mode_missed = false →
      due VFDaction.mode s.mode s.ahead = some state' := by
    have hkept := h.target
    rw [hcaller] at hkept
    exact hkept
  by_cases hroom : s.vfd_cmd_queue.length < queueSize
  · rw [setSpeed_room hroom]
    refine ⟨h.dev_speed, h.exchanging, fun hisr => ?_, h.sending, fun hidle => ?_, fun _ _ hset _ => ?_,
      fun state' hstate hmissed => ?_⟩
    · cases hisr
    · cases hidle
    · cases hset
    · exact (due_ahead_append_other rfl).trans (htarget state' hstate hmissed)
  · rw [setSpeed_full hroom]
    refine ⟨h.dev_speed, h.exchanging, fun hisr => ?_, h.sending, fun hidle => ?_, fun _ _ hset _ => ?_, htarget⟩
    · cases hisr
    · cases hidle
    · cases hset

theorem Records.call (h : Records s) : Records s.call := by
  cases hcaller : s.caller with
  | idle =>
    rw [System.call, hcaller]
    exact h
  | set_mode mode critical next => exact h.call_set_mode hcaller
  | compare state dev_speed =>
    have htarget := h.target
    rw [hcaller] at htarget
    unfold System.call
    rw [hcaller]
    dsimp only
    split_ifs
    · exact ⟨h.dev_speed, h.exchanging, h.last_speed, h.sending, fun hidle => Caller.noConfusion hidle,
        fun _ _ hset => Caller.noConfusion hset, htarget⟩
    · exact ⟨h.dev_speed, h.exchanging, h.last_speed, h.sending, fun hidle => Caller.noConfusion hidle,
        fun _ _ hset => Caller.noConfusion hset, htarget⟩
  | setSpeed state dev_speed => exact h.call_setSpeed hcaller
  | waiting state =>
    have htarget := h.target
    rw [hcaller] at htarget
    unfold System.call
    rw [hcaller]
    exact ⟨h.dev_speed, h.exchanging, h.last_speed, h.sending, fun _ hmissed _ => htarget state rfl hmissed,
      fun _ _ hset => Caller.noConfusion hset, fun _ hstate => absurd hstate (Option.not_mem_none _)⟩

/-- The interrupt has recorded the speed that it sends. -/
theorem Records.send (h : Records s) : Records s.send := by
  unfold System.send
  cases hinterrupt : s.interrupt with
  | idle => exact h
  | send dev_speed =>
    dsimp only
    by_cases hroom : s.vfd_cmd_queue.length < queueSize
    · rw [System.xQueueSend, if_pos hroom]
      have hother {t : Track SpindleState} : due VFDaction.mode t
          (s.task.flight ++ (s.vfd_cmd_queue ++ [⟨.setSpeed dev_speed, dev_speed = 0⟩])) =
            due VFDaction.mode t s.ahead := due_ahead_append_other rfl
      refine ⟨h.dev_speed, h.exchanging, fun _ => ?_, fun _ hsend => Interrupt.noConfusion hsend,
        fun hidle hmissed hovertaken => ?_, h.initial, fun state hstate hmissed => ?_⟩
      · rw [h.sending dev_speed hinterrupt]
        show due VFDaction.speed _ (s.task.flight ++ (s.vfd_cmd_queue ++ [_])) = some dev_speed
        exact due_ahead_append rfl
      · exact hother.trans (h.state hidle hmissed hovertaken)
      · exact hother.trans (h.target state hstate hmissed)
    · rw [System.xQueueSend, if_neg hroom]
      exact ⟨h.dev_speed, h.exchanging, fun hisr => absurd hisr Bool.false_ne_true,
        fun _ hsend => Interrupt.noConfusion hsend, h.state, h.initial, h.target⟩

/-- What is due stays due when the task discards a speed that the device is at, or resets others like its `Disable`. -/
theorem Records.prepare (h : Records s) (hharmless : Harmless s .prepare) : Records s.prepare := by
  unfold System.prepare
  cases htask : s.task with
  | taken a =>
    obtain ⟨hdrop, hreset⟩ := hharmless a htask
    have hahead := ahead_of_flight (congrArg Task.flight htask)
    obtain ⟨hdev, _, hlast, hsending, hstate, hinitial, htarget⟩ := h
    rw [hahead] at hlast hstate htarget
    obtain ⟨action, critical⟩ := a
    cases action with
    | setSpeed speed =>
      have hother : due VFDaction.mode s.mode (⟨.setSpeed speed, critical⟩ :: s.vfd_cmd_queue) =
          due VFDaction.mode s.mode s.vfd_cmd_queue := due_cons_other rfl
      dsimp only
      by_cases hsame : speed = s._current_dev_speed
      · obtain ⟨hacknowledged, hnone⟩ := hdrop (congrArg some hsame)
        have hkept : due VFDaction.speed s.speed (⟨.setSpeed speed, critical⟩ :: s.vfd_cmd_queue) =
            due VFDaction.speed s.speed s.vfd_cmd_queue := by
          have hvalue : VFDaction.speed ⟨.setSpeed speed, critical⟩ = some speed := rfl
          rw [due_cons_last hvalue (List.filterMap_eq_nil_iff.mpr hnone), due_of_noSpeed hnone, hacknowledged, hsame]
        rw [if_pos hsame]
        rw [hkept] at hlast
        rw [hother] at hstate htarget
        exact ⟨hdev, fun _ _ hwaiting => Task.noConfusion hwaiting, hlast, hsending, hstate, hinitial, htarget⟩
      · rw [if_neg hsame]
        exact ⟨hdev, fun _ _ hprepared => Task.noConfusion hprepared, hlast, hsending, hstate, hinitial, htarget⟩
    | setMode mode =>
      dsimp only
      by_cases hdisable : mode = .Disable
      · have hdisables := hreset (congrArg some hdisable)
        have hother : due VFDaction.speed s.speed (⟨.setMode mode, critical⟩ :: s.vfd_cmd_queue) =
            due VFDaction.speed s.speed [⟨.setMode mode, critical⟩] := by
          rw [due_cons_other rfl, due_cons_other rfl, due_of_noSpeed (noSpeed_of_disables hdisables)]
          rfl
        rw [if_pos hdisable]
        rw [hother] at hlast
        rw [due_mode_disables hdisable hdisables] at hstate htarget
        exact ⟨hdev, fun _ _ hprepared => Task.noConfusion hprepared, hlast, hsending, hstate, hinitial, htarget⟩
      · rw [if_neg hdisable]
        exact ⟨hdev, fun _ _ hprepared => Task.noConfusion hprepared, hlast, hsending, hstate, hinitial, htarget⟩
  | waiting => exact h
  | prepared a => exact h
  | exchange a left => exact h

/-- The task records what it sets about. A mode that is behind it, or that `init` has recorded and not sent yet, makes
its record an old one. -/
theorem Records.believe (h : Records s) (_retries : Nat) : Records (s.believe _retries) := by
  unfold System.believe
  cases htask : s.task with
  | prepared a =>
    have hahead := ahead_of_flight (congrArg Task.flight htask)
    obtain ⟨hdev, _, hlast, hsending, hstate, hinitial, htarget⟩ := h
    rw [hahead] at hlast hstate htarget
    obtain ⟨action, critical⟩ := a
    cases action with
    | setSpeed speed =>
      refine ⟨fun hanswered => Bool.noConfusion hanswered, fun a left hexchange v hv => ?_, hlast, hsending, hstate,
        hinitial, htarget⟩
      cases hexchange
      exact Option.some.inj hv
    | setMode mode =>
      refine ⟨hdev, fun a left hexchange v hv => ?_, hlast, hsending, fun _ _ hovertaken => ?_,
        fun mode' critical' hcaller hovertaken => ?_, htarget⟩
      · cases hexchange
        cases hv
      · have hlone : s.vfd_cmd_queue.filterMap VFDaction.mode = [] := by
          rw [Bool.or_eq_false_iff, Bool.not_eq_false', List.isEmpty_iff] at hovertaken
          exact hovertaken.1
        exact due_cons_last rfl hlone
      · have hcalling : s.caller.initializing = false := by
          rw [Bool.or_eq_false_iff] at hovertaken
          exact hovertaken.2
        dsimp only at hcaller
        rw [hcaller] at hcalling
        cases hcalling
  | waiting => exact h
  | taken a => exact h
  | exchange a left => exact h

/-- What was due is acknowledged, or has something of its kind behind it, or the failure is on record. -/
theorem due_of_not_isLast {α : Type} {value : VFDaction → Option α} {t : Track α} (hlast : s.isLast value a = false) :
    due value t (a :: s.vfd_cmd_queue) = due value t s.vfd_cmd_queue := by
  cases ha : value a with
  | none => exact due_cons_other ha
  | some v =>
    rw [System.isLast, ha, Option.isSome_some, Bool.true_and, List.isEmpty_eq_false_iff] at hlast
    exact due_cons_behind hlast

theorem Records.exchange (h : Records s) (answered : Bool) : Records (s.exchange answered) := by
  unfold System.exchange
  cases htask : s.task with
  | exchange a left =>
    have hahead := ahead_of_flight (congrArg Task.flight htask)
    obtain ⟨hdev, hexchanging, hlast, hsending, hstate, hinitial, htarget⟩ := h
    rw [hahead] at hlast hstate htarget
    have hrecorded := hexchanging a left htask
    have hwaiting {P : VFDaction → Nat → Prop} : ∀ a left, Task.waiting = .exchange a left → P a left :=
      fun _ _ hexchange => Task.noConfusion hexchange
    cases left with
    | zero =>
      have hfailed (u : System) (hu : u = s ∨ u = s.report a) :
          Records { u.fail a with unresponsive := true, task := .waiting } := by
        have hisr (hkept : (s.isr_last && !s.isLast VFDaction.speed a) = true) :
            due VFDaction.speed s.speed s.vfd_cmd_queue = some s._last_speed := by
          rw [Bool.and_eq_true, Bool.not_eq_true'] at hkept
          rw [← due_of_not_isLast hkept.2]
          exact hlast hkept.1
        have hmode (hkept : (s.mode_missed || s.isLast VFDaction.mode a) = false) : s.mode_missed = false ∧
            due VFDaction.mode s.mode (a :: s.vfd_cmd_queue) = due VFDaction.mode s.mode s.vfd_cmd_queue := by
          rw [Bool.or_eq_false_iff] at hkept
          exact ⟨hkept.1, due_of_not_isLast hkept.2⟩
        have hidle (hcaller : s.caller = .idle) (hkept : (s.mode_missed || s.isLast VFDaction.mode a) = false)
            (hovertaken : s.overtaken = false) :
            due VFDaction.mode s.mode s.vfd_cmd_queue = some s._current_state := by
          obtain ⟨hmissed, hsame⟩ := hmode hkept
          exact hsame.symm.trans (hstate hcaller hmissed hovertaken)
        have hset (state : SpindleState) (hstate : state ∈ s.caller.target)
            (hkept : (s.mode_missed || s.isLast VFDaction.mode a) = false) :
            due VFDaction.mode s.mode s.vfd_cmd_queue = some state := by
          obtain ⟨hmissed, hsame⟩ := hmode hkept
          exact hsame.symm.trans (htarget state hstate hmissed)
        obtain rfl | rfl := hu
        · exact ⟨hdev, hwaiting, hisr, hsending, hidle, hinitial, hset⟩
        · exact ⟨hdev, hwaiting, hisr, hsending, hidle, hinitial, hset⟩
      dsimp only
      split_ifs
      · exact hfailed _ (.inr rfl)
      · exact hfailed _ (.inl rfl)
    | succ left =>
      cases answered with
      | false =>
        refine ⟨hdev, fun a' left' hexchange => ?_, hlast, hsending, hstate, hinitial, htarget⟩
        cases hexchange
        exact hrecorded
      | true =>
        obtain ⟨action, critical⟩ := a
        cases action with
        | setSpeed speed =>
          have hvalue : VFDaction.speed ⟨.setSpeed speed, critical⟩ = some speed := rfl
          have hother : due VFDaction.mode s.mode (⟨.setSpeed speed, critical⟩ :: s.vfd_cmd_queue) =
              due VFDaction.mode s.mode s.vfd_cmd_queue := due_cons_other rfl
          rw [hother] at hstate htarget
          rw [← due_acknowledged hvalue] at hlast
          have hnow := congrArg some (hrecorded speed rfl).symm
          exact ⟨fun _ => hnow, hwaiting, hlast, hsending, hstate, hinitial, htarget⟩
        | setMode mode =>
          have hvalue : VFDaction.mode ⟨.setMode mode, critical⟩ = some mode := rfl
          have hother : due VFDaction.speed s.speed (⟨.setMode mode, critical⟩ :: s.vfd_cmd_queue) =
              due VFDaction.speed s.speed s.vfd_cmd_queue := due_cons_other rfl
          rw [hother] at hlast
          rw [← due_acknowledged hvalue] at hstate htarget
          exact ⟨hdev, hwaiting, hlast, hsending, hstate, hinitial, htarget⟩
  | waiting => exact h
  | taken a => exact h
  | prepared a => exact h

/-- Every process keeps the records, as long as what it leaves out is harmless. -/
theorem Records.step {action : Action} (h : Records s) (_retries : Nat) (hharmless : Harmless s action) :
    Records (step _retries s action) := by
  obtain ⟨hdev, hexchanging, hlast, hsending, hstate, hinitial, htarget⟩ := id h
  cases action with
  | init =>
    show Records (if s.caller = .idle then _ else s)
    split_ifs with hidle
    · refine ⟨hdev, hexchanging, hlast, hsending, fun hcaller => Caller.noConfusion hcaller, fun _ _ hcaller _ => ?_,
        fun _ hstate => absurd hstate (Option.not_mem_none _)⟩
      cases hcaller
      rfl
    · exact h
  | setState state dev_speed cycle abort =>
    show Records (if s.caller ≠ .idle then s else _)
    split_ifs with hbusy habort hchange
    · exact h
    · exact ⟨hdev, hexchanging, hlast, hsending, hstate, hinitial, htarget⟩
    · refine ⟨hdev, hexchanging, hlast, hsending, fun hcaller => Caller.noConfusion hcaller,
        fun _ _ hcaller => ?_, fun _ hstate => absurd hstate (Option.not_mem_none _)⟩
      cases hcaller
    · have hidle := not_not.mp hbusy
      refine ⟨hdev, hexchanging, hlast, hsending, fun hcaller => Caller.noConfusion hcaller,
        fun _ _ hcaller => Caller.noConfusion hcaller, fun state' hstate' _ => ?_⟩
      cases hstate'
      exact (hharmless hidle).2 (not_not.mp hchange)
  | call => exact h.call
  | setSpeedfromISR dev_speed =>
    show Records (if s.interrupt ≠ .idle then s else _)
    split_ifs
    · exact h
    · exact ⟨hdev, hexchanging, hlast, hsending, hstate, hinitial, htarget⟩
    · refine ⟨hdev, hexchanging, fun hisr => absurd hisr Bool.false_ne_true, fun _ hsend => ?_, hstate, hinitial,
        htarget⟩
      cases hsend
      rfl
  | send => exact h.send
  | poll satisfying =>
    show Records (if s.task = .waiting then _ else s)
    split_ifs
    · exact ⟨hdev, hexchanging, hlast, hsending, hstate, hinitial, htarget⟩
    · exact h
  | take =>
    unfold VfdQueue.step
    cases htask : s.task with
    | waiting =>
      cases hqueue : s.vfd_cmd_queue with
      | nil => exact h
      | cons a rest =>
        have hahead : s.ahead = a :: rest := by
          rw [System.ahead, htask, hqueue]
          rfl
        rw [hahead] at hlast hstate htarget
        exact ⟨hdev, fun _ _ htaken => Task.noConfusion htaken, hlast, hsending, hstate, hinitial, htarget⟩
    | taken a => exact h
    | prepared a => exact h
    | exchange a left => exact h
  | prepare => exact h.prepare hharmless
  | believe => exact h.believe _retries
  | exchange answered => exact h.exchange answered

end Records

end DuneWeaver.Spindles.VfdQueue
