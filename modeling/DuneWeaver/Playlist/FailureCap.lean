import DuneWeaver.Playlist.SkipItem
import DuneWeaver.Transition.Run

namespace DuneWeaver

/-- What a poll of a run means for the item it is at: the job of its pattern or
of its clear is seen to have started, its slot cannot be read or its job has not started
in time, a skip gives it up, or something else. -/
inductive Fate where
  | patternSeen
  | clearSeen
  | failed
  | givenUp
  | other
  deriving DecidableEq

/-- What decides on an item. -/
structure Item where
  phase : Phase
  consec_fail : Nat
  job_seen : Bool
  clear_done : Bool
  deriving DecidableEq

namespace Tick

def item (t : Tick) : Item := ⟨t.phase, t.consec_fail, t.job_seen, t.clear_done⟩

/-- The fate at a slot that is up next. -/
def slotFate (env : Env) (t : Tick) : Fate :=
  if inAlarmState env.state then .other
  else if ¬ (t.quietGate env).2 then .other
  else
    let u := (t.quietGate env).1
    if u.req_skip then if u.clear_done then .givenUp else .other
    else if ¬ env.line ∨ env.state ≠ .Idle ∨ env.job_active then .other
    else if ¬ u.single ∧ env.settings.auto_home > 0 ∧ u.since_home ≥ env.settings.auto_home then .other
    else if u.resolved_index ≠ some u.index ∧ u.resolveCurrent env 0 = none then .failed
    else .other

/-- The fate of a clear or of a pattern whose line has been handed over. -/
def jobFate (env : Env) (t : Tick) : Fate :=
  if inAlarmState env.state ∨ t.req_skip then .other
  else if ¬ t.job_seen then
    if env.job_active then if t.phase = .RunPattern then .patternSeen else .clearSeen
    else if env.now - t.inject_ms > INJECT_TIMEOUT_MS then .failed
    else .other
  else if t.phase = .RunClear ∧ ¬ env.job_active ∧ env.state = .Idle ∧ t.skip_active then .givenUp
  else .other

def fate (env : Env) (t : Tick) : Fate :=
  match t.phase with
  | .NextItem => t.slotFate env
  | .RunClear => t.jobFate env
  | .RunPattern => t.jobFate env
  | _ => .other

end Tick

/-- The item has been begun with a clear that was seen to start. -/
def Item.Cleared (i : Item) : Prop :=
  i.phase = .RunClear ∧ i.job_seen = true ∨ i.phase = .NextItem ∧ i.clear_done = true

/-- What a poll can make of an item, and whether it hands a line over. -/
inductive Item.Moves (i : Item) : Fate → Bool → Item → Prop
  | ended {fate : Fate} (hcleared : fate = .givenUp → i.Cleared) {j : Item} (hoff : j.phase = .Off) :
      Moves i fate false j
  | patternSeen (hphase : i.phase = .RunPattern) :
      Moves i .patternSeen false { i with job_seen := true, consec_fail := 0 }
  | clearSeen (hphase : i.phase = .RunClear) : Moves i .clearSeen false { i with job_seen := true }
  | failed (hfew : i.consec_fail + 1 < MAX_CONSEC_FAIL)
      (hphase : i.phase = .NextItem ∨ i.phase = .RunClear ∨ i.phase = .RunPattern) :
      Moves i .failed false
        { i with phase := .NextItem, consec_fail := i.consec_fail + 1, clear_done := false }
  | givenUp (hcleared : i.Cleared) :
      Moves i .givenUp false { i with phase := .NextItem, clear_done := false }
  | handed (hphase : i.phase = .NextItem) {phase : Phase} (hruns : phase = .RunClear ∨ phase = .RunPattern) :
      Moves i .other true { i with phase := phase, job_seen := false, clear_done := true }
  | passed (hfree : i.phase = .NextItem ∧ i.clear_done = false ∨ i.phase = .RunPattern ∧ i.job_seen = true)
      {phase : Phase} (hnext : phase = .NextItem ∨ phase = .Pausing) :
      Moves i .other false { i with phase := phase, clear_done := false }
  | cleared (hphase : i.phase = .RunClear) (hseen : i.job_seen = true) :
      Moves i .other false { i with phase := .NextItem }
  | waits : Moves i .other false i
  | home (hphase : i.phase = .NextItem) : Moves i .other false { i with phase := .Homing, job_seen := false }
  | homeSeen (hphase : i.phase = .Homing) : Moves i .other false { i with job_seen := true }
  | resumed (hphase : i.phase = .Homing ∨ i.phase = .Pausing) :
      Moves i .other false { i with phase := .NextItem }

theorem Item.Moves.cleared_of_givenUp {i j : Item} {injected : Bool} (h : i.Moves .givenUp injected j) :
    i.Cleared := by
  cases h with
  | ended hcleared => exact hcleared rfl
  | givenUp hcleared => exact hcleared

namespace Tick

variable {env : Env} {t : Tick}

theorem finish_moves (env : Env) {u : Tick} {fate : Fate} (hfate : fate ≠ .givenUp) (hnone : u.injected = none)
    (i : Item) : i.Moves fate (u.finish env).injected.isSome (u.finish env).item := by
  rw [finish_injected, hnone]
  exact .ended (fun h => absurd h hfate) (finish_phase env u)

/-- The slot that comes next is not decided yet. -/
theorem advanceIndex_moves (env : Env) {u : Tick} (hnone : u.injected = none) {i : Item} {fate : Fate}
    (hmoves : i.Moves fate false { u.item with clear_done := false }) :
    i.Moves fate (u.advanceIndex env).1.injected.isSome (u.advanceIndex env).1.item := by
  rw [advanceIndex_injected, hnone]
  obtain ⟨v, hslot, hadvance⟩ | ⟨v, -, hadvance⟩ := u.advanceIndex_cases env
  · rw [hadvance]
    cases hslot <;> exact hmoves
  · rw [hadvance]
    exact .ended (fun h => (h ▸ hmoves).cleared_of_givenUp) (finish_phase env v)

theorem nextSlot_moves (env : Env) {u : Tick} (hnone : u.injected = none) {i : Item} {fate : Fate}
    (hmoves : i.Moves fate false { u.item with phase := .NextItem, clear_done := false }) :
    i.Moves fate (u.nextSlot env).injected.isSome (u.nextSlot env).item := by
  rw [nextSlot_injected, hnone]
  obtain ⟨v, hslot, hnext⟩ | ⟨v, -, hnext⟩ := u.nextSlot_cases env
  · rw [hnext]
    cases hslot <;> exact hmoves
  · rw [hnext]
    exact .ended (fun h => (h ▸ hmoves).cleared_of_givenUp) (finish_phase env v)

/-- Handing over the clear or the pattern of a slot decides on it. -/
theorem injectItem_handed (env : Env) (t : Tick) : (t.injectItem env).injected.isSome = true ∧
    ∃ phase, (phase = .RunClear ∨ phase = .RunPattern) ∧
      (t.injectItem env).item = ⟨phase, t.consec_fail, false, true⟩ := by
  obtain ⟨_, hclear⟩ | ⟨pending_clear, hpattern⟩ := injectItem_cases env t
  · rw [hclear]
    exact ⟨rfl, .RunClear, .inl rfl, rfl⟩
  · rw [hpattern]
    exact ⟨rfl, .RunPattern, .inr rfl, rfl⟩

/-- A slot that cannot be read counts as a failure; any other is decided on. -/
theorem playItem_moves (hphase : t.phase = .NextItem) (hnone : t.injected = none) :
    t.item.Moves (if t.resolved_index ≠ some t.index ∧ t.resolveCurrent env 0 = none then .failed else .other)
      (t.playItem env).injected.isSome (t.playItem env).item := by
  have hhanded (u : Tick) (hsame : u.consec_fail = t.consec_fail) :
      t.item.Moves .other (u.injectItem env).injected.isSome (u.injectItem env).item := by
    obtain ⟨hline, phase, hruns, hitem⟩ := injectItem_handed env u
    rw [hline, hitem, hsame]
    exact .handed hphase hruns
  unfold playItem
  by_cases hstale : t.resolved_index ≠ some t.index
  · rw [if_pos hstale]
    cases hread : t.resolveCurrent env 0 with
    | none =>
      rw [if_pos ⟨hstale, rfl⟩]
      dsimp only
      split_ifs with hcap
      · apply finish_moves
        · decide
        · exact hnone
      · have hfew : t.consec_fail + 1 < MAX_CONSEC_FAIL := Nat.lt_of_not_le hcap
        have hfailed := @Item.Moves.failed t.item hfew (.inl hphase)
        rw [← hphase] at hfailed
        apply advanceIndex_moves
        · exact hnone
        · exact hfailed
    | some u =>
      rw [if_neg (by simp)]
      refine hhanded _ ?_
      rw [resolveCurrent_eq hread]
  · rw [if_neg hstale, if_neg (fun hboth => hstale hboth.1)]
    exact hhanded t rfl

theorem nextItem_moves (hphase : t.phase = .NextItem) (hnone : t.injected = none) :
    t.item.Moves (t.slotFate env) (t.nextItem env).injected.isSome (t.nextItem env).item := by
  generalize hafter : t.nextItem env = v
  unfold nextItem at hafter
  unfold slotFate
  by_cases halarm : inAlarmState env.state
  · rw [if_pos halarm] at hafter ⊢
    subst hafter
    exact finish_moves env (by decide) hnone _
  rw [if_neg halarm] at hafter ⊢
  cases hgate : t.quietGate env with
  | mk u ok =>
    rw [hgate] at hafter
    obtain ⟨_, _, _, hframe⟩ := quietGate_frame hgate
    have hitem : u.item = t.item := by rw [hframe]; rfl
    have hsilent : u.injected = none := by rw [hframe]; exact hnone
    have hnext : u.phase = .NextItem := by rw [hframe]; exact hphase
    rw [← hitem]
    cases ok with
    | false =>
      subst hafter
      rw [if_pos (by simp), hsilent]
      exact .waits
    | true =>
      dsimp only at hafter ⊢
      rw [if_neg (by simp)]
      by_cases hskip : u.req_skip
      · rw [if_pos hskip] at hafter ⊢
        subst hafter
        apply advanceIndex_moves
        · exact hsilent
        · split_ifs with hdone
          · have hgiven := @Item.Moves.givenUp u.item (.inr ⟨hnext, hdone⟩)
            rw [← hnext] at hgiven
            exact hgiven
          · exact .passed (.inl ⟨hnext, eq_false_of_ne_true hdone⟩) (.inl hnext)
      · rw [if_neg hskip] at hafter ⊢
        by_cases hbusy : ¬ env.line ∨ env.state ≠ .Idle ∨ env.job_active
        · rw [if_pos hbusy] at hafter ⊢
          subst hafter
          rw [hsilent]
          exact .waits
        · rw [if_neg hbusy] at hafter ⊢
          by_cases hhome : ¬ u.single ∧ env.settings.auto_home > 0 ∧ u.since_home ≥ env.settings.auto_home
          · rw [if_pos hhome] at hafter ⊢
            subst hafter
            change u.item.Moves .other u.injected.isSome _
            rw [hsilent]
            exact .home hnext
          · rw [if_neg hhome] at hafter ⊢
            subst hafter
            exact playItem_moves hnext hsilent

theorem homing_moves (hphase : t.phase = .Homing) (hnone : t.injected = none) :
    t.item.Moves .other (t.homing env).injected.isSome (t.homing env).item := by
  unfold homing
  split_ifs
  · exact finish_moves env (by decide) hnone _
  · change t.item.Moves .other t.injected.isSome _
    rw [hnone]
    exact @Item.Moves.resumed t.item (.inl hphase)
  · exact finish_moves env (by decide) hnone _
  · rw [hnone]
    exact .waits
  · change t.item.Moves .other t.injected.isSome _
    rw [hnone]
    exact @Item.Moves.homeSeen t.item hphase
  · exact finish_moves env (by decide) hnone _
  · rw [hnone]
    exact .waits

theorem pausing_moves (hphase : t.phase = .Pausing) (hnone : t.injected = none) :
    t.item.Moves .other (t.pausing env).injected.isSome (t.pausing env).item := by
  unfold pausing
  split_ifs
  · change t.item.Moves .other t.injected.isSome _
    rw [hnone]
    exact @Item.Moves.resumed t.item (.inr hphase)
  · change t.item.Moves .other t.injected.isSome _
    rw [hnone]
    exact @Item.Moves.resumed t.item (.inr hphase)
  · rw [hnone]
    exact .waits

/-- A job that did not start counts as a failure, and ends a single run. -/
theorem startFailed_moves (hphase : t.phase = .RunClear ∨ t.phase = .RunPattern) (hnone : t.injected = none) :
    t.item.Moves .failed (t.startFailed env).injected.isSome (t.startFailed env).item := by
  unfold startFailed
  dsimp only
  split_ifs with _ hclear hcap hcap
  · apply finish_moves
    · decide
    · exact hnone
  · apply finish_moves
    · decide
    · exact hnone
  · have hfew : t.consec_fail + 1 < MAX_CONSEC_FAIL := Nat.lt_of_not_le hcap
    apply nextSlot_moves
    · exact hnone
    · exact @Item.Moves.failed t.item hfew (.inr hphase)
  · apply finish_moves
    · decide
    · exact hnone
  · have hfew : t.consec_fail + 1 < MAX_CONSEC_FAIL := Nat.lt_of_not_le hcap
    apply nextSlot_moves
    · exact hnone
    · exact @Item.Moves.failed t.item hfew (.inr hphase)

theorem clearDone_moves (hphase : t.phase = .RunClear) (hseen : t.job_seen = true) (hnone : t.injected = none) :
    t.item.Moves (if t.skip_active then .givenUp else .other) (t.clearDone env).injected.isSome
      (t.clearDone env).item := by
  unfold clearDone
  dsimp only
  split_ifs with hskip
  · apply nextSlot_moves
    · exact hnone
    · exact @Item.Moves.givenUp t.item (.inl ⟨hphase, hseen⟩)
  · change t.item.Moves .other t.injected.isSome _
    rw [hnone]
    exact @Item.Moves.cleared t.item hphase hseen

theorem patternDone_moves (hphase : t.phase = .RunPattern) (hseen : t.job_seen = true) (hnone : t.injected = none) :
    t.item.Moves .other (t.patternDone env).injected.isSome (t.patternDone env).item := by
  have hpassed {phase : Phase} (hnext : phase = .NextItem ∨ phase = .Pausing) :
      t.item.Moves .other false { t.item with phase := phase, clear_done := false } :=
        .passed (.inr ⟨hphase, hseen⟩) hnext
  obtain ⟨u, hslot, _, hdone⟩ | ⟨u, hkin, _, hdone⟩ := t.patternDone_forms env
  · have hsilent : u.injected = none := hslot.kin.injected.trans hnone
    obtain ⟨_, hdone⟩ | hdone := hdone
    · rw [hdone]
      change t.item.Moves .other u.injected.isSome _
      rw [hsilent]
      cases hslot <;> exact hpassed (.inr rfl)
    · rw [hdone]
      change t.item.Moves .other u.injected.isSome _
      rw [hsilent]
      cases hslot <;> exact hpassed (.inl rfl)
  · rw [hdone]
    exact finish_moves env (by decide) (hkin.injected.trans hnone) _

theorem running_moves (hphase : t.phase = .RunClear ∨ t.phase = .RunPattern) (hnone : t.injected = none) :
    t.item.Moves (t.jobFate env) (t.running env).injected.isSome (t.running env).item := by
  generalize hafter : t.running env = v
  unfold running at hafter
  unfold jobFate
  by_cases halarm : inAlarmState env.state
  · rw [if_pos halarm] at hafter
    subst hafter
    rw [if_pos (.inl halarm)]
    exact finish_moves env (by decide) hnone _
  rw [if_neg halarm] at hafter
  by_cases hskip : t.req_skip
  · rw [if_pos hskip] at hafter
    subst hafter
    rw [if_pos (.inr hskip), stopJob_injected]
    change t.item.Moves .other t.injected.isSome _
    rw [hnone, stopJob_eq]
    exact @Item.Moves.waits t.item
  rw [if_neg hskip] at hafter
  rw [if_neg (not_or.mpr ⟨halarm, hskip⟩)]
  by_cases hseen : t.job_seen
  · rw [if_neg (not_not.mpr hseen)] at hafter ⊢
    by_cases hended : ¬ env.job_active ∧ env.state = .Idle
    · rw [if_pos hended] at hafter
      by_cases hclear : t.phase = .RunClear
      · rw [if_pos hclear] at hafter
        subst hafter
        have hmoves := @clearDone_moves env t hclear hseen hnone
        by_cases hactive : t.skip_active
        · rw [if_pos hactive] at hmoves
          rw [if_pos ⟨hclear, hended.1, hended.2, hactive⟩]
          exact hmoves
        · rw [if_neg hactive] at hmoves
          rw [if_neg (fun hall => hactive hall.2.2.2)]
          exact hmoves
      · rw [if_neg hclear] at hafter
        subst hafter
        rw [if_neg (fun hall => hclear hall.1)]
        exact patternDone_moves (hphase.resolve_left hclear) hseen hnone
    · rw [if_neg hended] at hafter
      subst hafter
      rw [if_neg (fun hall => hended ⟨hall.2.1, hall.2.2.1⟩), hnone]
      exact .waits
  · rw [if_pos hseen] at hafter ⊢
    by_cases hjob : env.job_active
    · rw [if_pos hjob] at hafter ⊢
      subst hafter
      change t.item.Moves _ t.injected.isSome _
      rw [hnone]
      by_cases hpattern : t.phase = .RunPattern
      · rw [if_pos hpattern]
        have hmoves := @Item.Moves.patternSeen t.item hpattern
        unfold item
        dsimp only
        rw [if_pos hpattern]
        exact hmoves
      · rw [if_neg hpattern]
        have hmoves := @Item.Moves.clearSeen t.item (hphase.resolve_right hpattern)
        unfold item
        dsimp only
        rw [if_neg hpattern]
        exact hmoves
    · rw [if_neg hjob] at hafter ⊢
      by_cases hlate : env.now - t.inject_ms > INJECT_TIMEOUT_MS
      · rw [if_pos hlate] at hafter ⊢
        subst hafter
        exact startFailed_moves hphase hnone
      · rw [if_neg hlate] at hafter ⊢
        subst hafter
        rw [hnone]
        exact .waits

/-- What the switch makes of an item goes with its fate. -/
theorem phaseStep_moves (hon : t.phase ≠ .Off) (hnone : t.injected = none) :
    t.item.Moves (t.fate env) (t.phaseStep env).injected.isSome (t.phaseStep env).item := by
  unfold phaseStep fate
  cases hphase : t.phase with
  | Off => exact absurd hphase hon
  | NextItem => exact nextItem_moves hphase hnone
  | Homing => exact homing_moves hphase hnone
  | RunClear => exact running_moves (.inl hphase) hnone
  | RunPattern => exact running_moves (.inr hphase) hnone
  | Pausing => exact pausing_moves hphase hnone

end Tick

/-- What is counted from the start of a run, and from each pattern of it that is
seen to start: failures, items begun, items given up to a skip without a failure, and whether a
clear was seen to start. -/
structure Tally where
  fails : Nat := 0
  tries : Nat := 0
  given_up : Nat := 0
  cleared : Bool := false
  deriving DecidableEq

/-- The count after a poll; `began` tells whether the poll began an item. -/
def Tally.next (c : Tally) (began : Bool) : Fate → Tally
  | .patternSeen => {}
  | .clearSeen => { c with cleared := true }
  | .failed => { c with fails := c.fails + 1, tries := c.tries + began.toNat }
  | .givenUp => { c with given_up := c.given_up + 1 }
  | .other => { c with tries := c.tries + began.toNat }

/-- The cap on what is counted. -/
structure Tally.Capped (c : Tally) : Prop where
  fails : c.fails ≤ MAX_CONSEC_FAIL
  tries : c.tries ≤ MAX_CONSEC_FAIL + c.given_up
  given_up : c.cleared = false → c.given_up = 0

namespace Item

/-- The item has been begun, and its pattern has not been seen to start. -/
def Underway (i : Item) : Prop :=
  i.phase = .RunClear ∨ i.phase = .RunPattern ∧ i.job_seen = false ∨
    (i.phase = .NextItem ∨ i.phase = .Homing) ∧ i.clear_done = true

instance (i : Item) : Decidable i.Underway := inferInstanceAs (Decidable (_ ∨ _))

/-- A run goes on at an item: the counter of the machine counts the failures, and
every item begun has failed, was given up or is the one at hand. -/
structure Going (i : Item) (c : Tally) : Prop where
  consec_fail : i.consec_fail = c.fails
  few : c.fails < MAX_CONSEC_FAIL
  tries : c.tries ≤ c.fails + c.given_up + if i.Underway then 1 else 0
  decided : i.phase = .RunClear ∨ i.phase = .RunPattern → i.clear_done = true
  undecided : i.phase = .Pausing → i.clear_done = false
  uncleared : c.cleared = false → c.given_up = 0 ∧
    (i.phase = .NextItem ∨ i.phase = .Homing → i.clear_done = false) ∧ (i.phase = .RunClear → i.job_seen = false)

variable {i j : Item} {c : Tally} {fate : Fate} {injected began : Bool}

theorem Going.capped (h : i.Going c) : c.Capped := by
  refine ⟨h.few.le, ?_, fun hnone => (h.uncleared hnone).1⟩
  have htries := h.tries
  have hfew := h.few
  split_ifs at htries <;> omega

/-- An item is begun only where none is at hand. -/
theorem Going.room (h : i.Going c) (hbegan : began = true → i.phase = .NextItem ∧ i.clear_done = false) :
    c.tries + began.toNat ≤ c.fails + c.given_up + 1 := by
  have htries := h.tries
  cases began with
  | false =>
    rw [Bool.toNat_false]
    split_ifs at htries <;> omega
  | true =>
    obtain ⟨hphase, hfree⟩ := hbegan rfl
    have hnot : ¬ i.Underway := by simp [Underway, hphase, hfree]
    rw [if_neg hnot] at htries
    rw [Bool.toNat_true]
    omega

theorem Going.counted (h : i.Going c) (hcleared : i.Cleared) : c.cleared ≠ false := by
  intro hnone
  obtain ⟨-, hfree, hseen⟩ := h.uncleared hnone
  rcases hcleared with ⟨hphase, hjob⟩ | ⟨hphase, hdone⟩
  · simp [hseen hphase] at hjob
  · simp [hfree (.inl hphase)] at hdone

theorem Going.ended (h : i.Going c) (hroom : c.tries + began.toNat ≤ c.fails + c.given_up + 1)
    (hcleared : fate = .givenUp → i.Cleared) : (c.next began fate).Capped := by
  have hfew := h.few
  have htries := h.tries
  have hcap : MAX_CONSEC_FAIL = 5 := rfl
  have hlast : c.tries ≤ c.fails + c.given_up + 1 := by omega
  cases fate with
  | patternSeen => exact ⟨Nat.zero_le _, Nat.zero_le _, fun _ => rfl⟩
  | clearSeen => exact ⟨hfew.le, by simp only [Tally.next]; omega, fun hnone => by simp [Tally.next] at hnone⟩
  | failed => exact ⟨hfew, by simp only [Tally.next]; omega, fun hnone => (h.uncleared hnone).1⟩
  | givenUp =>
    exact ⟨hfew.le, by simp only [Tally.next]; omega, fun hnone => absurd hnone (h.counted (hcleared rfl))⟩
  | other => exact ⟨hfew.le, by simp only [Tally.next]; omega, fun hnone => (h.uncleared hnone).1⟩

/-- The count stays right where no item is begun and none is done with. -/
theorem Going.stays (h : i.Going c) (hfail : j.consec_fail = i.consec_fail) (hunder : i.Underway → j.Underway)
    (hdecided : j.phase = .RunClear ∨ j.phase = .RunPattern → j.clear_done = true)
    (hundecided : j.phase = .Pausing → j.clear_done = false)
    (huncleared : c.cleared = false →
      (j.phase = .NextItem ∨ j.phase = .Homing → j.clear_done = false) ∧ (j.phase = .RunClear → j.job_seen = false)) :
    j.Going c := by
  refine ⟨hfail.trans h.consec_fail, h.few, ?_, hdecided, hundecided,
    fun hnone => ⟨(h.uncleared hnone).1, huncleared hnone⟩⟩
  have htries := h.tries
  by_cases hitem : i.Underway
  · rw [if_pos hitem] at htries
    rw [if_pos (hunder hitem)]
    exact htries
  · rw [if_neg hitem] at htries
    omega

theorem Going.pattern_seen (h : i.Going c) (hphase : i.phase = .RunPattern) :
    ({ i with job_seen := true, consec_fail := 0 } : Item).Going {} := by
  refine ⟨rfl, Nat.zero_lt_succ 4, Nat.zero_le _, h.decided, h.undecided, fun _ => ⟨rfl, ?_, ?_⟩⟩
  · simp [hphase]
  · simp [hphase]

theorem Going.clear_seen (h : i.Going c) (hphase : i.phase = .RunClear) :
    ({ i with job_seen := true } : Item).Going { c with cleared := true } := by
  refine ⟨h.consec_fail, h.few, ?_, h.decided, h.undecided, nofun⟩
  have hunder : ({ i with job_seen := true } : Item).Underway := .inl hphase
  have hbefore : i.Underway := .inl hphase
  have htries := h.tries
  rw [if_pos hbefore] at htries
  rw [if_pos hunder]
  exact htries

theorem Going.failed (h : i.Going c) (hroom : c.tries + began.toNat ≤ c.fails + c.given_up + 1)
    (hfew : i.consec_fail + 1 < MAX_CONSEC_FAIL) :
    ({ i with phase := .NextItem, consec_fail := i.consec_fail + 1, clear_done := false } : Item).Going
      { c with fails := c.fails + 1, tries := c.tries + began.toNat } := by
  have hfails := h.consec_fail
  refine ⟨congrArg (· + 1) hfails, by dsimp only; omega, ?_, by simp, by simp, fun hnone => ?_⟩
  · dsimp only
    omega
  · exact ⟨(h.uncleared hnone).1, by simp, by simp⟩

theorem Going.given_up (h : i.Going c) (hcleared : i.Cleared) :
    ({ i with phase := .NextItem, clear_done := false } : Item).Going { c with given_up := c.given_up + 1 } := by
  have hroom : c.tries + false.toNat ≤ c.fails + c.given_up + 1 := h.room nofun
  rw [Bool.toNat_false] at hroom
  refine ⟨h.consec_fail, h.few, ?_, by simp, by simp, fun hnone => absurd hnone (h.counted hcleared)⟩
  dsimp only
  omega

/-- The item that is begun is the one at hand from there on. -/
theorem Going.handed (h : i.Going c) (hroom : c.tries + began.toNat ≤ c.fails + c.given_up + 1) {phase : Phase}
    (hruns : phase = .RunClear ∨ phase = .RunPattern) :
    ({ i with phase := phase, job_seen := false, clear_done := true } : Item).Going
      { c with tries := c.tries + began.toNat } := by
  refine ⟨h.consec_fail, h.few, ?_, fun _ => rfl, ?_, fun hnone => ⟨(h.uncleared hnone).1, ?_, fun _ => rfl⟩⟩
  · have hunder : ({ i with phase := phase, job_seen := false, clear_done := true } : Item).Underway :=
      hruns.imp id fun h => .inl ⟨h, rfl⟩
    rw [if_pos hunder]
    exact hroom
  · rcases hruns with rfl | rfl <;> simp
  · rcases hruns with rfl | rfl <;> simp

theorem Going.passed (h : i.Going c)
    (hfree : i.phase = .NextItem ∧ i.clear_done = false ∨ i.phase = .RunPattern ∧ i.job_seen = true) {phase : Phase}
    (hnext : phase = .NextItem ∨ phase = .Pausing) :
    ({ i with phase := phase, clear_done := false } : Item).Going c := by
  have hnot : ¬ i.Underway := by
    rcases hfree with ⟨hphase, hdone⟩ | ⟨hphase, hseen⟩
    · simp [Underway, hphase, hdone]
    · simp [Underway, hphase, hseen]
  refine h.stays rfl (fun hunder => absurd hunder hnot) ?_ (fun _ => rfl) fun _ => ⟨fun _ => rfl, ?_⟩
  · rcases hnext with rfl | rfl <;> simp
  · rcases hnext with rfl | rfl <;> simp

theorem Going.cleared (h : i.Going c) (hphase : i.phase = .RunClear) (hseen : i.job_seen = true) :
    ({ i with phase := .NextItem } : Item).Going c := by
  have hdone := h.decided (.inl hphase)
  refine h.stays rfl (fun _ => .inr (.inr ⟨.inl rfl, hdone⟩)) (by simp) (by simp) fun hnone => ?_
  have hunseen := (h.uncleared hnone).2.2 hphase
  simp [hseen] at hunseen

theorem Going.home (h : i.Going c) (hphase : i.phase = .NextItem) :
    ({ i with phase := .Homing, job_seen := false } : Item).Going c := by
  refine h.stays rfl ?_ (by simp) (by simp) fun hnone => ⟨fun _ => (h.uncleared hnone).2.1 (.inl hphase), by simp⟩
  simp [Underway, hphase]

theorem Going.home_seen (h : i.Going c) (hphase : i.phase = .Homing) :
    ({ i with job_seen := true } : Item).Going c := by
  refine h.stays rfl ?_ h.decided h.undecided fun hnone => ⟨(h.uncleared hnone).2.1, by simp [hphase]⟩
  simp [Underway, hphase]

theorem Going.resumed (h : i.Going c) (hphase : i.phase = .Homing ∨ i.phase = .Pausing) :
    ({ i with phase := .NextItem } : Item).Going c := by
  refine h.stays rfl ?_ (by simp) (by simp) fun hnone => ⟨fun _ => ?_, by simp⟩
  · rcases hphase with hphase | hphase <;> simp [Underway, hphase]
  · rcases hphase with hphase | hphase
    · exact (h.uncleared hnone).2.1 (.inr hphase)
    · exact h.undecided hphase

/-- One poll of a run keeps the count right, or ends the run within the cap. -/
theorem Moves.going (hmoves : i.Moves fate injected j) (h : i.Going c)
    (hbegan : began = true → i.phase = .NextItem ∧ i.clear_done = false ∧ (injected = true ∨ fate = .failed)) :
    j.phase = .Off ∧ (c.next began fate).Capped ∨ j.Going (c.next began fate) := by
  have hroom := h.room fun hbegins => ⟨(hbegan hbegins).1, (hbegan hbegins).2.1⟩
  -- where no line is handed over and nothing fails, no item is begun
  have hsilent {j : Item} (hnone : injected = false) (hother : fate = .other) (hgoing : j.Going c) :
      j.Going (c.next began fate) := by
    obtain rfl : began = false := by
      by_contra hbegins
      obtain ⟨-, -, hline | hfailed⟩ := hbegan (eq_true_of_ne_false hbegins)
      · exact Bool.noConfusion (hnone.symm.trans hline)
      · exact Fate.noConfusion (hother.symm.trans hfailed)
    rw [hother]
    exact hgoing
  cases hmoves with
  | ended hcleared hoff => exact .inl ⟨hoff, h.ended hroom hcleared⟩
  | patternSeen hphase => exact .inr (h.pattern_seen hphase)
  | clearSeen hphase => exact .inr (h.clear_seen hphase)
  | failed hfew => exact .inr (h.failed hroom hfew)
  | givenUp hcleared => exact .inr (h.given_up hcleared)
  | handed _ hruns => exact .inr (h.handed hroom hruns)
  | passed hfree hnext => exact .inr (hsilent rfl rfl (h.passed hfree hnext))
  | cleared hphase hseen => exact .inr (hsilent rfl rfl (h.cleared hphase hseen))
  | waits => exact .inr (hsilent rfl rfl h)
  | home hphase => exact .inr (hsilent rfl rfl (h.home hphase))
  | homeSeen hphase => exact .inr (hsilent rfl rfl (h.home_seen hphase))
  | resumed hphase => exact .inr (hsilent rfl rfl (h.resumed hphase))

end Item

/-- The playlist machine with the count. -/
structure Tallied extends Playlist, Tally

namespace Tallied

/-- The poll begins an item: at an undecided slot it hands a line over, or fails
to read the slot. -/
def begins (env : Env) (t : Tick) (injected : Bool) : Bool :=
  t.phase = .NextItem ∧ t.clear_done = false ∧ (injected = true ∨ t.fate env = .failed)

def step (s : Tallied) : Action → Tallied
  | .request r => { s with toPlaylist := s.toPlaylist.request r }
  | .poll env =>
    let t := s.begun env
    let after := pollLine env s.toPlaylist
    { toPlaylist := after.toPlaylist
      toTally :=
        if s.TakesRun env then {}
        else if t.req_stop ∨ s.phase = .Off then s.toTally
        else s.toTally.next (begins env t after.injected.isSome) (t.fate env) }

/-- The fifth failure ends the run, and what is counted keeps to the cap. -/
structure Ends (s : Tallied) : Prop where
  capped : s.toTally.Capped
  ended : s.fails = MAX_CONSEC_FAIL → s.phase = .Off

/-- The count of a run agrees with the machine. -/
def Inv (s : Tallied) : Prop :=
  if s.phase = .Off then s.toTally.Capped
  else Item.Going ⟨s.phase, s.consec_fail, s.job_seen, s.clear_done⟩ s.toTally

theorem Inv.ends {s : Tallied} (h : s.Inv) : s.Ends := by
  unfold Inv at h
  split_ifs at h with hoff
  · exact ⟨h, fun _ => hoff⟩
  · refine ⟨h.capped, fun hfull => ?_⟩
    have hfew := h.few
    omega

/-- A run begins undecided, with nothing counted. -/
theorem consumeRun_item (env : Env) (t : Tick) : (t.consumeRun env).phase = .Off ∨
    ∃ seen, (t.consumeRun env).item = ⟨.NextItem, 0, seen, false⟩ := by
  obtain ⟨cursor, since_home, hload, -⟩ := Tick.loadPlaylist_frame env t.req_name (t.takeRequest env)
  obtain ⟨-, hconsumed⟩ | ⟨-, hok, hconsumed⟩ | ⟨-, -, hconsumed⟩ := Tick.consumeRun_cases env t
  · right
    rw [hconsumed, Tick.takeRequest_eq]
    exact ⟨_, rfl⟩
  · right
    have hundecided := Tick.loadPlaylist_clear_done hok
    rw [hload] at hundecided
    rw [hconsumed, hload, Tick.takeRequest_eq]
    refine ⟨t.job_seen, ?_⟩
    unfold Tick.item
    dsimp only at hundecided ⊢
    rw [hundecided]
  · rw [hconsumed]
    exact .inl (Tick.finish_phase env _)

theorem going_of_start (seen : Bool) : Item.Going ⟨.NextItem, 0, seen, false⟩ {} :=
  ⟨rfl, Nat.zero_lt_succ 4, Nat.zero_le _, by simp, by simp, fun _ => ⟨rfl, fun _ => rfl, by simp⟩⟩

theorem Inv.step {s : Tallied} (h : s.Inv) (a : Action) : (s.step a).Inv := by
  cases a with
  | request r =>
    have hsame := Playlist.request_eq s.toPlaylist r
    generalize hafter : s.toPlaylist.request r = p at hsame
    have hstep : s.step (.request r) = { s with toPlaylist := p } := by rw [← hafter]; rfl
    rw [hstep, hsame]
    exact h
  | poll env =>
    have hphase : (s.begun env).phase = s.phase := Tick.prelude_phase _ _
    have hnone : (s.begun env).injected = none := Tick.prelude_injected _ _
    have hcursor : (s.begun env).toCursor = s.toCursor := Tick.prelude_toCursor _ _
    have hprogress : (s.begun env).toProgress = s.toProgress := Tick.prelude_toProgress _ _
    by_cases hruns : s.TakesRun env
    · have htally : (s.step (.poll env)).toTally = {} := if_pos hruns
      have hlist : (s.step (.poll env)).toPlaylist = ((s.begun env).consumeRun env).toPlaylist :=
        congrArg Tick.toPlaylist hruns.done
      unfold Inv
      rw [htally, hlist]
      obtain hoff | ⟨seen, hitem⟩ := consumeRun_item env (s.begun env)
      · rw [if_pos hoff]
        exact ⟨Nat.zero_le _, Nat.zero_le _, fun _ => rfl⟩
      · have hnext : ((s.begun env).consumeRun env).phase = .NextItem := congrArg Item.phase hitem
        rw [if_neg (by simp [hnext])]
        change Item.Going ((s.begun env).consumeRun env).item _
        rw [hitem]
        exact going_of_start seen
    · have htally : (s.step (.poll env)).toTally =
          if (s.begun env).req_stop ∨ s.phase = .Off then s.toTally
          else s.toTally.next (begins env (s.begun env) (pollLine env s.toPlaylist).injected.isSome)
            ((s.begun env).fate env) := if_neg hruns
      have hstays (hoff : (pollLine env s.toPlaylist).phase = .Off)
          (hkept : (s.begun env).req_stop = true ∨ s.phase = .Off) : (s.step (.poll env)).Inv := by
        unfold Inv
        rw [htally, if_pos hkept]
        exact (if_pos hoff).symm ▸ h.ends.capped
      obtain ⟨hoff, -, -, hdone⟩ | ⟨hstop, hdone⟩ | ⟨hstop, hrun, -⟩ | ⟨hstop, -, hon, u, hstep, -, hdone⟩ :=
        Tick.dispatch_cases env (s.begun env)
      · apply hstays
        · rw [pollLine_eq, hdone]
          exact hoff
        · exact .inr (hphase.symm.trans hoff)
      · apply hstays
        · rw [pollLine_eq, hdone]
          exact Tick.consumeStop_phase env _
        · exact .inl hstop
      · have htakes : s.TakesRun env := ⟨hrun, fun hset => Bool.noConfusion (hstop.symm.trans hset)⟩
        exact absurd htakes hruns
      · obtain ⟨published, hclosed⟩ := Tick.turn_closed u
        have hpoll : pollLine env s.toPlaylist = { u with toPublished := published } := hdone.trans hclosed
        have hrunning : s.phase ≠ .Off := fun hoff => hon (hphase.trans hoff)
        have hitem : (s.begun env).item = ⟨s.phase, s.consec_fail, s.job_seen, s.clear_done⟩ := by
          unfold Tick.item
          rw [hphase, hcursor, hprogress]
        have hmoves := @Tick.phaseStep_moves env _ hon hnone
        rw [hstep, hitem] at hmoves
        have hgoes : ¬ ((s.begun env).req_stop = true ∨ s.phase = .Off) := by
          rw [hstop]
          simp [hrunning]
        have hlist : (s.step (.poll env)).toPlaylist = { u with toPublished := published }.toPlaylist :=
          congrArg Tick.toPlaylist hpoll
        have hcounts : (s.step (.poll env)).toTally =
            s.toTally.next (begins env (s.begun env) u.injected.isSome) ((s.begun env).fate env) := by
          rw [htally, if_neg hgoes, hpoll]
        unfold Inv at h ⊢
        rw [if_neg hrunning] at h
        rw [hcounts, hlist]
        have hbegan : begins env (s.begun env) u.injected.isSome = true →
            s.phase = .NextItem ∧ s.clear_done = false ∧
              (u.injected.isSome = true ∨ (s.begun env).fate env = .failed) := by
          intro hbegins
          have hall := of_decide_eq_true hbegins
          rw [hphase, hcursor] at hall
          exact hall
        obtain ⟨hoff, hcapped⟩ | hgoing := hmoves.going h hbegan
        · change u.phase = .Off at hoff
          rw [if_pos hoff]
          exact hcapped
        · by_cases hoff : u.phase = .Off
          · rw [if_pos hoff]
            exact hgoing.capped
          · rw [if_neg hoff]
            exact hgoing

/-- In every run, between two patterns that are seen to start, and before the
first, no more than five failures are counted, and the fifth ends the run; no more than five
items are begun then, besides those a skip gives up behind a clear that was seen to start. -/
theorem failures_are_capped (feed_setting : Option Int) (actions : List Action) :
    Transition.Always step Ends { toPlaylist := .boot feed_setting } actions := by
  have hboot : Inv { toPlaylist := .boot feed_setting } := ⟨Nat.zero_le _, Nat.zero_le _, fun _ => rfl⟩
  have hinv := Transition.always_of_step (I := Inv) (fun s a h => Inv.step h a) hboot actions
  exact hinv.mono fun s h => Inv.ends h

end Tallied

end DuneWeaver
