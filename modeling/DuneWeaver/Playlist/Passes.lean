import DuneWeaver.Playlist.Snapshot
import DuneWeaver.Playlist.Isolation
import DuneWeaver.Playlist.Ending
import DuneWeaver.Playlist.FailureCap
import DuneWeaver.Playlist.HomeSpacing
import DuneWeaver.Playlist.QuietGate
import DuneWeaver.Rounds.Schedule

open Rounds

namespace DuneWeaver

theorem swap_perm {order : List Nat} {i j : Nat} (hi : i < order.length) (hj : j < order.length) :
    (swap order i j).Perm order := by
  unfold swap
  rw [List.getD_eq_getElem?_getD, List.getD_eq_getElem?_getD, List.getElem?_eq_getElem hi,
    List.getElem?_eq_getElem hj, Option.getD_some, Option.getD_some]
  exact List.set_set_perm hi hj

theorem shuffleFrom_perm (esp_random : Nat → UInt32) {i draw : Nat} {order : List Nat} (hi : i < order.length) :
    (shuffleFrom esp_random i draw order).Perm order := by
  induction i generalizing draw order with
  | zero => exact List.Perm.refl order
  | succ i ih =>
    have hdraw : (esp_random draw).toNat % (i + 2) < i + 2 := Nat.mod_lt _ (by omega)
    have hswap := swap_perm hi (show (esp_random draw).toNat % (i + 2) < order.length by omega)
    unfold shuffleFrom
    apply (ih ?_).trans hswap
    rw [swap_length]
    omega

/-- Whatever is drawn, shuffling keeps the slots. -/
theorem shuffleOrder_perm (esp_random : Nat → UInt32) (order : List Nat) :
    (shuffleOrder esp_random order).Perm order := by
  cases order with
  | nil => exact List.Perm.nil
  | cons line lines => exact shuffleFrom_perm esp_random (by simp)

namespace Tick

variable {env : Env} {t : Tick}

/-- The order of `u` is the one of `t` up to a shuffle, unless the run has ended. -/
def Reordered (t u : Tick) : Prop := u.phase ≠ .Off → u.order.Perm t.order

theorem NextSlot.order_perm {u : Tick} (h : NextSlot env t u) : u.order.Perm t.order := by
  cases h with
  | next => exact List.Perm.refl _
  | wrap =>
    dsimp only
    split_ifs
    · exact shuffleOrder_perm _ _
    · exact List.Perm.refl _

/-- No turn of a run changes the slots of its order. -/
theorem Turn.reordered {u : Tick} (h : Turn env t u) : Reordered t u := by
  cases h.moved with
  | @gone v hended =>
    rw [hended]
    exact fun hon => absurd (finish_phase env v) hon
  | kept hsame =>
    rw [Reordered, hsame.order]
    exact fun _ => List.Perm.refl _
  | @read _ _ v w hsame hread hdone =>
    rw [Reordered, hdone.order, resolveCurrent_eq hread]
    dsimp only
    rw [hsame.order]
    exact fun _ => List.Perm.refl _
  | @left _ v w hsame hslot hdone =>
    rw [Reordered, hdone.order, ← hsame.order]
    exact fun _ => hslot.order_perm

/-- The count of the scan is the number of valid lines. -/
theorem count_validLines (content : Bytes) :
    scanValidLines (fun count _ _ => (count + 1, true)) 0 content = (validLines content).length := by
  have hcount : ∀ (lines : List Bytes) (count valid : Nat),
      visit (fun (count _ : Nat) (_ : Bytes) => (count + 1, true)) count valid lines = count + lines.length := by
    intro lines
    induction lines with
    | nil =>
      intro count valid
      rfl
    | cons line lines ih =>
      intro count valid
      rw [visit, List.length_cons]
      dsimp only
      rw [if_pos rfl, ih]
      omega
  rw [scanValidLines_eq_visit, hcount, Nat.zero_add]

/-- A playlist that loads has an order of its valid lines. -/
theorem loadPlaylist_order {name content : Bytes} (h : (t.loadPlaylist env name).2 = true)
    (hcontent : env.read 0 (playlistFile env name) = some content) :
    0 < (validLines content).length ∧
      (t.loadPlaylist env name).1.order.Perm (List.range (validLines content).length) ∧
        (t.loadPlaylist env name).1.index = 0 ∧ (t.loadPlaylist env name).1.clear_done = false := by
  have hload := t.loadPlaylist_eq env name
  unfold loadedRun at hload
  rw [hcontent] at hload
  dsimp only at hload
  rw [count_validLines] at hload
  by_cases hempty : (validLines content).length = 0
  · rw [if_pos hempty] at hload
    rw [h] at hload
    cases hload
  · rw [if_neg hempty] at hload
    have hperm : (if t.runShuffle env ≠ 0 then shuffleOrder env.esp_random (List.range (validLines content).length)
        else List.range (validLines content).length).Perm (List.range (validLines content).length) := by
      split_ifs
      · exact shuffleOrder_perm _ _
      · exact List.Perm.refl _
    cases hpaths : resolvedPaths env 1 (playlistFile env name) (if t.runShuffle env ≠ 0 then
        shuffleOrder env.esp_random (List.range (validLines content).length)
        else List.range (validLines content).length) 0 [] with
    | none =>
      rw [hpaths] at hload
      change (t.loadPlaylist env name).2 = false at hload
      rw [h] at hload
      cases hload
    | some found =>
      rw [hpaths] at hload
      change t.loadPlaylist env name = _ at hload
      rw [hload]
      exact ⟨Nat.pos_of_ne_zero hempty, hperm, rfl, rfl⟩

end Tick

namespace Playlist

/-- What the machine does with the slot at its cursor. -/
def stage (p : Playlist) : Stage :=
  match p.phase with
  | .Off => .finished
  | .NextItem => .choosing p.clear_done
  | .Homing => .choosing p.clear_done
  | .RunClear => .preparing
  | .RunPattern => .serving
  | .Pausing => .choosing p.clear_done

theorem stage_off {p : Playlist} (hoff : p.phase = .Off) : p.stage = .finished := by
  unfold stage
  rw [hoff]

/-- A run of a playlist of `n` slots, at its turn number `turn`. -/
structure Draws (n turn : Nat) (p : Playlist) : Prop where
  slots : p.order.length = n
  listed : p.single = false
  unskipped : p.skip_active = false
  index : p.index = turn % n
  cleared : p.phase = .RunClear → p.clear_done = true

end Playlist

namespace Tick

/-- The line that the call hands over, as the slot that it clears for or draws. -/
def outputs (t : Tick) : List Rounds.Output :=
  match t.injected with
  | none => []
  | some _ => if t.phase = .RunClear then [.prepare t.index] else [.serve t.index]

/-- The home that is waited for does not start or does not end in time. -/
def HomingFails (env : Env) (t : Tick) : Prop :=
  t.phase = .Homing ∧
    if t.job_seen then env.state ≠ .Idle ∧ env.now - t.inject_ms > HOMING_TIMEOUT_MS
    else env.state ≠ .Homing ∧ env.state ≠ .Jog ∧ env.now - t.inject_ms > INJECT_TIMEOUT_MS

instance (env : Env) (t : Tick) : Decidable (HomingFails env t) := inferInstanceAs (Decidable (_ ∧ ite _ _ _))

/-- Nothing goes wrong in the call: no skip, no alarm, and neither an item nor a home fails. -/
structure Smooth (env : Env) (t : Tick) : Prop where
  skip : t.req_skip = false
  safe : inAlarmState env.state = false
  item : t.fate env ≠ .failed
  homing : ¬ t.HomingFails env

variable {env : Env} {t : Tick} {n turn : Nat}

/-- A turn of the run, as the server takes it. -/
def Takes (n turn : Nat) (t u : Tick) : Prop :=
  ∃ turn', Step n ⟨turn, t.stage⟩ u.outputs ⟨turn', u.stage⟩ ∧ (u.phase ≠ .Off → u.Draws n turn')

theorem outputs_silent (hline : t.injected = none) : t.outputs = [] := by
  unfold outputs
  rw [hline]

theorem takes_of_same {u : Tick} (h : u.Draws n turn) (hline : u.injected = none) (hstage : u.stage = t.stage) :
    Takes n turn t u := by
  refine ⟨turn, ?_, fun _ => h⟩
  rw [outputs_silent hline, hstage]
  exact .wait _

theorem takes_ready {u : Tick} (hstage : t.stage = .preparing) (h : u.Draws n turn) (hline : u.injected = none)
    (hready : u.stage = .choosing true) : Takes n turn t u := by
  refine ⟨turn, ?_, fun _ => h⟩
  rw [outputs_silent hline, hstage, hready]
  exact .ready turn

theorem takes_next {u : Tick} (hstage : t.stage = .serving) (h : u.Draws n (turn + 1)) (hline : u.injected = none)
    (hnext : u.stage = .choosing false) : Takes n turn t u := by
  refine ⟨turn + 1, ?_, fun _ => h⟩
  rw [outputs_silent hline, hstage, hnext]
  exact .next turn

theorem takes_finish {u : Tick} (hstage : t.stage = .serving) (hround : (turn + 1) % n = 0)
    (hline : u.injected = none) (hoff : u.phase = .Off) : Takes n turn t u := by
  have hfinished : u.stage = .finished := Playlist.stage_off hoff
  refine ⟨turn + 1, ?_, fun hon => absurd hoff hon⟩
  rw [outputs_silent hline, hstage, hfinished]
  exact .finish turn hround

/-- Without a skip the gate of the quiet hours leaves the slot as it is. -/
theorem quietGate_keeps {u : Tick} {ok : Bool} (h : t.quietGate env = (u, ok)) (hskip : t.req_skip = false) :
    u.req_skip = false := by
  obtain ⟨_, _, hset, _⟩ | ⟨_, _, _, hgate⟩ | ⟨_, _, hgate⟩ | ⟨_, _, hgate⟩ := quietGate_cases env t
  · exact absurd (hskip.symm.trans hset) Bool.false_ne_true
  all_goals
    cases hgate.symm.trans h
    exact hskip

theorem injectClear_takes {u : Tick} (h : u.Draws n turn) (hstage : t.stage = .choosing false) :
    Takes n turn t (u.injectClear env) := by
  refine ⟨turn, ?_, fun _ => ⟨h.slots, h.listed, h.unskipped, h.index, fun _ => rfl⟩⟩
  have hline : (u.injectClear env).outputs = [.prepare u.index] := rfl
  rw [hstage, hline, h.index]
  exact .prepare turn

theorem injectPattern_takes {u : Tick} (h : u.Draws n turn) {prepared : Bool}
    (hstage : t.stage = .choosing prepared) (pending_clear : Bytes) :
    Takes n turn t (u.injectPattern env pending_clear) := by
  refine ⟨turn, ?_, fun _ => ⟨h.slots, h.listed, h.unskipped, h.index, fun _ => rfl⟩⟩
  have hline : (u.injectPattern env pending_clear).outputs = [.serve u.index] := rfl
  rw [hstage, hline, h.index]
  exact .serve turn prepared

/-- A slot that can be read is cleared for, unless it has been already, or drawn. -/
theorem injectItem_takes {u : Tick} (h : u.Draws n turn) (hstage : t.stage = .choosing u.clear_done) :
    Takes n turn t (u.injectItem env) := by
  obtain ⟨hdone, hclear⟩ | ⟨pending_clear, hpattern⟩ := injectItem_cases env u
  · rw [hclear]
    exact injectClear_takes h (hdone ▸ hstage)
  · rw [hpattern]
    exact injectPattern_takes h hstage _

theorem playItem_takes {u : Tick} (h : u.Draws n turn) (hstage : t.stage = .choosing u.clear_done)
    (hreads : ¬ (u.resolved_index ≠ some u.index ∧ u.resolveCurrent env 0 = none)) :
    Takes n turn t (u.playItem env) := by
  unfold playItem
  by_cases hstale : u.resolved_index ≠ some u.index
  · rw [if_pos hstale]
    cases hread : u.resolveCurrent env 0 with
    | none => exact absurd ⟨hstale, hread⟩ hreads
    | some v =>
      have hframe := resolveCurrent_eq hread
      have hdraws : v.Draws n turn := by
        rw [hframe]
        exact ⟨h.slots, h.listed, h.unskipped, h.index, h.cleared⟩
      have hdone : v.clear_done = u.clear_done := by rw [hframe]
      rw [← hdone] at hstage
      exact injectItem_takes (u := { v with resolved_index := some v.index })
        ⟨hdraws.slots, hdraws.listed, hdraws.unskipped, hdraws.index, hdraws.cleared⟩ hstage
  · rw [if_neg hstale]
    exact injectItem_takes h hstage

theorem nextItem_takes (h : t.Draws n turn) (hphase : t.phase = .NextItem) (hnone : t.injected = none)
    (hsmooth : t.Smooth env) : Takes n turn t (t.nextItem env) := by
  have hstage : t.stage = .choosing t.clear_done := by
    unfold Playlist.stage
    rw [hphase]
  have hreads : t.slotFate env ≠ .failed := by
    have hitem := hsmooth.item
    unfold fate at hitem
    rw [hphase] at hitem
    exact hitem
  unfold nextItem
  unfold slotFate at hreads
  have hsafe : ¬ inAlarmState env.state = true := by simp [hsmooth.safe]
  rw [if_neg hsafe] at hreads ⊢
  cases hgate : t.quietGate env with
  | mk u ok =>
    rw [hgate] at hreads
    have hskip := quietGate_keeps hgate hsmooth.skip
    obtain ⟨_, _, _, hframe⟩ := quietGate_frame hgate
    have hdraws : u.Draws n turn := by
      rw [hframe]
      exact ⟨h.slots, h.listed, h.unskipped, h.index, h.cleared⟩
    have hline : u.injected = none := by rw [hframe]; exact hnone
    have hdone : t.stage = .choosing u.clear_done := by rw [hframe]; exact hstage
    have hsame : u.stage = t.stage := by rw [hframe]; rfl
    cases ok with
    | false => exact takes_of_same hdraws hline hsame
    | true =>
      dsimp only at hreads ⊢
      have hkeeps : ¬ u.req_skip = true := by simp [hskip]
      rw [if_neg (by simp), if_neg hkeeps] at hreads
      rw [if_neg hkeeps]
      by_cases hbusy : ¬ env.line ∨ env.state ≠ .Idle ∨ env.job_active
      · rw [if_pos hbusy]
        exact takes_of_same hdraws hline hsame
      rw [if_neg hbusy] at hreads ⊢
      by_cases hdue : ¬ u.single ∧ env.settings.auto_home > 0 ∧ u.since_home ≥ env.settings.auto_home
      · rw [if_pos hdue]
        exact takes_of_same ⟨hdraws.slots, hdraws.listed, hdraws.unskipped, hdraws.index, nofun⟩ hline hdone.symm
      · rw [if_neg hdue] at hreads ⊢
        refine playItem_takes hdraws hdone fun hfails => hreads ?_
        rw [if_pos hfails]

theorem homing_takes (h : t.Draws n turn) (hphase : t.phase = .Homing) (hnone : t.injected = none)
    (hsmooth : t.Smooth env) : Takes n turn t (t.homing env) := by
  have hstage : t.stage = .choosing t.clear_done := by
    unfold Playlist.stage
    rw [hphase]
  have hsafe : ¬ (env.state = .Alarm ∨ env.state = .Critical) := by
    rintro (halarm | halarm) <;> simpa [inAlarmState, halarm] using hsmooth.safe
  have hfails : ¬ t.HomingFails env := hsmooth.homing
  unfold HomingFails at hfails
  unfold homing
  rw [if_neg hsafe]
  by_cases hseen : t.job_seen = true
  · rw [if_neg (not_not.mpr hseen)]
    rw [if_pos hseen] at hfails
    by_cases hidle : env.state = .Idle
    · rw [if_pos hidle]
      exact takes_of_same ⟨h.slots, h.listed, h.unskipped, h.index, by simp⟩ hnone hstage.symm
    · rw [if_neg hidle, if_neg fun hlate => hfails ⟨hphase, hidle, hlate⟩]
      exact takes_of_same h hnone rfl
  · rw [if_pos hseen]
    rw [if_neg hseen] at hfails
    by_cases hstarted : env.state = .Homing ∨ env.state = .Jog
    · rw [if_pos hstarted]
      exact takes_of_same ⟨h.slots, h.listed, h.unskipped, h.index, h.cleared⟩ hnone rfl
    · obtain ⟨hhoming, hjog⟩ := not_or.mp hstarted
      rw [if_neg hstarted, if_neg fun hlate => hfails ⟨hphase, hhoming, hjog, hlate⟩]
      exact takes_of_same h hnone rfl

/-- The slot after the last one is the first of the next round. -/
theorem next_turn {index : Nat} (hindex : index = turn % n) :
    (index + 1 < n → index + 1 = (turn + 1) % n) ∧ (n ≤ index + 1 → 0 < n → (turn + 1) % n = 0) := by
  have hnext : (index + 1) % n = (turn + 1) % n := by rw [hindex, Nat.mod_add_mod]
  constructor
  · intro hmore
    rw [← hnext, Nat.mod_eq_of_lt hmore]
  · intro hlast hn
    have hbound := Nat.mod_lt turn hn
    have hwhole : index + 1 = n := by omega
    rw [← hnext, hwhole, Nat.mod_self]

theorem NextSlot.draws {u : Tick} (hslot : NextSlot env t u) (h : t.Draws n turn) (hn : 0 < n) :
    u.order.length = n ∧ u.single = false ∧ u.skip_active = false ∧ u.index = (turn + 1) % n ∧
      u.clear_done = false := by
  obtain ⟨hmore, hlast⟩ := next_turn h.index
  cases hslot with
  | next hroom => exact ⟨h.slots, h.listed, h.unskipped, hmore (h.slots ▸ hroom), rfl⟩
  | wrap hend =>
    refine ⟨?_, h.listed, h.unskipped, (hlast (h.slots ▸ hend) hn).symm, rfl⟩
    dsimp only
    split_ifs
    · rw [shuffleOrder_length]
      exact h.slots
    · exact h.slots

/-- A pattern that has been drawn ends its turn, and the last one of a round may end the run. -/
theorem patternDone_takes (h : t.Draws n turn) (hn : 0 < n) (hphase : t.phase = .RunPattern)
    (hnone : t.injected = none) : Takes n turn t (t.patternDone env) := by
  have hstage : t.stage = .serving := by
    unfold Playlist.stage
    rw [hphase]
  have hended : t.patternEnded.Draws n turn := ⟨h.slots, h.listed, rfl, h.index, h.cleared⟩
  have hlast : (t.patternEnded.advanceIndex env).2 = false → (turn + 1) % n = 0 := by
    rw [← advanceWhy_isSome_iff]
    intro hwhy
    unfold advanceWhy at hwhy
    split_ifs at hwhy with hend
    · cases hwhy
    · exact (next_turn h.index).2 (h.slots ▸ hend) hn
    · cases hwhy
  obtain ⟨u, hslot, _, hdone⟩ | ⟨u, hkin, hadvance, hdone⟩ := t.patternDone_forms env
  · obtain ⟨hslots, hlisted, hunskipped, hindex, hfresh⟩ := hslot.draws hended hn
    have hline : u.injected = none := hslot.kin.injected.trans hnone
    have hchoosing : Stage.choosing u.clear_done = .choosing false := congrArg _ hfresh
    obtain ⟨_, hdone⟩ | hdone := hdone
    all_goals
      rw [hdone]
      exact takes_next hstage ⟨hslots, hlisted, hunskipped, hindex, nofun⟩ hline hchoosing
  · rw [hdone]
    have hline : (u.finish env).injected = none := by
      rw [finish_injected, hkin.injected]
      exact hnone
    refine takes_finish hstage (hlast ?_) hline (finish_phase env u)
    rw [hadvance]

theorem running_takes (h : t.Draws n turn) (hn : 0 < n) (hphase : t.phase = .RunClear ∨ t.phase = .RunPattern)
    (hnone : t.injected = none) (hsmooth : t.Smooth env) : Takes n turn t (t.running env) := by
  have hfate : t.jobFate env ≠ .failed := by
    have hitem := hsmooth.item
    unfold fate at hitem
    obtain hphase | hphase := hphase
    · rw [hphase] at hitem
      exact hitem
    · rw [hphase] at hitem
      exact hitem
  have hsafe : ¬ inAlarmState env.state = true := by simp [hsmooth.safe]
  have hskip : ¬ t.req_skip = true := by simp [hsmooth.skip]
  unfold jobFate at hfate
  rw [if_neg fun hgives => hgives.elim hsafe hskip] at hfate
  unfold running
  rw [if_neg hsafe, if_neg hskip]
  by_cases hseen : t.job_seen = true
  · rw [if_neg (not_not.mpr hseen)]
    by_cases hended : ¬ env.job_active ∧ env.state = .Idle
    · rw [if_pos hended]
      by_cases hclear : t.phase = .RunClear
      · rw [if_pos hclear]
        have hkept : ¬ t.skip_active = true := by simp [h.unskipped]
        have hpreparing : t.stage = .preparing := by
          unfold Playlist.stage
          rw [hclear]
        unfold clearDone
        dsimp only
        rw [if_neg hkept]
        exact takes_ready hpreparing ⟨h.slots, h.listed, h.unskipped, h.index, nofun⟩ hnone
          (congrArg Stage.choosing (h.cleared hclear))
      · rw [if_neg hclear]
        exact patternDone_takes h hn (hphase.resolve_left hclear) hnone
    · rw [if_neg hended]
      exact takes_of_same h hnone rfl
  · rw [if_pos hseen] at hfate ⊢
    by_cases hjob : env.job_active
    · rw [if_pos hjob]
      exact takes_of_same ⟨h.slots, h.listed, h.unskipped, h.index, h.cleared⟩ hnone rfl
    rw [if_neg hjob] at hfate ⊢
    by_cases hlate : env.now - t.inject_ms > INJECT_TIMEOUT_MS
    · rw [if_pos hlate] at hfate
      exact absurd rfl hfate
    · rw [if_neg hlate]
      exact takes_of_same h hnone rfl

theorem pausing_takes (h : t.Draws n turn) (hphase : t.phase = .Pausing) (hnone : t.injected = none)
    (hsmooth : t.Smooth env) : Takes n turn t (t.pausing env) := by
  have hstage : t.stage = .choosing t.clear_done := by
    unfold Playlist.stage
    rw [hphase]
  have hskip : ¬ t.req_skip = true := by simp [hsmooth.skip]
  unfold pausing
  rw [if_neg hskip]
  split_ifs
  · exact takes_of_same ⟨h.slots, h.listed, h.unskipped, h.index, nofun⟩ hnone hstage.symm
  · exact takes_of_same h hnone rfl

/-- A smooth turn of a run is one of the server. -/
theorem phaseStep_takes (h : t.Draws n turn) (hn : 0 < n) (hon : t.phase ≠ .Off) (hnone : t.injected = none)
    (hsmooth : t.Smooth env) : Takes n turn t (t.phaseStep env) := by
  unfold phaseStep
  cases hphase : t.phase with
  | Off => exact absurd hphase hon
  | NextItem => exact nextItem_takes h hphase hnone hsmooth
  | Homing => exact homing_takes h hphase hnone hsmooth
  | RunClear => exact running_takes h hn (.inl hphase) hnone hsmooth
  | RunPattern => exact running_takes h hn (.inr hphase) hnone hsmooth
  | Pausing => exact pausing_takes h hphase hnone hsmooth

/-- Only a pattern that is drawn can end the run. -/
theorem serving_of_off (h : t.Draws n turn) (hn : 0 < n) (hon : t.phase ≠ .Off) (hnone : t.injected = none)
    (hsmooth : t.Smooth env) (hoff : (t.phaseStep env).phase = .Off) : t.phase = .RunPattern := by
  obtain ⟨turn', hstep, _⟩ := phaseStep_takes h hn hon hnone hsmooth
  have hfinished : (t.phaseStep env).stage = .finished := Playlist.stage_off hoff
  have hstage : t.stage = .finished ∨ t.stage = .serving := hstep.of_finished hfinished
  unfold Playlist.stage at hstage
  cases hphase : t.phase with
  | Off => exact absurd hphase hon
  | RunPattern => rfl
  | NextItem | Homing | RunClear | Pausing =>
    rw [hphase] at hstage
    cases hstage <;> contradiction

theorem advanceWhy_eq (h : t.Draws n turn) (hn : 0 < n) : t.advanceWhy env =
    if t.index + 1 = n ∧ t.runMode env ≠ MODE_LOOP then some (bytes "complete") else none := by
  have hbound : t.index < n := h.index ▸ Nat.mod_lt turn hn
  have hlisted : ¬ t.single = true := by simp [h.listed]
  unfold advanceWhy
  rw [h.slots]
  by_cases hlast : t.index + 1 = n
  · rw [if_pos hlast.ge]
    by_cases hloop : t.runMode env = MODE_LOOP
    · rw [if_pos ⟨hlisted, hloop⟩, if_neg fun hends => hends.2 hloop]
    · rw [if_neg fun hgoes => hloop hgoes.2, if_pos ⟨hlast, hloop⟩]
  · rw [if_neg (by omega), if_neg fun hends => hlast hends.1]

/-- A smooth turn ends the run only with the last pattern of a pass that is not repeated, and says
that it is complete. -/
theorem smooth_why (h : t.Draws n turn) (hn : 0 < n) (hon : t.phase ≠ .Off) (hnone : t.injected = none)
    (hsmooth : t.Smooth env) : t.phaseWhy env =
      if Completes env t ∧ t.index + 1 = n ∧ t.runMode env ≠ MODE_LOOP then some (bytes "complete") else none := by
  by_cases hphase : t.phase = .RunPattern
  · have hsafe : ¬ inAlarmState env.state = true := by simp [hsmooth.safe]
    have hskip : ¬ t.req_skip = true := by simp [hsmooth.skip]
    have hfate : t.jobFate env ≠ .failed := by
      have hitem := hsmooth.item
      unfold fate at hitem
      rw [hphase] at hitem
      exact hitem
    have hclear : ¬ t.phase = .RunClear := by simp [hphase]
    have hwhy : t.phaseWhy env = t.runningWhy env := by
      unfold phaseWhy
      rw [hphase]
    unfold jobFate at hfate
    rw [if_neg fun hgives => hgives.elim hsafe hskip] at hfate
    rw [hwhy, runningWhy, if_neg hsafe, if_neg hskip, if_neg hclear, advanceWhy_eq h hn]
    by_cases hcompletes : Completes env t
    · obtain ⟨_, _, hseen, hjob, hidle⟩ := id hcompletes
      rw [if_neg (not_not.mpr hseen), if_pos ⟨by simp [hjob], hidle⟩]
      simp only [hcompletes, true_and]
    have hgoes : ¬ (Completes env t ∧ t.index + 1 = n ∧ t.runMode env ≠ MODE_LOOP) := fun hends => hcompletes hends.1
    rw [if_neg hgoes]
    by_cases hseen : t.job_seen = true
    · have hended : ¬ (¬ env.job_active = true ∧ env.state = .Idle) := fun hended =>
        hcompletes ⟨hphase, hsmooth.skip, hseen, eq_false_of_ne_true hended.1, hended.2⟩
      rw [if_neg (not_not.mpr hseen), if_neg hended]
    · rw [if_pos hseen] at hfate ⊢
      by_cases hjob : env.job_active = true
      · rw [if_pos hjob]
      rw [if_neg hjob] at hfate ⊢
      by_cases hlate : env.now - t.inject_ms > INJECT_TIMEOUT_MS
      · rw [if_pos hlate] at hfate
        exact absurd rfl hfate
      · rw [if_neg hlate]
  · have hgoes : ¬ (Completes env t ∧ t.index + 1 = n ∧ t.runMode env ≠ MODE_LOOP) := fun hends => hphase hends.1.1
    rw [if_neg hgoes]
    by_contra hsome
    have hoff := (phaseStep_off_iff hon).mpr (Option.isSome_iff_ne_none.mpr hsome)
    exact hphase (serving_of_off h hn hon hnone hsmooth hoff)

/-- After the last pattern of a pass that is repeated, the run is at slot 0. -/
theorem patternDone_repeats (h : t.Draws n turn) (hn : 0 < n) (hlast : t.index + 1 = n)
    (hloop : t.runMode env = MODE_LOOP) : (t.patternDone env).index = 0 ∧ (t.patternDone env).phase ≠ .Off := by
  have hgoes : t.advanceWhy env = none := by
    rw [advanceWhy_eq h hn, if_neg fun hends => hends.2 hloop]
  constructor
  · obtain ⟨u, v, hslot, _, hcursor, _, hdone⟩ | ⟨u, _, hdone⟩ := patternDone_cases env t
    · rw [hdone, congrArg Cursor.index hcursor]
      cases hslot with
      | next hmore =>
        have hroom : t.index + 1 < t.order.length := hmore
        rw [h.slots] at hroom
        omega
      | wrap => rfl
    · have hoff : (t.patternDone env).phase = .Off := by
        rw [hdone]
        exact finish_phase env u
      rw [patternDone_off_iff, hgoes] at hoff
      cases hoff
  · rw [ne_eq, patternDone_off_iff, hgoes]
    exact nofun

end Tick

open Tick Transition

namespace Playlist

variable {env : Env} {p : Playlist} {n turn : Nat}

/-- The line that the action hands over, as the slot that it clears for or draws. -/
def slotOutput (p : Playlist) : Action → List Rounds.Output
  | .poll env => (pollLine env p).outputs
  | .request _ => []

/-- The action goes on with the run, and nothing goes wrong in it. -/
def Smoothly (p : Playlist) : Action → Prop
  | .poll env => p.Undisturbed env ∧ (p.begun env).Smooth env
  | .request _ => True

theorem Draws.begun (h : p.Draws n turn) (env : Env) : (p.begun env).Draws n turn := by
  obtain ⟨_, _, _, _, _, hframe⟩ := prelude_frame env { toPlaylist := p }
  unfold Playlist.begun
  rw [hframe]
  exact ⟨h.slots, h.listed, h.unskipped, h.index, h.cleared⟩

theorem begun_stage (env : Env) (p : Playlist) : (p.begun env).stage = p.stage := by
  obtain ⟨_, _, _, _, _, hframe⟩ := prelude_frame env { toPlaylist := p }
  unfold Playlist.begun
  rw [hframe]
  rfl

/-- Without a request, the poll of a run goes through the switch. -/
theorem Undisturbed.switched (h : p.Undisturbed env) (hon : p.phase ≠ .Off) :
    ∃ published, pollLine env p = { (p.begun env).phaseStep env with toPublished := published } := by
  have hphase : (p.begun env).phase = p.phase := prelude_phase env _
  rw [pollLine_eq]
  obtain ⟨hoff, _⟩ | ⟨hstop, _⟩ | ⟨_, hrun, _⟩ | ⟨_, _, _, u, hstep, _, hdone⟩ := dispatch_cases env (p.begun env)
  · exact absurd (hphase.symm.trans hoff) hon
  · exact absurd (h.1.symm.trans hstop) Bool.false_ne_true
  · exact absurd (h.2.symm.trans hrun) Bool.false_ne_true
  · obtain ⟨published, hclosed⟩ := turn_closed u
    rw [hdone, hclosed, hstep]
    exact ⟨published, rfl⟩

/-- A smooth action of a run is one of the server. -/
theorem smooth_step (hn : 0 < n) (h : p.phase ≠ .Off → p.Draws n turn) {a : Action} (hsmooth : p.Smoothly a) :
    ∃ turn', Step n ⟨turn, p.stage⟩ (p.slotOutput a) ⟨turn', (p.step a).stage⟩ ∧
      ((p.step a).phase ≠ .Off → (p.step a).Draws n turn') := by
  cases a with
  | request r =>
    unfold Playlist.step
    dsimp only
    rw [Playlist.request_eq]
    exact ⟨turn, .wait _, fun hon => ⟨(h hon).slots, (h hon).listed, (h hon).unskipped, (h hon).index, (h hon).cleared⟩⟩
  | poll env =>
    obtain ⟨hquiet, hsmooth⟩ := hsmooth
    have hnoRun : ¬ p.TakesRun env := fun htakes => Bool.false_ne_true (hquiet.2.symm.trans htakes.1)
    unfold Playlist.step slotOutput
    dsimp only
    by_cases hoff : p.phase = .Off
    · obtain ⟨hstays, hline⟩ := pollLine_off hoff hnoRun
      have hstage : (pollLine env p).stage = p.stage := (stage_off hstays).trans (stage_off hoff).symm
      rw [outputs_silent hline, hstage]
      exact ⟨turn, .wait _, fun hon => absurd hstays hon⟩
    · have hdraws := (h hoff).begun env
      have hon : (p.begun env).phase ≠ .Off := by rwa [Playlist.begun, prelude_phase]
      obtain ⟨turn', hstep, hnext⟩ := phaseStep_takes hdraws hn hon (prelude_injected env _) hsmooth
      obtain ⟨published, hdone⟩ := hquiet.switched hoff
      rw [begun_stage] at hstep
      rw [hdone]
      exact ⟨turn', hstep, fun hon => ⟨(hnext hon).slots, (hnext hon).listed, (hnext hon).unskipped,
        (hnext hon).index, (hnext hon).cleared⟩⟩

/-- A smooth run does what the schedule of the server says. -/
theorem smooth_run (hn : 0 < n) (h : p.phase ≠ .Off → p.Draws n turn) {before : List Rounds.Output}
    (hbefore : Scheduled n ⟨turn, p.stage⟩ before) {actions : List Action}
    (hsmooth : Throughout step Smoothly p actions) : ∃ turn',
      ((run step p actions).phase ≠ .Off → (run step p actions).Draws n turn') ∧
        Scheduled n ⟨turn', (run step p actions).stage⟩ (before ++ trace step slotOutput p actions) := by
  induction actions generalizing p turn before with
  | nil =>
    refine ⟨turn, h, ?_⟩
    rw [trace, List.append_nil]
    exact hbefore
  | cons a actions ih =>
    obtain ⟨turn', hstep, hnext⟩ := smooth_step hn h hsmooth.1
    obtain ⟨last, hdraws, hdone⟩ := ih hnext (hbefore.step hstep) hsmooth.2
    refine ⟨last, hdraws, ?_⟩
    rw [trace, ← List.append_assoc]
    exact hdone

/-- A playlist that has been started is at its first slot, and its order is one of its lines. -/
theorem TakesRun.at_first_slot {content : Bytes} (htakes : p.TakesRun env) (hlist : (p.begun env).req_single = false)
    (hcontent : env.read 0 (playlistFile env (p.begun env).req_name) = some content)
    (hstarted : (pollLine env p).phase ≠ .Off) :
    0 < (validLines content).length ∧ (pollLine env p).order.Perm (List.range (validLines content).length) ∧
      (pollLine env p).stage = .choosing false ∧ (pollLine env p).Draws (validLines content).length 0 := by
  rw [htakes.done] at hstarted ⊢
  obtain ⟨hsingle, _⟩ | ⟨_, hloads, hconsumed⟩ | ⟨_, _, hconsumed⟩ := consumeRun_cases env (p.begun env)
  · exact absurd (hlist.symm.trans hsingle) Bool.false_ne_true
  · obtain ⟨hpos, hperm, hindex, hdone⟩ := loadPlaylist_order hloads hcontent
    obtain ⟨cursor, since_home, hload, _⟩ :=
      loadPlaylist_frame env (p.begun env).req_name ((p.begun env).takeRequest env)
    rw [hconsumed]
    refine ⟨hpos, hperm, congrArg Stage.choosing hdone, ⟨?_, ?_, ?_, ?_, nofun⟩⟩
    · exact hperm.length_eq.trans List.length_range
    · rw [hload, takeRequest_eq]
      exact hlist
    · rw [hload, takeRequest_eq]
    · exact hindex.trans (Nat.zero_mod _).symm
  · rw [hconsumed] at hstarted
    exact absurd (finish_phase env _) hstarted

/-- The order of a run stays one of the same slots, whatever happens to it. -/
theorem ordered_step {a : Action} (hrun : ¬ p.StartsRun a) {slots : List Nat}
    (h : p.phase ≠ .Off → p.order.Perm slots) : (p.step a).phase ≠ .Off → (p.step a).order.Perm slots := by
  cases a with
  | request r =>
    unfold Playlist.step
    dsimp only
    rw [Playlist.request_eq]
    exact h
  | poll env =>
    unfold Playlist.step
    dsimp only
    obtain hoff | ⟨hon, u, published, hturn, _, hdone⟩ := pollLine_turn hrun
    · exact fun hon => absurd hoff hon
    · rw [hdone]
      have horder : (p.begun env).order = p.order := congrArg Cursor.order (prelude_toCursor env _)
      exact fun hstays => (hturn.reordered hstays).trans (horder ▸ h hon)

/-- What is asked of a smooth poll of a run of `n` slots: that it ends the run, as complete, when the
last pattern of a pass is done and the run is not to loop, and only then; and that a run that is to
loop goes on at slot 0. -/
structure EndsPasses (n : Nat) (env : Env) (p : Playlist) : Prop where
  why : p.why env = if Completes env (p.begun env) ∧ p.index + 1 = n ∧ runMode env (p.begun env) ≠ MODE_LOOP then
    some (bytes "complete") else none
  ends : (pollLine env p).phase = .Off ↔ (p.why env).isSome = true
  repeats : Completes env (p.begun env) → p.index + 1 = n → runMode env (p.begun env) = MODE_LOOP →
    (pollLine env p).phase ≠ .Off ∧ (pollLine env p).index = 0

theorem endsPasses (hn : 0 < n) (h : p.Draws n turn) (hon : p.phase ≠ .Off) (hsmooth : p.Smoothly (.poll env)) :
    p.EndsPasses n env := by
  obtain ⟨hquiet, hsmooth⟩ := hsmooth
  have hbegun := h.begun env
  have hphase : (p.begun env).phase ≠ .Off := by rwa [Playlist.begun, prelude_phase]
  have hindex : (p.begun env).index = p.index := congrArg Cursor.index (prelude_toCursor env _)
  have hwhy : p.why env = (p.begun env).phaseWhy env := by
    unfold Playlist.why
    dsimp only
    rw [hquiet.1, hquiet.2, if_neg Bool.false_ne_true, if_neg Bool.false_ne_true]
  refine ⟨?_, ?_, ?_⟩
  · rw [hwhy, smooth_why hbegun hn hphase (prelude_injected env _) hsmooth, hindex]
  · rw [why_isSome_iff]
    exact ⟨fun hoff => ⟨hoff, .inl hon⟩, fun hends => hends.1⟩
  · intro hcompletes hlast hloop
    obtain ⟨published, hdone⟩ := hquiet.switched hon
    rw [phaseStep_completes hcompletes] at hdone
    obtain ⟨hfirst, hgoes⟩ := patternDone_repeats hbegun hn (hindex ▸ hlast) hloop
    rw [hdone]
    exact ⟨hgoes, hfirst⟩

/-- A playlist of `n` lines that has been started keeps an order of its slots. As long as nothing goes
wrong, its turns go through the slots in order, pass after pass: each of them hands over the pattern
of its slot once, behind at most one clear for it. The run ends as complete behind a pass, or goes on
at slot 0. -/
theorem each_pass_draws_each_entry_once {env : Env} {p : Playlist} {content : Bytes} (htakes : p.TakesRun env)
    (hlist : (p.begun env).req_single = false)
    (hcontent : env.read 0 (playlistFile env (p.begun env).req_name) = some content)
    (hstarted : (pollLine env p).phase ≠ .Off) :
    0 < (validLines content).length ∧
    (∀ actions, Throughout step (fun q a => ¬ q.StartsRun a) (p.step (.poll env)) actions →
      Always step (fun q => q.phase ≠ .Off → q.order.Perm (List.range (validLines content).length))
        (p.step (.poll env)) actions) ∧
    (∀ actions, Throughout step Smoothly (p.step (.poll env)) actions → ∃ turns,
      InRounds (validLines content).length turns (trace step slotOutput (p.step (.poll env)) actions) ∧
      ((run step (p.step (.poll env)) actions).phase = .Off → turns.length % (validLines content).length = 0 ∧
        trace step slotOutput (p.step (.poll env)) actions = schedule (validLines content).length turns)) ∧
    (∀ actions env', Throughout step Smoothly (p.step (.poll env)) (actions ++ [.poll env']) →
      (run step (p.step (.poll env)) actions).phase ≠ .Off →
        (run step (p.step (.poll env)) actions).EndsPasses (validLines content).length env') := by
  obtain ⟨hpos, hperm, hstage, hdraws⟩ := htakes.at_first_slot hlist hcontent hstarted
  have hinit : Scheduled (validLines content).length ⟨0, (pollLine env p).stage⟩ [] := by
    rw [hstage]
    exact .init _
  refine ⟨hpos, fun actions hrun => ?_, fun actions hsmooth => ?_, fun actions env' hsmooth hon => ?_⟩
  · exact always_of_invariant (I := fun q => q.phase ≠ .Off → q.order.Perm (List.range (validLines content).length))
      (fun q a h hkeeps => ordered_step hkeeps h) (fun _ => hperm) hrun
  · obtain ⟨turn, _, hdone⟩ := smooth_run hpos (fun _ => hdraws) hinit hsmooth
    obtain ⟨turns, hrounds, hfinished⟩ := hdone.inRounds hpos
    exact ⟨turns, hrounds, fun hoff => hfinished (stage_off hoff)⟩
  · obtain ⟨turn, hdraws, _⟩ := smooth_run hpos (fun _ => hdraws) hinit hsmooth.front
    exact endsPasses hpos (hdraws hon) hon hsmooth.last

/-- An idle table whose card holds a playlist of two patterns and no clear files. -/
private def twoPatternsEnv : Env where
  line := true
  files path := if path = bytes "/playlists/a.txt" then some (bytes "x.thr\ny.thr") else none
  file_exists _ := false

/-- A request for it. -/
private def twoPatterns : Playlist := (boot none).request (.run (bytes "a") .Idle)

/-- Both patterns are handed over, seen to run and seen to end. -/
private def bothDrawn : List Action :=
  [.poll twoPatternsEnv, .poll { twoPatternsEnv with job_active := true }, .poll twoPatternsEnv,
    .poll twoPatternsEnv, .poll { twoPatternsEnv with job_active := true }, .poll twoPatternsEnv]

/-- Two patterns are drawn once each, and the run is over. -/
theorem each_pass_draws_both_entries_once : ∃ turns,
    InRounds (validLines (bytes "x.thr\ny.thr")).length turns
      (trace step slotOutput (twoPatterns.step (.poll twoPatternsEnv)) bothDrawn) ∧
    turns.length % (validLines (bytes "x.thr\ny.thr")).length = 0 := by
  have htakes : twoPatterns.TakesRun twoPatternsEnv := by decide
  have hstarted : (pollLine twoPatternsEnv twoPatterns).phase ≠ .Off := by decide
  have hsmooth : Throughout step Smoothly (twoPatterns.step (.poll twoPatternsEnv)) bothDrawn := by
    refine ⟨?_, ?_, ?_, ?_, ?_, ?_, trivial⟩
    all_goals exact ⟨⟨by decide, by decide⟩,
      ⟨by decide, by decide, by decide, by decide⟩⟩
  have hover : (run step (twoPatterns.step (.poll twoPatternsEnv)) bothDrawn).phase = .Off := by decide
  obtain ⟨turns, hrounds, hends⟩ :=
    (each_pass_draws_each_entry_once htakes (by decide) rfl hstarted).2.2.1 bothDrawn hsmooth
  exact ⟨turns, hrounds, (hends hover).1⟩

end Playlist

end DuneWeaver
