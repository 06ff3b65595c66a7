import DuneWeaver.Playlist.HomeSpacing

namespace DuneWeaver

/-- How a homing ends: in `Homing::done`, which looks at `sys.abort` before and after it syncs
the positions, or at the end of a crash home. -/
inductive HomingEnd where
  | done (abort abort_synced : Bool) (unhomed_axes : Nat)
  | crash (abort : Bool)
  deriving DecidableEq

/-- What the end of a homing makes of `_homed_since_boot`. -/
def HomingEnd.mark (homed_since_boot : Bool) : HomingEnd → Bool
  | .done abort abort_synced unhomed_axes =>
    if abort then homed_since_boot
    else if ¬ abort_synced then
      if unhomed_axes = 0 then true else homed_since_boot
    else homed_since_boot
  | .crash abort => if abort then homed_since_boot else true

/-- The homing has come to its end without an abort, and leaves no axis unhomed. -/
def HomingEnd.Succeeds : HomingEnd → Prop
  | .done abort abort_synced unhomed_axes => abort = false ∧ abort_synced = false ∧ unhomed_axes = 0
  | .crash abort => abort = false

theorem HomingEnd.mark_iff (homed_since_boot : Bool) (e : HomingEnd) :
    e.mark homed_since_boot = true ↔ homed_since_boot = true ∨ e.Succeeds := by
  cases e with
  | done abort abort_synced unhomed_axes =>
    unfold mark Succeeds
    cases abort <;> cases abort_synced <;> by_cases hnone : unhomed_axes = 0 <;> simp [hnone]
  | crash abort =>
    unfold mark Succeeds
    cases abort <;> simp

namespace Tick

variable {env : Env} {t : Tick}

/-- A call leaves the auto-play as its prelude has set it, and no skip waits for an Off machine. -/
def Spares (t u : Tick) : Prop := u.toAutostart = t.toAutostart ∧ (u.phase = .Off → u.req_skip = false)

theorem Kin.toAutostart {u : Tick} (h : Kin t u) : u.toAutostart = t.toAutostart :=
  (congrArg (fun t : Tick => t.toAutostart) h :)

theorem finish_spares (env : Env) {u : Tick} (h : u.toAutostart = t.toAutostart) : Spares t (u.finish env) := by
  rw [finish_eq]
  exact ⟨h, fun _ => rfl⟩

theorem spares_of_on {u : Tick} (h : u.toAutostart = t.toAutostart) (hon : u.phase ≠ .Off) : Spares t u :=
  ⟨h, fun hoff => absurd hoff hon⟩

theorem advanceIndex_spares (env : Env) {u : Tick} (h : u.toAutostart = t.toAutostart) (hon : u.phase ≠ .Off) :
    Spares t (u.advanceIndex env).1 := by
  obtain ⟨v, hslot, hadvance⟩ | ⟨v, hkin, hadvance⟩ := u.advanceIndex_cases env
  · rw [hadvance]
    exact spares_of_on (hslot.kin.toAutostart.trans h) (hslot.phase_eq ▸ hon)
  · rw [hadvance]
    exact finish_spares env (hkin.toAutostart.trans h)

theorem nextSlot_spares (env : Env) {u : Tick} (h : u.toAutostart = t.toAutostart) : Spares t (u.nextSlot env) := by
  obtain ⟨v, hslot, hnext⟩ | ⟨v, hkin, hnext⟩ := u.nextSlot_cases env
  · rw [hnext]
    have hsame : v.toAutostart = t.toAutostart := hslot.kin.toAutostart.trans h
    exact spares_of_on hsame (by decide : Phase.NextItem ≠ .Off)
  · rw [hnext]
    exact finish_spares env (hkin.toAutostart.trans h)

theorem Turn.spares {u : Tick} (h : Turn env t u) : Spares t u := by
  have hgated {v : Tick} {ok : Bool} (hgate : AtGate env t v ok) :
      v.toAutostart = t.toAutostart ∧ v.phase ≠ .Off := by
    have hon : t.phase ≠ .Off := by simp [hgate.phase]
    obtain ⟨_, _, _, rfl⟩ := quietGate_frame hgate.gate
    exact ⟨rfl, hon⟩
  have hresumed {v w : Tick} (hresolved : Resolved env v w) : w.toAutostart = v.toAutostart := by
    cases hresolved with
    | cached => rfl
    | read _ hread => rw [resolveCurrent_eq hread]
  cases h with
  | canceled => exact finish_spares env rfl
  | waited hon => exact spares_of_on rfl hon
  | gated hgate => exact spares_of_on (hgated hgate).1 (hgated hgate).2
  | deferred hgate => exact spares_of_on (hgated hgate).1 (hgated hgate).2
  | @skipped v hgate =>
    exact advanceIndex_spares env (u := { v with req_skip := false, since_home := v.since_home + 1 })
      (hgated hgate).1 (hgated hgate).2
  | home hgate => exact spares_of_on (hgated hgate).1 (by decide : Phase.Homing ≠ .Off)
  | @unreadableEnd v hgate =>
    exact finish_spares env (u := { v with consec_fail := v.consec_fail + 1 }) (hgated hgate).1
  | @unreadable v hgate =>
    exact advanceIndex_spares env (u := { v with consec_fail := v.consec_fail + 1 })
      (hgated hgate).1 (hgated hgate).2
  | clear hgate _ hresolved =>
    have hsame := (hresumed hresolved).trans (hgated hgate).1
    exact spares_of_on hsame (by decide : Phase.RunClear ≠ .Off)
  | pattern hgate _ hresolved =>
    have hsame := (hresumed hresolved).trans (hgated hgate).1
    exact spares_of_on hsame (by decide : Phase.RunPattern ≠ .Off)
  | homeSeen hphase => exact spares_of_on rfl (by simp [hphase])
  | homed => exact spares_of_on rfl (by decide : Phase.NextItem ≠ .Off)
  | skipRun hphase =>
    rw [stopJob_eq]
    exact spares_of_on rfl (by rcases hphase with h | h <;> simp [h])
  | jobSeen hphase => exact spares_of_on rfl (by rcases hphase with h | h <;> simp [h])
  | notStarted =>
    obtain ⟨v, hkin, _, hfailed | hfailed⟩ := startFailed_cases env t
    · rw [hfailed]
      exact finish_spares env hkin.toAutostart
    · rw [hfailed]
      exact nextSlot_spares env hkin.toAutostart
  | cleared =>
    obtain ⟨v, hkin, _, ⟨hdone, hnext⟩ | ⟨_, hdone⟩⟩ := clearDone_cases env t
    · rw [hdone]
      exact spares_of_on hkin.toAutostart (by simp [hnext])
    · rw [hdone]
      exact nextSlot_spares env hkin.toAutostart
  | drawn =>
    obtain ⟨v, w, hslot, hkin, _, hnext, hdone⟩ | ⟨v, hkin, hdone⟩ := patternDone_cases env t
    · rw [hdone]
      have hsame : w.toAutostart = t.toAutostart := hkin.toAutostart.trans hslot.kin.toAutostart
      exact spares_of_on hsame (by rcases hnext with h | h <;> simp [h])
    · rw [hdone]
      have hsame : v.toAutostart = t.toAutostart := hkin.toAutostart
      exact finish_spares env hsame
  | pauseSkipped => exact spares_of_on rfl (by decide : Phase.NextItem ≠ .Off)
  | paused => exact spares_of_on rfl (by decide : Phase.NextItem ≠ .Off)

theorem consumeStop_spares (env : Env) (t : Tick) : Spares t (t.consumeStop env) := by
  unfold consumeStop
  dsimp only
  split_ifs
  · rw [stopJob_eq]
    exact finish_spares env (t := t) (u := { t with req_stop := false, req_skip := false }) rfl
  · exact ⟨rfl, fun _ => rfl⟩

theorem consumeRun_spares (env : Env) (t : Tick) : Spares t (t.consumeRun env) := by
  obtain ⟨cursor, since_home, hload, _⟩ := loadPlaylist_frame env t.req_name (t.takeRequest env)
  obtain ⟨_, hconsumed⟩ | ⟨_, _, hconsumed⟩ | ⟨_, _, hconsumed⟩ := consumeRun_cases env t
  · rw [hconsumed, takeRequest_eq]
    exact spares_of_on rfl (by decide : Phase.NextItem ≠ .Off)
  · rw [hconsumed, hload, takeRequest_eq]
    exact spares_of_on rfl (by decide : Phase.NextItem ≠ .Off)
  · rw [hconsumed, hload, takeRequest_eq]
    apply finish_spares
    rfl

theorem dispatch_spares (env : Env) (hidle : t.phase = .Off → t.req_skip = false) : Spares t (t.dispatch env) := by
  obtain ⟨_, _, _, hdone⟩ | ⟨_, hdone⟩ | ⟨_, _, hdone⟩ | ⟨_, _, _, u, _, hturn, hdone⟩ := dispatch_cases env t
  · rw [hdone]
    exact ⟨rfl, hidle⟩
  · rw [hdone]
    exact consumeStop_spares env t
  · rw [hdone]
    exact consumeRun_spares env t
  · obtain ⟨published, hclosed⟩ := turn_closed u
    rw [hdone, hclosed]
    exact hturn.spares

/-- The prelude leaves the requests alone, or raises the one of the auto-play: on an Off table
that has been homed and has nothing else to do. -/
theorem prelude_raises (env : Env) (t : Tick) :
    ((t.prelude env).toRequests = t.toRequests ∧
      ((t.prelude env).autostart_pending = true → t.autostart_pending = true)) ∨
    (t.autostart_pending = true ∧ t.phase = .Off ∧ t.req_run = false ∧ t.req_stop = false ∧
      env.homed_since_boot = true ∧ (t.prelude env).autostart_pending = false ∧
      (t.prelude env).req_run = true ∧ (t.prelude env).req_stop = false ∧
      (t.prelude env).req_no_abort = true ∧ (t.prelude env).req_skip = t.req_skip) := by
  have hframe : ((t.ledOff env).midRunHold env).toRequests = t.toRequests ∧
      ((t.ledOff env).midRunHold env).toAutostart = t.toAutostart ∧
      ((t.ledOff env).midRunHold env).phase = t.phase := by
    unfold midRunHold ledOff
    dsimp only
    split_ifs <;> exact ⟨rfl, rfl, rfl⟩
  obtain ⟨hrequests, hauto, hphase⟩ := hframe
  unfold prelude
  generalize (t.ledOff env).midRunHold env = u at hrequests hauto hphase ⊢
  rw [← hrequests, ← hauto, ← hphase]
  unfold autostart
  by_cases hready : u.autostart_pending ∧ u.phase = .Off ∧ ¬ u.req_run ∧ ¬ u.req_stop ∧ env.state = .Idle
  · rw [if_pos hready]
    obtain ⟨hpending, hoff, hrun, hstop, _⟩ := hready
    by_cases hnone : env.settings.autostart = []
    · rw [if_pos hnone]
      exact .inl ⟨rfl, nofun⟩
    rw [if_neg hnone]
    by_cases hunhomed : ¬ env.homed_since_boot
    · rw [if_pos hunhomed]
      dsimp only
      split_ifs
      all_goals exact .inl ⟨rfl, fun hpending => hpending⟩
    rw [if_neg hunhomed]
    by_cases hjob : env.job_active
    · rw [if_pos hjob]
      exact .inl ⟨rfl, fun hpending => hpending⟩
    · rw [if_neg hjob]
      exact .inr ⟨hpending, hoff, eq_false_of_ne_true hrun, eq_false_of_ne_true hstop,
        not_not.mp hunhomed, rfl, rfl, eq_false_of_ne_true hstop, rfl, rfl⟩
  · rw [if_neg hready]
    split_ifs
    · exact .inl ⟨rfl, id⟩
    · exact .inl ⟨rfl, id⟩

end Tick

namespace Playlist

/-- The requests that the poll stages by itself, for the auto-play. -/
def autoplay (env : Env) (p : Playlist) : List Requests :=
  if (p.begun env).toRequests = p.toRequests then [] else [(p.begun env).toRequests]

/-- What is asked of a poll that stages a request: that the machine is Off with nothing else
requested, and that the request is consumed at once without stopping a job. -/
structure PlaysAlone (env : Env) (p : Playlist) : Prop where
  off : p.phase = .Off
  req_run : p.req_run = false
  req_stop : p.req_stop = false
  req_skip : p.req_skip = false
  consumed : p.TakesRun env
  unaborted : .stopJob ∉ (pollLine env p).events

variable {env : Env} {p : Playlist}

/-- No skip waits for an Off machine. -/
def NoIdleSkip (p : Playlist) : Prop := p.phase = .Off → p.req_skip = false

/-- A poll that stages a request disarms the auto-play, on a table that has been homed. -/
theorem autoplay_cases (env : Env) (p : Playlist) :
    (p.autoplay env = [] ∧ ((p.begun env).autostart_pending = true → p.autostart_pending = true)) ∨
    ((p.autoplay env).length ≤ 1 ∧ p.autostart_pending = true ∧ (p.begun env).autostart_pending = false ∧
      env.homed_since_boot = true ∧ (p.NoIdleSkip → p.PlaysAlone env)) := by
  obtain ⟨hsame, hpending⟩ | ⟨hpending, hoff, hrun, hstop, hhomed, hdisarmed, hrun', hstop', hkind, _⟩ :=
    Tick.prelude_raises env { toPlaylist := p }
  · exact .inl ⟨if_pos hsame, hpending⟩
  · right
    have hone : (p.autoplay env).length ≤ 1 := by
      unfold autoplay
      split_ifs <;> simp
    refine ⟨hone, hpending, hdisarmed, hhomed, fun hskip => ⟨hoff, hrun, hstop, hskip hoff, ?_, ?_⟩⟩
    · exact ⟨hrun', ne_true_of_eq_false hstop'⟩
    · rw [stopJob_mem_iff]
      rintro ⟨_, ⟨hreq, _⟩ | ⟨_, hreq⟩ | hreq⟩
      · exact Bool.false_ne_true (hstop'.symm.trans hreq)
      · exact Bool.false_ne_true (hreq.symm.trans hkind)
      · exact Bool.false_ne_true (hreq.undisturbed.2.symm.trans hrun')

/-- A poll arms nothing. -/
theorem pollLine_autostart (hskip : p.NoIdleSkip) : (pollLine env p).NoIdleSkip ∧
    (pollLine env p).toAutostart = (p.begun env).toAutostart := by
  have hbegun : (p.begun env).phase = .Off → (p.begun env).req_skip = false := by
    intro hoff
    have hidle : p.req_skip = false := hskip ((Tick.prelude_phase env _).symm.trans hoff)
    obtain ⟨hsame, _⟩ | ⟨_, _, _, _, _, _, _, _, _, hsame⟩ := Tick.prelude_raises env { toPlaylist := p }
    · exact (congrArg Requests.req_skip hsame).trans hidle
    · exact hsame.trans hidle
  obtain ⟨hauto, hidle⟩ := Tick.dispatch_spares env hbegun
  exact ⟨hidle, hauto⟩

theorem NoIdleSkip.request (h : p.NoIdleSkip) (r : Request) : (p.request r).NoIdleSkip := by
  intro hoff
  have hphase : p.phase = .Off := by
    rw [Playlist.request_eq] at hoff
    exact hoff
  have hidle := h hphase
  cases r with
  | skip =>
    unfold Playlist.request requestSkip
    dsimp only
    rw [if_pos hphase]
    exact hidle
  | run name state =>
    unfold Playlist.request requestRun
    dsimp only
    split_ifs <;> exact hidle
  | single patternPath clearMode state =>
    unfold Playlist.request requestSingle
    dsimp only
    split_ifs
    · exact hidle
    · exact hidle
    · exact hidle
    · cases PlaylistParse.parse_clear_mode clearMode <;> exact hidle
  | stop =>
    unfold Playlist.request requestStop
    dsimp only
    split_ifs <;> exact hidle
  | stopActive =>
    unfold Playlist.request Playlist.stopActive
    dsimp only
    split_ifs <;> exact hidle

end Playlist

/-- The surroundings of a call, with the homing mark as it is. -/
def Env.marked (homed_since_boot : Bool) (env : Env) : Env := { env with homed_since_boot := homed_since_boot }

def Action.marked (homed_since_boot : Bool) : Action → Action
  | .poll env => .poll (env.marked homed_since_boot)
  | .request r => .request r

/-- The table from power-up on: the `Playlist` object, and the mark that homing leaves. -/
structure Booted extends Playlist where
  homed_since_boot : Bool := false

/-- What happens to it. -/
inductive Happening where
  | playlist (a : Action)
  | homing (e : HomingEnd)

namespace Booted

def boot (feed_setting : Option Int) : Booted := { toPlaylist := Playlist.boot feed_setting }

def step (b : Booted) : Happening → Booted
  | .playlist a => { b with toPlaylist := b.toPlaylist.step (a.marked b.homed_since_boot) }
  | .homing e => { b with homed_since_boot := e.mark b.homed_since_boot }

/-- The requests of the auto-play. -/
def autoplay (b : Booted) : Happening → List Requests
  | .playlist (.poll env) => b.toPlaylist.autoplay (env.marked b.homed_since_boot)
  | .playlist (.request _) => []
  | .homing _ => []

variable {b : Booted}

/-- One request at most, while the auto-play is armed. -/
def budget (b : Booted) : Nat := if b.autostart_pending then 1 else 0

theorem noIdleSkip_step (h : b.NoIdleSkip) (happening : Happening) : (b.step happening).NoIdleSkip := by
  cases happening with
  | homing e => exact h
  | playlist a =>
    cases a with
    | request r => exact Playlist.NoIdleSkip.request h r
    | poll env => exact (Playlist.pollLine_autostart h).1

theorem autoplay_pays (h : b.NoIdleSkip) (happening : Happening) :
    (b.autoplay happening).length + (b.step happening).budget ≤ b.budget := by
  cases happening with
  | homing e => exact (Nat.zero_add _).le
  | playlist a =>
    cases a with
    | request r =>
      have hkept : (b.toPlaylist.request r).autostart_pending = b.autostart_pending := by
        rw [Playlist.request_eq]
      unfold budget
      change 0 + (if (b.toPlaylist.request r).autostart_pending then 1 else 0) ≤ _
      rw [hkept]
      exact (Nat.zero_add _).le
    | poll env =>
      have hauto := (@Playlist.pollLine_autostart (env.marked b.homed_since_boot) _ h).2
      have hpending := congrArg Autostart.autostart_pending hauto
      unfold budget
      change (b.toPlaylist.autoplay (env.marked b.homed_since_boot)).length +
        (if (pollLine (env.marked b.homed_since_boot) b.toPlaylist).autostart_pending then 1 else 0) ≤ _
      rw [hpending]
      obtain ⟨hnone, hkept⟩ | ⟨hone, harmed, hdisarmed, _⟩ :=
        Playlist.autoplay_cases (env.marked b.homed_since_boot) b.toPlaylist
      · rw [hnone]
        split_ifs with hset harmed
        · exact Nat.le_refl _
        · exact absurd (hkept hset) harmed
        · exact Nat.zero_le _
        · exact Nat.le_refl _
      · rw [hdisarmed, harmed, if_pos rfl]
        exact hone

/-- The mark is left by a homing that has succeeded. -/
theorem homed_of_run (happenings : List Happening)
    (h : (Transition.run step b happenings).homed_since_boot = true) :
    b.homed_since_boot = true ∨ ∃ e, .homing e ∈ happenings ∧ e.Succeeds := by
  induction happenings generalizing b with
  | nil => exact .inl h
  | cons happening happenings ih =>
    obtain hmarked | ⟨e, hmem, hsucceeds⟩ := ih h
    · cases happening with
      | playlist a => exact .inl hmarked
      | homing e =>
        obtain hhomed | hsucceeds := (e.mark_iff _).mp hmarked
        · exact .inl hhomed
        · exact .inr ⟨e, List.mem_cons_self, hsucceeds⟩
    · exact .inr ⟨e, List.mem_cons_of_mem _ hmem, hsucceeds⟩

end Booted

open Transition in
/-- In a run of a playlist no more pattern lines than `$Playlist/AutoHome` go out from its start
to its first home and from one home to the next. From boot on the auto-play requests one run at
most: on an Off machine with nothing else requested, once a homing has succeeded, and without
stopping a job when the request is consumed. -/
theorem auto_home_spacing_and_autoplay :
    (∀ (p : Playlist) (env : Env) (N : Int) (actions : List Action), 0 < N → p.OpensLeg env →
      Throughout Playlist.step (Playlist.KeepsLeg N) (p.step (.poll env)) actions →
      (trace Playlist.step Playlist.patternLine (p.step (.poll env)) actions).length ≤ N) ∧
    (∀ (feed_setting : Option Int) (happenings : List Happening),
      (trace Booted.step Booted.autoplay (Booted.boot feed_setting) happenings).length ≤ 1) ∧
    (∀ (feed_setting : Option Int) (before : List Happening) (env : Env),
      (run Booted.step (Booted.boot feed_setting) before).autoplay (.playlist (.poll env)) ≠ [] →
      (run Booted.step (Booted.boot feed_setting) before).PlaysAlone
        (env.marked (run Booted.step (Booted.boot feed_setting) before).homed_since_boot) ∧
      ∃ e, .homing e ∈ before ∧ e.Succeeds) := by
  have hboot (feed_setting : Option Int) : (Booted.boot feed_setting).NoIdleSkip := fun _ => rfl
  refine ⟨fun p env N actions hpos hopens hkeeps => Playlist.patternLines_le hpos hopens hkeeps, ?_, ?_⟩
  · intro feed_setting happenings
    exact length_trace_le_of_budget (Q := fun _ _ => True) Booted.budget
      (fun b happening h _ => Booted.noIdleSkip_step h happening)
      (fun b happening h _ => Booted.autoplay_pays h happening) (hboot feed_setting)
      (throughout_of_forall (fun _ _ => trivial) _ happenings)
  · intro feed_setting before env hraises
    have hskip : (run Booted.step (Booted.boot feed_setting) before).NoIdleSkip :=
      (always_of_step (I := fun b : Booted => b.NoIdleSkip)
        (fun b happening h => Booted.noIdleSkip_step h happening) (hboot feed_setting) before).last
    generalize hb : run Booted.step (Booted.boot feed_setting) before = b at hraises hskip ⊢
    obtain ⟨hnone, _⟩ | ⟨_, _, _, hhomed, halone⟩ :=
      Playlist.autoplay_cases (env.marked b.homed_since_boot) b.toPlaylist
    · exact absurd hnone hraises
    · refine ⟨halone hskip, ?_⟩
      rw [← hb] at hhomed
      obtain hmarked | hsucceeds := Booted.homed_of_run before hhomed
      · cases hmarked
      · exact hsucceeds

/-- An idle table whose card holds the one playlist `a`, to be played at boot with a home after
every pattern. -/
private def homingEnv : Env where
  line := true
  homed_since_boot := true
  settings := { auto_home := 1, autostart := bytes "a" }
  files path := if path = bytes "/playlists/a.txt" then some (bytes "/x.thr") else none
  file_exists _ := false

/-- Its pattern is handed over, seen to run and seen to end. -/
private def onePattern : List Action :=
  [.poll homingEnv, .poll { homingEnv with job_active := true, state := .Cycle }, .poll homingEnv]

/-- Homed by a crash home, the table plays `a` at boot. One pattern goes out before the home. -/
theorem auto_home_spacing_and_autoplay_at_boot :
    (Transition.trace Playlist.step Playlist.patternLine ((Playlist.boot none).step (.poll homingEnv))
      onePattern).length ≤ (1 : Int) ∧
    (Transition.run Booted.step (Booted.boot none) [.homing (.crash false)]).PlaysAlone
      (homingEnv.marked (Transition.run Booted.step (Booted.boot none) [.homing (.crash false)]).homed_since_boot) := by
  have hopens : (Playlist.boot none).OpensLeg homingEnv := .inl (by decide)
  have hkeeps : Transition.Throughout Playlist.step (Playlist.KeepsLeg 1)
      ((Playlist.boot none).step (.poll homingEnv)) onePattern :=
    ⟨⟨rfl, by decide, by decide⟩, ⟨rfl, by decide, by decide⟩, ⟨rfl, by decide, by decide⟩, trivial⟩
  have hraises : (Transition.run Booted.step (Booted.boot none) [.homing (.crash false)]).autoplay
      (.playlist (.poll homingEnv)) ≠ [] := by decide
  obtain ⟨hspacing, _, halone⟩ := auto_home_spacing_and_autoplay
  exact ⟨hspacing _ homingEnv 1 onePattern (by decide) hopens hkeeps, (halone none _ homingEnv hraises).1⟩

end DuneWeaver
