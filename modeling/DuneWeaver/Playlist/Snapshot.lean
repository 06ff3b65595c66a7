import DuneWeaver.Playlist.ResolvedPath

namespace DuneWeaver

/-- What a reader is to be told once no run is left. -/
structure RuntimeStatus.IsOff (s : RuntimeStatus) : Prop where
  active : s.active = false
  clearing : s.clearing = false
  pause_remaining : s.pause_remaining = -1
  name : s.name = []
  current : s.current = []
  next : s.next = []
  last : s.last = []

/-- What a reader is to be told about a playlist run that stands at `c`. -/
structure RuntimeStatus.Shows (s : RuntimeStatus) (c : Cursor) : Prop where
  active : s.active = true
  index : s.index = c.index
  total : s.total = c.order.length
  current : s.current = c.current_path
  last : s.last = c.last_pattern

/-- The snapshot of a machine that is Off. -/
structure Published.ShowsOff (p : Published) : Prop where
  active : p.pub_active = false
  clearing : p.pub_clearing = false
  pausing : p.pub_pausing = false
  name : strlcpy 64 p.pub_name = []
  current : strlcpy 160 p.pub_current = []
  next : strlcpy 160 p.pub_next = []
  last : strlcpy 160 p.pub_last = []

/-- A path that the 160-byte fields of the snapshot hold in full. -/
def Fits (path : Bytes) : Prop := 0 ∉ path ∧ path.length < 160

/-- The reading time does not matter: a pause never counts down below zero, so
-1 says that there is none. -/
theorem Published.isOff_iff (p : Published) (now : UInt32) :
    (p.runtimeStatus now).IsOff ↔ p.ShowsOff := by
  have hremaining : (p.runtimeStatus now).pause_remaining = -1 ↔ p.pub_pausing = false := by
    unfold Published.runtimeStatus
    dsimp only
    cases p.pub_pausing with
    | false => simp
    | true =>
      rw [if_pos rfl]
      split_ifs
      · exact iff_of_false (by omega) (by decide)
      · simp
  constructor
  · intro h
    exact ⟨h.active, h.clearing, hremaining.mp h.pause_remaining, h.name, h.current, h.next, h.last⟩
  · intro h
    exact ⟨h.active, h.clearing, hremaining.mpr h.pausing, h.name, h.current, h.next, h.last⟩

/-- The cursor of a run stays inside its order. -/
def Playlist.InRange (p : Playlist) : Prop := p.phase ≠ .Off → p.index < p.order.length

/-- The lines of the playlists that the card delivers fit the snapshot. -/
def Env.LinesFit (env : Env) : Prop :=
  ∀ attempt path content, env.read attempt path = some content → ∀ line ∈ validLines content, Fits line

/-- The paths of a run fit the snapshot. A single run may go by any path, but it
has no slot behind its only one. -/
structure Playlist.PathsKept (p : Playlist) : Prop where
  last : Fits p.last_pattern
  current : p.single = false → Fits p.current_path
  only : p.single = true → p.order.length ≤ 1

namespace Tick

variable {env : Env} {t : Tick}

/-- Publishing an Off machine shows it Off. -/
theorem publish_showsOff (h : t.phase = .Off) : t.publish.ShowsOff := by
  unfold publish
  constructor <;> simp [h]

/-- Publishing a playlist run shows its position, and its paths as far as they
fit. -/
theorem publish_shows_iff (hon : t.phase ≠ .Off) (hsingle : t.single = false)
    (hrange : t.index < t.order.length) (now : UInt32) :
    (t.publish.runtimeStatus now).Shows t.toCursor ↔ Fits t.current_path ∧ Fits t.last_pattern := by
  have hpub : t.publish.pub_active = true ∧ t.publish.pub_index = t.index ∧
      t.publish.pub_total = t.order.length ∧ t.publish.pub_current = strlcpy 160 t.current_path ∧
      t.publish.pub_last = strlcpy 160 t.last_pattern := by
    unfold publish
    simp [hon, hsingle, hrange]
  obtain ⟨hactive, hindex, htotal, hcurrent, hlast⟩ := hpub
  have hfits (path : Bytes) : strlcpy 160 (strlcpy 160 path) = path ↔ Fits path := by
    rw [strlcpy_strlcpy, strlcpy_eq_self_iff (by decide)]
    exact Iff.rfl
  unfold Published.runtimeStatus
  constructor
  · intro h
    exact ⟨(hfits _).mp (hcurrent ▸ h.current), (hfits _).mp (hlast ▸ h.last)⟩
  · rintro ⟨hfitCurrent, hfitLast⟩
    refine ⟨hactive, hindex, htotal, ?_, ?_⟩
    · rw [hcurrent]
      exact (hfits _).mpr hfitCurrent
    · rw [hlast]
      exact (hfits _).mpr hfitLast

/-- A turn that does not end the run keeps the cursor inside its order. -/
theorem Turn.inRange {u : Tick} (h : Turn env t u) (hrange : t.index < t.order.length) : u.InRange := by
  cases h.moved with
  | @gone v hended =>
    rw [hended]
    exact fun hon => absurd (finish_phase env v) hon
  | kept hsame =>
    rw [Playlist.InRange, hsame.index, hsame.order]
    exact fun _ => hrange
  | @read _ _ v w hsame hread hdone =>
    rw [Playlist.InRange, hdone.index, hdone.order, resolveCurrent_eq hread]
    dsimp only
    rw [hsame.index, hsame.order]
    exact fun _ => hrange
  | @left _ v w hsame hslot hdone =>
    rw [Playlist.InRange, hdone.index, hdone.order]
    refine fun _ => hslot.in_range ?_
    rw [hsame.index, hsame.order]
    exact hrange

theorem finish_pathsKept (env : Env) (t : Tick) : (t.finish env).PathsKept := by
  have hempty : Fits [] := ⟨List.not_mem_nil, by decide⟩
  rw [finish_eq]
  exact ⟨hempty, fun _ => hempty, fun _ => Nat.zero_le 1⟩

/-- A path that is read back is a line of the playlist. -/
theorem resolveCurrent_fits {attempt : Nat} {u : Tick} (h : t.resolveCurrent env attempt = some u)
    (hlines : env.LinesFit) (hcurrent : t.playlist_path = [] → Fits t.current_path) : Fits u.current_path := by
  unfold resolveCurrent at h
  split_ifs at h with hplaylist
  · cases h
    exact hcurrent hplaylist
  · cases hread : env.read attempt t.playlist_path with
    | none => simp [hread] at h
    | some delivered =>
      generalize t.order.getD t.index 0 = target at h
      simp only [hread, scanValidLines_eq_visit] at h
      rw [visit_capture _ _ _ (Nat.zero_le _) _ rfl, Nat.sub_zero] at h
      split_ifs at h with hmissing
      cases h
      cases hline : (validLines delivered)[target]? with
      | none => simp [hline] at hmissing
      | some line => exact hlines _ _ _ hread line (List.mem_of_getElem? hline)

theorem Turn.pathsKept {u : Tick} (h : Turn env t u) (hlines : env.LinesFit) (hkept : t.PathsKept) :
    u.PathsKept := by
  cases h.moved with
  | @gone v hended =>
    rw [hended]
    exact finish_pathsKept env v
  | kept hsame hlast =>
    refine ⟨hlast ▸ hkept.last, ?_, ?_⟩
    · rw [hsame.params, hsame.current_path]
      exact hkept.current
    · rw [hsame.params, hsame.order]
      exact hkept.only
  | @read _ _ v w hsame hread hdone hlast =>
    have hframe := resolveCurrent_eq hread
    have hparams : w.toRunParams = t.toRunParams := by rw [hframe, hsame.params]
    have horder : w.order = t.order := by rw [hframe, hsame.order]
    refine ⟨hlast ▸ hkept.last, fun hsingle => ?_, ?_⟩
    · rw [hdone.current_path]
      rw [hdone.params, hparams] at hsingle
      refine resolveCurrent_fits hread hlines fun _ => ?_
      rw [hsame.current_path]
      exact hkept.current hsingle
    · rw [hdone.params, hdone.order, hparams, horder]
      exact hkept.only
  | @left _ v w hsame hslot hdone hlast =>
    -- a single run has no slot to go on to
    have hsingle : t.single = false := by
      by_contra hsingle
      have honly := hkept.only (eq_true_of_ne_false hsingle)
      rw [← hsame.order] at honly
      rw [← hsame.params] at hsingle
      cases hslot with
      | next hmore => omega
      | wrap _ hplaylist => exact hsingle hplaylist
    have hcurrent := hkept.current hsingle
    have hstill : u.single = false := by
      rw [hdone.params, hslot.kin.toRunParams, hsame.params]
      exact hsingle
    refine ⟨?_, fun _ => ?_, fun hon => absurd (hstill.symm.trans hon) (by decide)⟩
    · obtain hlast | hlast := hlast
      · rw [hlast]
        exact hkept.last
      · rw [hlast]
        exact hcurrent
    · rw [hdone.current_path, hslot.paths_eq.2.2.1, hsame.current_path]
      exact hcurrent

theorem playlistFile_ne_nil (env : Env) (name : Bytes) : playlistFile env name ≠ [] := by
  have hrooted (path : Bytes) : (if path.head? = some 47 then path else 47 :: path) ≠ [] := by
    split_ifs with hroot
    · rintro rfl
      cases hroot
    · exact List.cons_ne_nil _ _
  exact hrooted _

/-- A playlist that loads starts on one of its lines. -/
theorem loadPlaylist_fits {name : Bytes} (h : (t.loadPlaylist env name).2 = true) (hlines : env.LinesFit) :
    Fits (t.loadPlaylist env name).1.current_path := by
  obtain ⟨_, start, u, hresolve, hpath, _, _, hloaded⟩ := loadPlaylist_reads h
  have hfits : Fits u.current_path := resolveCurrent_fits hresolve hlines fun hnone =>
    absurd (hpath.symm.trans hnone) (playlistFile_ne_nil env name)
  rw [hloaded]
  exact hfits

/-- A line is handed over by a run that goes on. -/
theorem Turn.on_of_injected {u : Tick} (h : Turn env t u) (hnone : t.injected = none)
    (hinjected : u.injected ≠ none) : u.phase ≠ .Off := by
  obtain hsame | ⟨v, w, _, _, _, rfl | ⟨_, rfl⟩⟩ := h.injected_cases
  · exact absurd (hsame.trans hnone) hinjected
  · exact (by decide : Phase.RunClear ≠ .Off)
  · exact (by decide : Phase.RunPattern ≠ .Off)

/-- A playlist that loads starts on a slot of its order. -/
theorem loadPlaylist_inRange {name : Bytes} (h : (t.loadPlaylist env name).2 = true) :
    (t.loadPlaylist env name).1.index < (t.loadPlaylist env name).1.order.length := by
  obtain ⟨_, start, u, hresolve, _, hindex, hslots, hloaded⟩ := loadPlaylist_reads h
  rw [hloaded, resolveCurrent_eq hresolve]
  dsimp only
  rw [hindex]
  exact hslots

end Tick

namespace Playlist

/-- After the poll, a machine that is Off with no request pending is shown Off,
whenever the snapshot is read. -/
def OffAgrees (t : Tick) : Prop :=
  t.phase = .Off → t.req_run = false → t.req_stop = false → ∀ now, (t.runtimeStatus now).IsOff

/-- After the poll, a playlist run that has not handed over a line is shown as
it is, whenever the snapshot is read. -/
def RunAgrees (t : Tick) : Prop :=
  t.phase ≠ .Off → t.single = false → t.injected = none → ∀ now, (t.runtimeStatus now).Shows t.toCursor

/-- The snapshot agrees with the machine after the poll. -/
def SnapshotAgrees (p : Playlist) : Action → Prop
  | .poll env => OffAgrees (pollLine env p) ∧ RunAgrees (pollLine env p)
  | .request _ => True

/-- The poll starts a playlist. It returns before the snapshot is written. -/
def StartsPlaylist (p : Playlist) : Action → Prop
  | .poll env => p.TakesRun env ∧ p.RunLoads env ∧ (p.begun env).req_single = false
  | .request _ => False

/-- The poll consumes the request for a playlist that does not load, while the
snapshot shows something else than Off. -/
def FailsWhileShown (p : Playlist) : Action → Prop
  | .poll env => p.TakesRun env ∧ ¬ p.RunLoads env ∧ ¬ p.ShowsOff
  | .request _ => False

/-- The paths of a playlist run that is to be shown fit the snapshot. -/
def PathsFit (p : Playlist) : Action → Prop
  | .poll env =>
    let t := pollLine env p
    t.phase ≠ .Off → t.single = false → t.injected = none →
      Fits t.current_path ∧ Fits t.last_pattern
  | .request _ => True

/-- What holds between two polls: an Off machine is shown Off, and the cursor of
a run is inside its order. -/
structure SnapshotInv (p : Playlist) : Prop where
  off : p.phase = .Off → p.ShowsOff
  range : p.InRange

theorem SnapshotInv.request {p : Playlist} (h : p.SnapshotInv) (r : Request) :
    (p.request r).SnapshotInv := by
  rw [request_eq]
  exact ⟨h.off, h.range⟩

theorem SnapshotInv.begun {p : Playlist} (h : p.SnapshotInv) (env : Env) :
    (p.begun env).SnapshotInv := by
  constructor
  · unfold Playlist.begun
    rw [Tick.prelude_phase, Tick.prelude_toPublished]
    exact h.off
  · unfold InRange Playlist.begun
    rw [Tick.prelude_phase, Tick.prelude_toCursor]
    exact h.range

/-- A tick that ends Off with its snapshot written agrees. -/
theorem agrees_of_off {t : Tick} (hoff : t.phase = .Off) (hshows : t.ShowsOff) :
    OffAgrees t ∧ RunAgrees t :=
  ⟨fun _ _ _ now => (t.isOff_iff now).mpr hshows, fun hon => absurd hoff hon⟩

/-- A consumed stop shows the machine Off. -/
theorem consumeStop_showsOff (env : Env) (t : Tick) : (t.consumeStop env).ShowsOff := by
  have hoff := Tick.consumeStop_phase env t
  unfold Tick.consumeStop at hoff ⊢
  exact Tick.publish_showsOff hoff

/-- A turn writes the snapshot unless it hands over a line, so what it leaves is
shown, as far as its paths fit. -/
theorem turn_agrees_iff {env : Env} {t u : Tick} (h : Tick.Turn env t u) (hnone : t.injected = none)
    (hrange : t.index < t.order.length) {closed : Tick}
    (hclosed : closed = if u.injected = none then u.publish else u) :
    OffAgrees closed ∧ RunAgrees closed ↔
      (closed.phase ≠ .Off → closed.single = false → closed.injected = none →
        Fits closed.current_path ∧ Fits closed.last_pattern) := by
  subst hclosed
  by_cases hline : u.injected = none
  · rw [if_pos hline]
    by_cases hoff : u.phase = .Off
    · exact iff_of_true (agrees_of_off hoff (Tick.publish_showsOff hoff)) fun hon => absurd hoff hon
    · have hshown := Tick.publish_shows_iff (t := u) hoff
      constructor
      · rintro ⟨_, hrun⟩ _ hsingle _
        exact (hshown hsingle (h.inRange hrange hoff) 0).mp (hrun hoff hsingle hline 0)
      · intro hfits
        refine ⟨fun h => absurd h hoff, fun _ hsingle _ now => ?_⟩
        exact (hshown hsingle (h.inRange hrange hoff) now).mpr (hfits hoff hsingle hline)
  · rw [if_neg hline]
    have hon := h.on_of_injected hnone hline
    exact iff_of_true ⟨fun hoff => absurd hoff hon, fun _ _ hfree => absurd hfree hline⟩
      fun _ _ hfree => absurd hfree hline

/-- A poll that does not start a playlist shows what it leaves exactly when no
request fails over a snapshot of something else, and the paths fit. -/
theorem pollLine_agrees_iff {p : Playlist} (hinv : p.SnapshotInv) {env : Env}
    (hstart : ¬ p.StartsPlaylist (.poll env)) :
    p.SnapshotAgrees (.poll env) ↔ ¬ p.FailsWhileShown (.poll env) ∧ p.PathsFit (.poll env) := by
  have hbegun := hinv.begun env
  have hpub : (p.begun env).toPublished = p.toPublished := Tick.prelude_toPublished env _
  have hnone : (p.begun env).injected = none := Tick.prelude_injected env _
  have hnoRun (h : (p.begun env).req_run = false ∨ (p.begun env).req_stop = true) :
      ¬ p.FailsWhileShown (.poll env) := by
    rintro ⟨⟨hrun, hstop⟩, _⟩
    simp_all
  simp only [SnapshotAgrees, PathsFit, pollLine_eq]
  obtain ⟨hoff, hrun, _, hdone⟩ | ⟨hstop, hdone⟩ | ⟨hstop, hrun, hdone⟩ | ⟨_, hrun, hon, u, _, hturn, hdone⟩ :=
    Tick.dispatch_cases env (p.begun env)
  · rw [hdone]
    exact iff_of_true (agrees_of_off hoff (hbegun.off hoff))
      ⟨hnoRun (.inl hrun), fun hon => absurd hoff hon⟩
  · have hoff := Tick.consumeStop_phase env (p.begun env)
    have hshown := consumeStop_showsOff env (p.begun env)
    rw [hdone]
    exact iff_of_true (agrees_of_off hoff hshown) ⟨hnoRun (.inr hstop), fun hon => absurd hoff hon⟩
  · have htakes : p.TakesRun env := ⟨hrun, by simp [hstop]⟩
    obtain ⟨hsingle, hconsumed⟩ | ⟨hsingle, hok, _⟩ | ⟨hsingle, hok, hconsumed⟩ :=
      Tick.consumeRun_cases env (p.begun env)
    · have hloads : p.RunLoads env := .inl hsingle
      have hstill : ((p.begun env).takeRequest env).single = true := by
        rw [Tick.takeRequest_eq]
        exact hsingle
      rw [hdone, hconsumed]
      refine iff_of_true ⟨fun hoff => absurd hoff (by decide : Phase.NextItem ≠ .Off), fun _ hplaylist => ?_⟩
        ⟨fun hfails => hfails.2.1 hloads, fun _ hplaylist => ?_⟩
      all_goals exact absurd (hstill.symm.trans hplaylist) (by decide)
    · exact absurd ⟨htakes, .inr hok, hsingle⟩ hstart
    · have hloads : ¬ p.RunLoads env := by simp [RunLoads, hsingle, hok]
      obtain ⟨cursor, since_home, hframe, _⟩ :=
        Tick.loadPlaylist_frame env (p.begun env).req_name ((p.begun env).takeRequest env)
      have hend : (p.begun env).dispatch env = Tick.finish env { (p.begun env).takeRequest env with
          toCursor := cursor, since_home := since_home } := by
        rw [hdone, hconsumed, hframe]
      have hshown : ((p.begun env).dispatch env).toPublished = p.toPublished := by
        rw [hend, Tick.finish_toPublished, Tick.takeRequest_eq]
        exact hpub
      have hidle : ((p.begun env).dispatch env).phase = .Off ∧
          ((p.begun env).dispatch env).req_run = false ∧
          ((p.begun env).dispatch env).req_stop = false := by
        rw [hend, Tick.finish_req_run, Tick.finish_req_stop, Tick.takeRequest_eq]
        exact ⟨rfl, rfl, hstop⟩
      obtain ⟨hoff, hnoRun, hnoStop⟩ := hidle
      have hagrees : OffAgrees ((p.begun env).dispatch env) ↔ p.ShowsOff := by
        unfold OffAgrees
        simp only [hshown, Published.isOff_iff]
        exact ⟨fun h => h hoff hnoRun hnoStop 0, fun h _ _ _ _ => h⟩
      rw [hagrees]
      constructor
      · rintro ⟨hoffShown, _⟩
        exact ⟨fun hfails => hfails.2.2 hoffShown, fun hon => absurd hoff hon⟩
      · rintro ⟨hnot, _⟩
        exact ⟨by_contra fun hshow => hnot ⟨htakes, hloads, hshow⟩, fun hon => absurd hoff hon⟩
  · rw [turn_agrees_iff hturn hnone (hbegun.range hon) hdone]
    exact ⟨fun hfits => ⟨hnoRun (.inl hrun), hfits⟩, fun h => h.2⟩

/-- Unless a request fails over a snapshot of something else, a poll keeps the
snapshot of an Off machine and the range of the cursor. -/
theorem SnapshotInv.poll {p : Playlist} (h : p.SnapshotInv) {env : Env}
    (hfails : ¬ p.FailsWhileShown (.poll env)) : (pollLine env p).SnapshotInv := by
  have hbegun := h.begun env
  rw [pollLine_eq]
  obtain ⟨hoff, _, _, hdone⟩ | ⟨_, hdone⟩ | ⟨hstop, hrun, hdone⟩ | ⟨_, _, hon, u, _, hturn, hdone⟩ :=
    Tick.dispatch_cases env (p.begun env)
  · rw [hdone]
    exact ⟨hbegun.off, hbegun.range⟩
  · have hoff := Tick.consumeStop_phase env (p.begun env)
    have hshown := consumeStop_showsOff env (p.begun env)
    rw [hdone]
    exact ⟨fun _ => hshown, fun hon => absurd hoff hon⟩
  · have htakes : p.TakesRun env := ⟨hrun, by simp [hstop]⟩
    rw [hdone]
    obtain ⟨_, hconsumed⟩ | ⟨_, hok, hconsumed⟩ | ⟨hsingle, hok, hconsumed⟩ :=
      Tick.consumeRun_cases env (p.begun env)
    · rw [hconsumed]
      exact ⟨fun hoff => absurd hoff (by decide : Phase.NextItem ≠ .Off), fun _ => Nat.zero_lt_one⟩
    · rw [hconsumed]
      exact ⟨fun hoff => absurd hoff (by decide : Phase.NextItem ≠ .Off),
        fun _ => Tick.loadPlaylist_inRange hok⟩
    · have hloads : ¬ p.RunLoads env := by simp [RunLoads, hsingle, hok]
      have hshown : p.ShowsOff := by_contra fun hshow => hfails ⟨htakes, hloads, hshow⟩
      obtain ⟨cursor, since_home, hframe, _⟩ :=
        Tick.loadPlaylist_frame env (p.begun env).req_name ((p.begun env).takeRequest env)
      have hpub : ((p.begun env).takeRequest env).toPublished = p.toPublished := by
        rw [Tick.takeRequest_eq]
        exact Tick.prelude_toPublished env _
      rw [hconsumed]
      refine ⟨fun _ => ?_, fun hon => absurd (Tick.finish_phase env _) hon⟩
      rw [Tick.finish_toPublished, hframe, hpub]
      exact hshown
  · have hrange := hturn.inRange (hbegun.range hon)
    have hnone : (p.begun env).injected = none := Tick.prelude_injected env _
    rw [hdone]
    split_ifs with hline
    · exact ⟨fun hoff => Tick.publish_showsOff hoff, hrange⟩
    · exact ⟨fun hoff => absurd hoff (hturn.on_of_injected hnone hline), hrange⟩

/-- The starting poll apart, which returns before the snapshot is written, every
poll of a run from boot leaves a snapshot that agrees with the machine exactly
when no request of the run fails to load over a snapshot of something else, and
the paths to be shown fit the snapshot. -/
theorem snapshot_agrees_iff (feed_setting : Option Int) (actions : List Action) :
    Transition.Throughout step (fun p a => ¬ p.StartsPlaylist a → p.SnapshotAgrees a)
        (boot feed_setting) actions ↔
      Transition.Throughout step
        (fun p a => ¬ p.StartsPlaylist a → ¬ p.FailsWhileShown a ∧ p.PathsFit a)
        (boot feed_setting) actions := by
  refine Transition.throughout_iff_of_invariant (I := SnapshotInv) (fun p a hinv hgood => ?_)
    (fun p a hinv => ?_) ⟨fun _ => ?_, fun hon => absurd rfl hon⟩ actions
  · cases a with
    | request r => exact hinv.request r
    | poll env =>
      refine hinv.poll fun hfails => ?_
      have hstart : ¬ p.StartsPlaylist (.poll env) := fun hstart => hfails.2.1 hstart.2.1
      exact (hgood hstart).1 hfails
  · cases a with
    | request r => exact iff_of_true (fun _ => trivial) fun _ => ⟨not_false, trivial⟩
    | poll env => exact forall_congr' fun hstart => pollLine_agrees_iff hinv hstart
  · constructor <;> simp [boot]

theorem PathsKept.poll {p : Playlist} (h : p.PathsKept) {env : Env} (hlines : env.LinesFit) :
    (pollLine env p).PathsKept := by
  have hbegun : (p.begun env).PathsKept := by
    have hcursor : (p.begun env).toCursor = p.toCursor := Tick.prelude_toCursor env _
    have hparams : (p.begun env).toRunParams = p.toRunParams := Tick.prelude_toRunParams env _
    constructor
    · rw [hcursor]
      exact h.last
    · rw [hcursor, hparams]
      exact h.current
    · rw [hcursor, hparams]
      exact h.only
  rw [pollLine_eq]
  obtain ⟨_, _, _, hdone⟩ | ⟨_, hdone⟩ | ⟨_, _, hdone⟩ | ⟨_, _, _, u, _, hturn, hdone⟩ :=
    Tick.dispatch_cases env (p.begun env)
  · rw [hdone]
    exact ⟨hbegun.last, hbegun.current, hbegun.only⟩
  · rw [hdone]
    unfold Tick.consumeStop
    dsimp only
    split_ifs
    · rw [Tick.stopJob_eq]
      have hended := Tick.finish_pathsKept env { p.begun env with req_stop := false, req_skip := false }
      exact ⟨hended.last, hended.current, hended.only⟩
    · exact ⟨hbegun.last, hbegun.current, hbegun.only⟩
  · obtain ⟨cursor, since_home, hframe, hlast⟩ :=
      Tick.loadPlaylist_frame env (p.begun env).req_name ((p.begun env).takeRequest env)
    have htaken := Tick.takeRequest_eq env (p.begun env)
    rw [hdone]
    obtain ⟨hsingle, hconsumed⟩ | ⟨hsingle, hok, hconsumed⟩ | ⟨_, _, hconsumed⟩ :=
      Tick.consumeRun_cases env (p.begun env)
    · rw [hconsumed, htaken]
      refine ⟨hbegun.last, fun hplaylist => ?_, fun _ => le_rfl⟩
      exact absurd (hsingle.symm.trans hplaylist) (by decide)
    · have hfits := Tick.loadPlaylist_fits hok hlines
      rw [hconsumed]
      refine ⟨?_, fun _ => hfits, fun hon => ?_⟩
      · rw [hframe]
        dsimp only
        rw [hlast, htaken]
        exact hbegun.last
      · rw [hframe, htaken] at hon
        exact absurd (hsingle.symm.trans hon) (by decide)
    · rw [hconsumed]
      exact Tick.finish_pathsKept env _
  · obtain ⟨published, hclosed⟩ := Tick.turn_closed u
    have hkept := hturn.pathsKept hlines hbegun
    rw [hdone, hclosed]
    exact ⟨hkept.last, hkept.current, hkept.only⟩

/-- The paths to be shown fit the snapshot as long as the lines of the playlists do. -/
theorem throughout_pathsFit (feed_setting : Option Int) (actions : List Action)
    (hlines : ∀ env, .poll env ∈ actions → env.LinesFit) :
    Transition.Throughout step PathsFit (boot feed_setting) actions := by
  have hall : Transition.Throughout step (fun _ a => ∀ env, a = .poll env → env.LinesFit)
      (boot feed_setting) actions :=
    by
    refine Transition.throughout_of_mem (fun a ha env hpoll => ?_) _
    subst hpoll
    exact hlines env ha
  refine Transition.throughout_of_invariant (I := PathsKept) (fun p a hkept hfit => ?_)
    (fun p a hkept hfit => ?_) (Tick.finish_pathsKept {} { toPlaylist := boot feed_setting }) hall
  · cases a with
    | request r =>
      rw [step, request_eq]
      exact ⟨hkept.last, hkept.current, hkept.only⟩
    | poll env => exact hkept.poll (hfit env rfl)
  · cases a with
    | request r => trivial
    | poll env =>
      have hafter := hkept.poll (hfit env rfl)
      exact fun _ hplaylist _ => ⟨hafter.current hplaylist, hafter.last⟩

/-- An idle table whose card holds the one playlist `a`. -/
private def onePlaylistEnv : Env where
  files path := if path = bytes "/playlists/a.txt" then some (bytes "/x.thr") else none

/-- A restart that fails to load leaves its run shown as active for good: the
machine is Off, and no later poll writes the snapshot. -/
theorem snapshot_stale_after_failed_restart :
    ¬ ∀ (feed_setting : Option Int) (actions : List Action),
      Transition.Throughout step SnapshotAgrees (boot feed_setting) actions := by
  intro h
  obtain ⟨_, _, _, _, _, ⟨hoff, _⟩, _⟩ := h none [.request (.run (bytes "a") .Idle),
    .poll onePlaylistEnv, .poll onePlaylistEnv, .request (.run (bytes "b") .Idle),
    .poll onePlaylistEnv, .poll onePlaylistEnv]
  exact absurd (hoff (by decide) (by decide) (by decide) 0).active (by decide)

end Playlist

end DuneWeaver
