import DuneWeaver.Playlist.Turn
import DuneWeaver.Transition.Run

namespace DuneWeaver

section Capture

variable (target : Nat) (want_next : Bool) (next_target : Nat)

/-- Past its target, the callback keeps what it has found. -/
private theorem visit_capture_past {valid : Nat} (hpast : target < valid) (found : Bytes × Bytes)
    (items : List Bytes) :
    (visit (Tick.capture target want_next next_target) found valid items).1 = found.1 := by
  induction items generalizing valid found with
  | nil => rfl
  | cons p items ih =>
    have hkept : (Tick.capture target want_next next_target found valid p).1.1 = found.1 := by
      unfold Tick.capture
      dsimp only
      rw [if_neg (by omega : ¬ valid = target)]
      split_ifs <;> rfl
    rw [visit]
    dsimp only
    split_ifs
    · rw [ih (by omega), hkept]
    · exact hkept

/-- Before its target, the callback goes on until it comes to it. -/
theorem visit_capture {valid : Nat} (hbefore : valid ≤ target) (found : Bytes × Bytes)
    (hnone : found.1 = []) (items : List Bytes) :
    (visit (Tick.capture target want_next next_target) found valid items).1 =
      items[target - valid]?.getD [] := by
  induction items generalizing valid found with
  | nil => simpa [visit] using hnone
  | cons p items ih =>
    rw [visit]
    dsimp only
    by_cases hhere : valid = target
    · have hfound : (Tick.capture target want_next next_target found valid p).1.1 = p := by
        unfold Tick.capture
        simp [hhere]
      subst hhere
      simp only [Nat.sub_self, List.getElem?_cons_zero, Option.getD_some]
      split_ifs
      · rw [visit_capture_past _ _ _ (Nat.lt_succ_self _), hfound]
      · exact hfound
    · have hkept : (Tick.capture target want_next next_target found valid p).1.1 = [] ∧
          (Tick.capture target want_next next_target found valid p).2 = true := by
        unfold Tick.capture
        dsimp only
        rw [if_neg hhere]
        split_ifs <;> simp [hnone]
      obtain ⟨hstill, hgo⟩ := hkept
      rw [if_pos hgo, ih (by omega) _ hstill]
      have hoffset : target - valid = (target - (valid + 1)) + 1 := by omega
      rw [hoffset, List.getElem?_cons_succ]

end Capture

/-- The line of a playlist file that the slot of an order stands for. -/
def slotLine (content : Bytes) (order : List Nat) (index : Nat) : Option Bytes :=
  order[index]?.bind ((validLines content)[·]?)

/-- The read breaks off inside that line of the file, and delivers a part of it
for the whole. -/
def Env.Tears (env : Env) (attempt : Nat) (path : Bytes) (line : Nat) : Prop :=
  ∃ delivered text, env.read attempt path = some delivered ∧
    (validLines delivered)[line]? = some text ∧
    ((env.files path).bind fun content => (validLines content)[line]?) ≠ some text

/-- A read without a fault delivers the file as it is. -/
theorem Env.not_tears {env : Env} {attempt : Nat} (hfault : env.fault attempt = .none) (path : Bytes)
    (line : Nat) : ¬ env.Tears attempt path line := by
  rintro ⟨delivered, text, hread, hline, htorn⟩
  have hfile : env.files path = some delivered := by
    unfold Env.read at hread
    rw [hfault] at hread
    exact hread
  rw [hfile, Option.bind_some] at htorn
  exact htorn hline

namespace Tick

variable {env : Env} {t : Tick}

/-- A slot that is read back gets the line of the order, unless the read breaks
off inside it. -/
theorem resolveCurrent_line {attempt : Nat} {u : Tick} (h : t.resolveCurrent env attempt = some u)
    (hplaylist : t.playlist_path ≠ []) {content : Bytes} (hfile : env.files t.playlist_path = some content)
    (hwhole : ∀ line, t.order[t.index]? = some line → ¬ env.Tears attempt t.playlist_path line) :
    slotLine content t.order t.index = some u.current_path := by
  unfold resolveCurrent at h
  rw [if_neg hplaylist] at h
  split_ifs at h with hrange
  cases hread : env.read attempt t.playlist_path with
  | none => simp [hread] at h
  | some delivered =>
    have hslot : t.order[t.index]? = some (t.order.getD t.index 0) := by
      simp [List.getElem?_eq_getElem (by omega : t.index < t.order.length)]
    generalize t.order.getD t.index 0 = line at hslot h
    simp only [hread, scanValidLines_eq_visit] at h
    rw [visit_capture _ _ _ (Nat.zero_le _) _ rfl, Nat.sub_zero] at h
    split_ifs at h with hmissing
    cases h
    have hdelivered : (validLines delivered)[line]? =
        some ((validLines delivered)[line]?.getD []) := by
      cases hline : (validLines delivered)[line]? with
      | none => simp [hline] at hmissing
      | some text => rfl
    have hkept := hwhole line hslot
    unfold slotLine
    rw [hslot, Option.bind_some]
    by_contra htorn
    refine hkept ⟨delivered, _, hread, hdelivered, ?_⟩
    rw [hfile, Option.bind_some]
    exact htorn

/-- The slot that follows the current one. -/
def nextIndex (t : Tick) : Nat := if t.index + 1 < t.order.length then t.index + 1 else 0

/-- Leaving the slot wraps the run, and the wrap shuffles an order in which there
is something to shuffle. -/
def Redraws (env : Env) (t : Tick) : Prop :=
  t.order.length ≤ t.index + 1 ∧ 1 < t.order.length ∧ t.single = false ∧ t.runMode env = MODE_LOOP ∧
    t.runShuffle env ≠ 0

instance (env : Env) (t : Tick) : Decidable (Redraws env t) := inferInstanceAs (Decidable (_ ∧ _))

theorem NextSlot.index_eq {u : Tick} (h : NextSlot env t u) : u.index = t.nextIndex := by
  unfold nextIndex
  cases h with
  | next hmore => rw [if_pos hmore]
  | wrap hlast => rw [if_neg (Nat.not_lt.mpr hlast)]

theorem shuffleOrder_of_length_le_one (esp_random : Nat → UInt32) {order : List Nat}
    (hshort : order.length ≤ 1) : shuffleOrder esp_random order = order := by
  unfold shuffleOrder
  rw [Nat.sub_eq_zero_of_le hshort]
  rfl

/-- Only a wrap that redraws the order changes it. -/
theorem NextSlot.order_eq {u : Tick} (h : NextSlot env t u) (hkept : ¬ Redraws env t) :
    u.order = t.order := by
  cases h with
  | next => rfl
  | wrap hlast hsingle hloop =>
    dsimp only
    split_ifs with hshuffle
    · refine shuffleOrder_of_length_le_one _ (Nat.not_lt.mp fun hlong => hkept ?_)
      exact ⟨hlast, hlong, hsingle, hloop, hshuffle⟩
    · rfl

/-- The path that is cached for the current slot is the one of its line in the
playlist file. -/
def PathAgrees (content : Bytes) (p : Playlist) : Prop :=
  p.playlist_path ≠ [] → p.resolved_index = some p.index →
    slotLine content p.order p.index = some p.current_path

/-- What the machine knows of its cached path: it is the line of its slot in the
order it was resolved in, and that order still stands while the slot is the
current one. -/
structure Caches (content : Bytes) (resolved_order : List Nat) (p : Playlist) : Prop where
  line : p.playlist_path ≠ [] → ∀ slot, p.resolved_index = some slot →
    slotLine content resolved_order slot = some p.current_path
  stands : p.playlist_path ≠ [] → p.resolved_index = some p.index → p.order = resolved_order

theorem Caches.pathAgrees {content : Bytes} {resolved_order : List Nat} {p : Playlist}
    (h : Caches content resolved_order p) : PathAgrees content p := by
  intro hplaylist hcached
  rw [h.stands hplaylist hcached]
  exact h.line hplaylist _ hcached

theorem caches_of_over (content : Bytes) (resolved_order : List Nat) {p : Playlist}
    (hover : p.playlist_path = []) : Caches content resolved_order p :=
  ⟨fun hplaylist => absurd hover hplaylist, fun hplaylist => absurd hover hplaylist⟩

/-- The slot that follows counts as resolved, but its path was cached before the
order was redrawn, or the order is redrawn now. -/
def NextStale (resolved_order : List Nat) (env : Env) (t : Tick) : Prop :=
  t.playlist_path ≠ [] ∧ t.resolved_index = some t.nextIndex ∧
    (t.order ≠ resolved_order ∨ Redraws env t)

instance (resolved_order : List Nat) (env : Env) (t : Tick) : Decidable (NextStale resolved_order env t) :=
  inferInstanceAs (Decidable (_ ∧ _))

/-- The call gives up the slot or completes it: it skips it while deciding, finds
it unreadable, sees its clear skipped, sees its clear or its pattern not start,
or sees its pattern end. -/
def Leaves (env : Env) (t : Tick) : Prop :=
  (∃ u, AtGate env t u true ∧ (u.req_skip = true ∨
    Ready env u ∧ u.resolved_index ≠ some u.index ∧ u.resolveCurrent env 0 = none)) ∨
  ((t.phase = .RunClear ∨ t.phase = .RunPattern) ∧ t.req_skip = false ∧ env.job_active = false ∧
    ((t.job_seen = false ∧ env.now - t.inject_ms > INJECT_TIMEOUT_MS) ∨
      (t.job_seen = true ∧ env.state = .Idle ∧ (t.phase = .RunPattern ∨ t.skip_active = true))))

/-- The call reads the current slot back. -/
def ReadsSlot (env : Env) (t : Tick) : Prop :=
  ∃ u, AtGate env t u true ∧ Ready env u ∧ u.resolved_index ≠ some u.index

/-- The slot, the order it is a slot of and the cached path are the same, in the
same run. -/
structure SameSlot (p q : Playlist) : Prop where
  params : q.toRunParams = p.toRunParams
  order : q.order = p.order
  index : q.index = p.index
  resolved_index : q.resolved_index = p.resolved_index
  playlist_path : q.playlist_path = p.playlist_path
  current_path : q.current_path = p.current_path

section SameSlot

variable {p q : Playlist}

theorem sameSlot_of_cursor (hparams : q.toRunParams = p.toRunParams) (h : q.toCursor = p.toCursor) :
    SameSlot p q :=
  ⟨hparams, congrArg Cursor.order h, congrArg Cursor.index h, congrArg Cursor.resolved_index h,
    congrArg Cursor.playlist_path h, congrArg Cursor.current_path h⟩

theorem SameSlot.trans {r : Playlist} (h : SameSlot p q) (h' : SameSlot q r) : SameSlot p r :=
  ⟨h'.params.trans h.params, h'.order.trans h.order, h'.index.trans h.index,
    h'.resolved_index.trans h.resolved_index, h'.playlist_path.trans h.playlist_path,
    h'.current_path.trans h.current_path⟩

theorem SameSlot.redraws_iff {u : Tick} (h : SameSlot t.toPlaylist u.toPlaylist) :
    Redraws env u ↔ Redraws env t := by
  unfold Redraws runMode runShuffle
  rw [h.order, h.index, h.params]

theorem SameSlot.caches (h : SameSlot p q) {content : Bytes} {resolved_order : List Nat}
    (hcaches : Caches content resolved_order p) : Caches content resolved_order q := by
  constructor
  · rw [h.playlist_path, h.resolved_index, h.current_path]
    exact hcaches.line
  · rw [h.playlist_path, h.resolved_index, h.index, h.order]
    exact hcaches.stands

/-- The order the cached path was resolved in, once the object has gone from
`before` to `after`: a path that is read back is resolved in the order it finds. -/
def resolvedOrder (resolved_order : List Nat) (before after : Playlist) : List Nat :=
  if after.resolved_index = before.resolved_index then resolved_order else after.order

theorem SameSlot.caches_resolvedOrder (h : SameSlot p q) {content : Bytes} {resolved_order : List Nat}
    (hcaches : Caches content resolved_order p) : Caches content (resolvedOrder resolved_order p q) q := by
  rw [resolvedOrder, if_pos h.resolved_index]
  exact h.caches hcaches

end SameSlot

/-- Going on to the next slot leaves the paths alone. -/
theorem NextSlot.paths_eq {u : Tick} (h : NextSlot env t u) :
    u.playlist_path = t.playlist_path ∧ u.resolved_index = t.resolved_index ∧
      u.current_path = t.current_path ∧ u.last_pattern = t.last_pattern := by
  cases h with
  | next => exact ⟨rfl, rfl, rfl, rfl⟩
  | wrap => exact ⟨rfl, rfl, rfl, rfl⟩

/-- What a turn can do to the slot, its cached path and the last pattern. -/
inductive Moved (env : Env) (t u : Tick) : Prop
  | gone {v : Tick} (hended : u = v.finish env)
  | kept (hsame : SameSlot t.toPlaylist u.toPlaylist) (hlast : u.last_pattern = t.last_pattern)
  | read (hreads : ReadsSlot env t) (hunread : t.resolved_index ≠ some t.index) {v w : Tick}
      (hsame : SameSlot t.toPlaylist v.toPlaylist) (hread : v.resolveCurrent env 0 = some w)
      (hdone : SameSlot { w.toPlaylist with resolved_index := some w.index } u.toPlaylist)
      (hlast : u.last_pattern = t.last_pattern)
  | left (hleaves : Leaves env t) {v w : Tick} (hsame : SameSlot t.toPlaylist v.toPlaylist)
      (hslot : NextSlot env v w) (hdone : SameSlot w.toPlaylist u.toPlaylist)
      (hlast : u.last_pattern = t.last_pattern ∨ u.last_pattern = t.current_path)

theorem NextSlot.moved {v w u : Tick} (h : NextSlot env v w) (hleaves : Leaves env t)
    (hcursor : v.toCursor = t.toCursor) (hparams : v.toRunParams = t.toRunParams)
    (hdone : u.toCursor = w.toCursor) (hran : u.toRunParams = w.toRunParams) : Moved env t u := by
  refine .left hleaves (sameSlot_of_cursor hparams hcursor) h (sameSlot_of_cursor hran hdone) (.inl ?_)
  exact (congrArg Cursor.last_pattern hdone).trans
    (h.paths_eq.2.2.2.trans (congrArg Cursor.last_pattern hcursor))

theorem advanceIndex_moved {u : Tick} (hleaves : Leaves env t) (hcursor : u.toCursor = t.toCursor)
    (hparams : u.toRunParams = t.toRunParams) : Moved env t (u.advanceIndex env).1 := by
  obtain ⟨v, hslot, hadvance⟩ | ⟨v, _, hadvance⟩ := u.advanceIndex_cases env
  · rw [hadvance]
    exact hslot.moved hleaves hcursor hparams rfl rfl
  · rw [hadvance]
    exact .gone rfl

theorem nextSlot_moved {u : Tick} (hleaves : Leaves env t) (hcursor : u.toCursor = t.toCursor)
    (hparams : u.toRunParams = t.toRunParams) : Moved env t (u.nextSlot env) := by
  obtain ⟨v, hslot, hnext⟩ | ⟨v, _, hnext⟩ := u.nextSlot_cases env
  · rw [hnext]
    exact hslot.moved hleaves hcursor hparams rfl rfl
  · rw [hnext]
    exact .gone rfl

theorem Turn.moved {u : Tick} (h : Turn env t u) : Moved env t u := by
  have hkept {v : Tick} (hcursor : v.toCursor = t.toCursor) (hparams : v.toRunParams = t.toRunParams) :
      Moved env t v :=
    .kept (sameSlot_of_cursor hparams hcursor) (congrArg Cursor.last_pattern hcursor)
  have hgated {v : Tick} {ok : Bool} (hgate : AtGate env t v ok) :
      v.toCursor = t.toCursor ∧ v.toRunParams = t.toRunParams := by
    obtain ⟨_, _, _, rfl⟩ := quietGate_frame hgate.gate
    exact ⟨rfl, rfl⟩
  have hresolve {v w x : Tick} (hgate : AtGate env t v true) (hready : Ready env v)
      (hresolved : Resolved env v w) (hdone : SameSlot w.toPlaylist x.toPlaylist)
      (hlast : x.last_pattern = w.last_pattern) : Moved env t x := by
    obtain ⟨hcursor, hparams⟩ := hgated hgate
    have hsame : SameSlot t.toPlaylist v.toPlaylist := sameSlot_of_cursor hparams hcursor
    have hlasting := congrArg Cursor.last_pattern hcursor
    cases hresolved with
    | cached => exact .kept (hsame.trans hdone) (hlast.trans hlasting)
    | read hunread hread =>
      refine .read ⟨v, hgate, hready, hunread⟩ ?_ hsame hread hdone ?_
      · rw [← hsame.index, ← hsame.resolved_index]
        exact hunread
      · rw [hlast, resolveCurrent_eq hread]
        exact hlasting
  cases h with
  | canceled => exact .gone rfl
  | waited => exact hkept rfl rfl
  | gated hgate => exact hkept (hgated hgate).1 (hgated hgate).2
  | deferred hgate => exact hkept (hgated hgate).1 (hgated hgate).2
  | skipped hgate hskip =>
    obtain ⟨hcursor, hparams⟩ := hgated hgate
    refine advanceIndex_moved (.inl ⟨_, hgate, .inl hskip⟩) ?_ ?_
    · exact hcursor
    · exact hparams
  | home hgate =>
    obtain ⟨hcursor, hparams⟩ := hgated hgate
    refine hkept ?_ ?_
    · exact hcursor
    · exact hparams
  | unreadableEnd => exact .gone rfl
  | unreadable hgate hready hunread hread =>
    obtain ⟨hcursor, hparams⟩ := hgated hgate
    refine advanceIndex_moved (.inl ⟨_, hgate, .inr ⟨hready, hunread, hread⟩⟩) ?_ ?_
    · exact hcursor
    · exact hparams
  | clear hgate hready hresolved =>
    exact hresolve hgate hready hresolved ⟨rfl, rfl, rfl, rfl, rfl, rfl⟩ rfl
  | pattern hgate hready hresolved =>
    exact hresolve hgate hready hresolved ⟨rfl, rfl, rfl, rfl, rfl, rfl⟩ rfl
  | homeSeen => exact hkept rfl rfl
  | homed => exact hkept rfl rfl
  | skipRun =>
    refine hkept ?_ ?_
    all_goals rw [stopJob_toPlaylist]
  | jobSeen => exact hkept rfl rfl
  | notStarted hphase hskip hseen hjob hlate =>
    have hleaves : Leaves env t := .inr ⟨hphase, hskip, hjob, .inl ⟨hseen, hlate⟩⟩
    obtain ⟨v, hkin, hcursor, hfailed | hfailed⟩ := startFailed_cases env t
    · rw [hfailed]
      exact .gone rfl
    · rw [hfailed]
      exact nextSlot_moved hleaves hcursor hkin.toRunParams
  | cleared hphase hskip hseen hjob hidle =>
    obtain ⟨v, hkin, hcursor, ⟨hdone, _⟩ | ⟨hactive, hdone⟩⟩ := clearDone_cases env t
    · rw [hdone]
      exact hkept hcursor hkin.toRunParams
    · rw [hdone]
      refine nextSlot_moved ?_ hcursor hkin.toRunParams
      exact .inr ⟨.inl hphase, hskip, hjob, .inr ⟨hseen, hidle, .inr hactive⟩⟩
  | drawn hphase hskip hseen hjob hidle =>
    have hleaves : Leaves env t := .inr ⟨.inr hphase, hskip, hjob, .inr ⟨hseen, hidle, .inl hphase⟩⟩
    obtain ⟨v, w, hslot, hkin, hcursor, _, hdone⟩ | ⟨v, _, hdone⟩ := patternDone_cases env t
    · rw [hdone]
      have hsame : SameSlot t.toPlaylist t.patternEnded.toPlaylist := ⟨rfl, rfl, rfl, rfl, rfl, rfl⟩
      refine .left hleaves hsame hslot (sameSlot_of_cursor hkin.toRunParams hcursor) (.inr ?_)
      exact (congrArg Cursor.last_pattern hcursor).trans hslot.paths_eq.2.2.2
    · rw [hdone]
      exact .gone rfl
  | pauseSkipped => exact hkept rfl rfl
  | paused => exact hkept rfl rfl

/-- What keeps the cached path right through a turn: it does not leave for a slot
with a stale path, and it does not read a torn line. -/
structure Sound (content : Bytes) (resolved_order : List Nat) (env : Env) (t : Tick) : Prop where
  steady : t.playlist_path ≠ [] → env.files t.playlist_path = some content
  fresh : Leaves env t → ¬ NextStale resolved_order env t
  whole : ReadsSlot env t → ∀ line, t.order[t.index]? = some line → ¬ env.Tears 0 t.playlist_path line

/-- A turn keeps the cached path right. -/
theorem Moved.caches {content : Bytes} {resolved_order : List Nat} {u : Tick} (h : Moved env t u)
    (hsound : Sound content resolved_order env t) (hcaches : Caches content resolved_order t.toPlaylist) :
    Caches content (resolvedOrder resolved_order t.toPlaylist u.toPlaylist) u.toPlaylist := by
  cases h with
  | gone hended =>
    rw [hended, finish_eq]
    exact caches_of_over _ _ rfl
  | kept hsame => exact hsame.caches_resolvedOrder hcaches
  | @read hreads hunread v w hsame hread hdone =>
    have hframe := resolveCurrent_eq hread
    have hindex : w.index = t.index := by rw [hframe, hsame.index]
    have horder : u.order = v.order := by rw [hdone.order, hframe]
    have hresolved : u.resolved_index = some t.index := by rw [hdone.resolved_index, hindex]
    rw [resolvedOrder, if_neg (by rw [hresolved]; exact hunread.symm)]
    refine ⟨fun hplaylist slot hslot => ?_, fun _ _ => rfl⟩
    have hpath : u.playlist_path = v.playlist_path := by rw [hdone.playlist_path, hframe]
    rw [hpath] at hplaylist
    have hfile : env.files v.playlist_path = some content := by
      rw [hsame.playlist_path] at hplaylist ⊢
      exact hsound.steady hplaylist
    have hline := resolveCurrent_line hread hplaylist hfile (by
      rw [hsame.order, hsame.index, hsame.playlist_path]
      exact hsound.whole hreads)
    have hat : slot = v.index := by
      rw [hsame.index]
      exact (Option.some.inj (hresolved.symm.trans hslot)).symm
    rw [hat, horder, hdone.current_path]
    exact hline
  | @left hleaves v w hsame hslot hdone =>
    obtain ⟨hpath, hresolved, hcurrent, _⟩ := hslot.paths_eq
    rw [hsame.playlist_path] at hpath
    rw [hsame.resolved_index] at hresolved
    rw [hsame.current_path] at hcurrent
    rw [resolvedOrder, if_pos (hdone.resolved_index.trans hresolved)]
    refine hdone.caches ⟨?_, fun hplaylist hcached => ?_⟩
    · rw [hpath, hresolved, hcurrent]
      exact hcaches.line
    · rw [hpath] at hplaylist
      have hnext : w.index = t.nextIndex := by
        rw [hslot.index_eq, nextIndex, nextIndex, hsame.index, hsame.order]
      rw [hresolved, hnext] at hcached
      have hfresh := hsound.fresh hleaves
      have hredraw : ¬ Redraws env v := fun hredraw =>
        hfresh ⟨hplaylist, hcached, .inr (hsame.redraws_iff.mp hredraw)⟩
      rw [hslot.order_eq hredraw, hsame.order]
      exact by_contra fun hredrawn => hfresh ⟨hplaylist, hcached, .inl hredrawn⟩

/-- A playlist that loads has its file on the card, and reads the first slot of its
order back. -/
theorem loadPlaylist_reads {name : Bytes} (h : (t.loadPlaylist env name).2 = true) :
    (∃ content, env.files (playlistFile env name) = some content) ∧
      ∃ start u : Tick, start.resolveCurrent env 1 = some u ∧ start.playlist_path = playlistFile env name ∧
        start.index = 0 ∧ 0 < start.order.length ∧
        (t.loadPlaylist env name).1 = { u with resolved_index := some u.index } := by
  revert h
  unfold loadPlaylist
  cases hread : env.read 0 (playlistFile env name) with
  | none => exact fun h => absurd h Bool.false_ne_true
  | some counted =>
    have hfile : ∃ content, env.files (playlistFile env name) = some content := by
      cases hfile : env.files (playlistFile env name) with
      | none =>
        unfold Env.read at hread
        split at hread <;> simp [hfile] at hread
      | some content => exact ⟨content, rfl⟩
    dsimp only
    by_cases hcount : scanValidLines (fun count _ _ => (count + 1, true)) 0 counted = 0
    · rw [if_pos hcount]
      exact fun h => absurd h Bool.false_ne_true
    · rw [if_neg hcount]
      generalize hstart : (Tick.mk _ _ _ : Tick) = start
      have hat : start.playlist_path = playlistFile env name ∧ start.index = 0 ∧ 0 < start.order.length := by
        rw [← hstart]
        refine ⟨rfl, rfl, ?_⟩
        dsimp only
        split_ifs <;> simp <;> omega
      cases hresolve : start.resolveCurrent env 1 with
      | none => exact fun h => absurd h Bool.false_ne_true
      | some u => exact fun _ => ⟨hfile, start, u, hresolve, hat.1, hat.2.1, hat.2.2, rfl⟩

/-- It starts on the line of that slot. -/
theorem loadPlaylist_caches {name : Bytes} (h : (t.loadPlaylist env name).2 = true)
    (hwhole : ∀ line, (t.loadPlaylist env name).1.order[0]? = some line →
      ¬ env.Tears 1 (playlistFile env name) line) :
    Caches ((env.files (playlistFile env name)).getD []) (t.loadPlaylist env name).1.order
      (t.loadPlaylist env name).1.toPlaylist := by
  obtain ⟨⟨content, hfile⟩, start, u, hresolve, hpath, hindex, _, hloaded⟩ := loadPlaylist_reads h
  have hframe := resolveCurrent_eq hresolve
  have horder : u.order = start.order := by rw [hframe]
  rw [hloaded] at hwhole ⊢
  dsimp only at hwhole ⊢
  rw [horder] at hwhole ⊢
  refine ⟨fun hplaylist slot hslot => ?_, fun _ _ => rfl⟩
  dsimp only at hplaylist hslot ⊢
  rw [hframe] at hplaylist
  rw [hfile, Option.getD_some]
  have hline := resolveCurrent_line hresolve hplaylist (hpath ▸ hfile) fun line hline => by
    rw [hindex] at hline
    rw [hpath]
    exact hwhole line hline
  have hat : slot = start.index := by
    rw [← Option.some.inj hslot, hframe]
  rw [hat]
  exact hline

end Tick

/-- The machine with the playlist file its run was loaded from, and with the order
in which it resolved the path it has cached. -/
structure Reading extends Playlist where
  content : Bytes := []
  resolved_order : List Nat := []

namespace Reading

def step (g : Reading) : Action → Reading
  | .poll env =>
    { toPlaylist := (pollLine env g.toPlaylist).toPlaylist
      content :=
        if g.TakesRun env then (env.files (playlistFile env (g.begun env).req_name)).getD []
        else g.content
      resolved_order :=
        if g.TakesRun env then (pollLine env g.toPlaylist).order
        else Tick.resolvedOrder g.resolved_order g.toPlaylist (pollLine env g.toPlaylist).toPlaylist }
  | .request r => { g with toPlaylist := g.request r }

/-- The playlist file does not change while its run lasts. -/
def Steady (g : Reading) : Action → Prop
  | .poll env => g.playlist_path ≠ [] → env.files g.playlist_path = some g.content
  | .request _ => True

instance (g : Reading) : (a : Action) → Decidable (g.Steady a)
  | .poll _ => inferInstanceAs (Decidable (_ → _))
  | .request _ => .isTrue trivial

/-- Whenever the path of the current slot is cached, it is the one of its line in
the playlist file. -/
def PathAgrees (g : Reading) : Prop := Tick.PathAgrees g.content g.toPlaylist

/-- The pattern line of a playlist run that a call hands over names the line of
the current slot; up to 200 bytes of path are not truncated. -/
def InjectsLine (g : Reading) : Action → Prop
  | .poll env =>
    let t := pollLine env g.toPlaylist
    t.injected ≠ none → t.phase = .RunPattern → t.playlist_path ≠ [] →
      ∃ path, slotLine (g.step (.poll env)).content t.order t.index = some path ∧
        (path.length ≤ 200 → 0 ∉ path → t.injected = some (bytes "$SD/Run=" ++ path))
  | .request _ => True

/-- The call leaves the slot for the one whose path is cached, and the order has
been redrawn since that path was cached, or the call redraws it. -/
def LeavesForStale (g : Reading) : Action → Prop
  | .poll env => g.Undisturbed env ∧ Tick.Leaves env (g.begun env) ∧
      Tick.NextStale g.resolved_order env (g.begun env)
  | .request _ => False

/-- The call reads the path of a slot, for the slot itself or to start a run on
it, and the read breaks off inside its line. -/
def ReadsTorn (g : Reading) : Action → Prop
  | .poll env =>
    (g.Undisturbed env ∧ Tick.ReadsSlot env (g.begun env) ∧
      ∃ line, g.order[g.index]? = some line ∧ env.Tears 0 g.playlist_path line) ∨
    (g.TakesRun env ∧ (g.begun env).req_single = false ∧
      ∃ line, (((g.begun env).takeRequest env).loadPlaylist env (g.begun env).req_name).1.order[0]? =
        some line ∧ env.Tears 1 (playlistFile env (g.begun env).req_name) line)
  | .request _ => False

/-- The call leaves its slot by a wrap that shuffles the order. -/
def RedrawsOrder (g : Reading) : Action → Prop
  | .poll env => g.Undisturbed env ∧ Tick.Leaves env (g.begun env) ∧ Tick.Redraws env (g.begun env)
  | .request _ => False

/-- What a step can do to the slot, its cached path, and the file and the order
they are from. -/
inductive Stepped (g : Reading) (a : Action) (g' : Reading) : Prop
  | gone (hover : g'.playlist_path = [])
  | kept (hcontent : g'.content = g.content) (hsame : Tick.SameSlot g.toPlaylist g'.toPlaylist)
      (horder : g'.resolved_order = Tick.resolvedOrder g.resolved_order g.toPlaylist g'.toPlaylist)
  | loaded {env : Env} (ha : a = .poll env) (htakes : g.TakesRun env)
      (hsingle : (g.begun env).req_single = false) {t : Tick}
      (hloaded : ((g.begun env).takeRequest env).loadPlaylist env (g.begun env).req_name = (t, true))
      (hcontent : g'.content = (env.files (playlistFile env (g.begun env).req_name)).getD [])
      (hsame : Tick.SameSlot t.toPlaylist g'.toPlaylist) (horder : g'.resolved_order = t.order)
  | turned {env : Env} (ha : a = .poll env) (hcalm : g.Undisturbed env) {u : Tick}
      (hmoved : Tick.Moved env (g.begun env) u) (hcontent : g'.content = g.content)
      (hsame : Tick.SameSlot u.toPlaylist g'.toPlaylist)
      (horder : g'.resolved_order = Tick.resolvedOrder g.resolved_order (g.begun env).toPlaylist u.toPlaylist)

theorem begun_sameSlot (g : Reading) (env : Env) : Tick.SameSlot g.toPlaylist (g.begun env).toPlaylist :=
  Tick.sameSlot_of_cursor (Tick.prelude_toRunParams env _) (Tick.prelude_toCursor env _)

theorem stepped (g : Reading) (a : Action) : Stepped g a (g.step a) := by
  cases a with
  | request r =>
    have hslot : Tick.SameSlot g.toPlaylist (g.toPlaylist.request r) := by
      rw [Playlist.request_eq]
      exact ⟨rfl, rfl, rfl, rfl, rfl, rfl⟩
    exact .kept rfl hslot (if_pos hslot.resolved_index).symm
  | poll env =>
    have hbegun := begun_sameSlot g env
    have hquiet (hnorun : ¬ g.TakesRun env) :
        (g.step (.poll env)).content = g.content ∧ (g.step (.poll env)).resolved_order =
          Tick.resolvedOrder g.resolved_order g.toPlaylist (g.step (.poll env)).toPlaylist :=
      ⟨if_neg hnorun, if_neg hnorun⟩
    have hpolled : (g.step (.poll env)).toPlaylist = (pollLine env g.toPlaylist).toPlaylist := rfl
    rw [pollLine_eq] at hpolled
    obtain ⟨_, hrun, _, hdone⟩ | ⟨hstop, hdone⟩ | ⟨hstop, hrun, hdone⟩ |
      ⟨hstop, hrun, _, u, _, hturn, hdone⟩ := Tick.dispatch_cases env (g.begun env)
    · have hnorun : ¬ g.TakesRun env := fun htakes => absurd (htakes.1.symm.trans hrun) (by decide)
      refine .kept (hquiet hnorun).1 ?_ (hquiet hnorun).2
      rw [hpolled, hdone]
      refine hbegun.trans ?_
      exact ⟨rfl, rfl, rfl, rfl, rfl, rfl⟩
    · have hnorun : ¬ g.TakesRun env := fun htakes => absurd hstop htakes.2
      rw [hdone] at hpolled
      unfold Tick.consumeStop at hpolled
      dsimp only at hpolled
      split_ifs at hpolled with hon
      · refine .gone ?_
        rw [hpolled, Tick.stopJob_eq, Tick.finish_eq]
        rfl
      · refine .kept (hquiet hnorun).1 ?_ (hquiet hnorun).2
        rw [hpolled]
        refine hbegun.trans ?_
        exact ⟨rfl, rfl, rfl, rfl, rfl, rfl⟩
    · have htakes : g.TakesRun env := ⟨hrun, by simp [hstop]⟩
      have horder : (g.step (.poll env)).resolved_order = (g.step (.poll env)).order := if_pos htakes
      rw [hdone] at hpolled
      obtain ⟨_, hconsumed⟩ | ⟨hsingle, hok, hconsumed⟩ | ⟨_, _, hconsumed⟩ :=
        Tick.consumeRun_cases env (g.begun env)
      · rw [hconsumed] at hpolled
        exact .gone (congrArg (fun p : Playlist => p.playlist_path) hpolled)
      · rw [hconsumed] at hpolled
        refine .loaded rfl htakes hsingle (Prod.ext rfl hok) (if_pos htakes) ?_ ?_
        · rw [hpolled]
          exact ⟨rfl, rfl, rfl, rfl, rfl, rfl⟩
        · rw [horder, hpolled]
      · rw [hconsumed, Tick.finish_eq] at hpolled
        exact .gone (congrArg (fun p : Playlist => p.playlist_path) hpolled)
    · obtain ⟨published, hclosed⟩ := Tick.turn_closed u
      have hnorun : ¬ g.TakesRun env := fun htakes => absurd (htakes.1.symm.trans hrun) (by decide)
      have hsame : Tick.SameSlot u.toPlaylist (g.step (.poll env)).toPlaylist := by
        rw [hpolled, hdone, hclosed]
        exact ⟨rfl, rfl, rfl, rfl, rfl, rfl⟩
      refine .turned rfl ⟨hstop, hrun⟩ hturn.moved (hquiet hnorun).1 hsame ?_
      rw [(hquiet hnorun).2, Tick.resolvedOrder, Tick.resolvedOrder, hsame.resolved_index, hsame.order,
        hbegun.resolved_index]

/-- What the machine knows of its cached path is true. -/
def Caches (g : Reading) : Prop := Tick.Caches g.content g.resolved_order g.toPlaylist

theorem Caches.step {g : Reading} (h : g.Caches) {a : Action} (hsteady : g.Steady a)
    (hfresh : ¬ g.LeavesForStale a) (hwhole : ¬ g.ReadsTorn a) : (g.step a).Caches := by
  unfold Caches
  cases stepped g a with
  | gone hover => exact Tick.caches_of_over _ _ hover
  | kept hcontent hsame horder =>
    rw [hcontent, horder]
    exact hsame.caches_resolvedOrder h
  | @loaded env ha htakes hsingle t hloaded hcontent hsame horder =>
    subst ha
    have hok : (((g.begun env).takeRequest env).loadPlaylist env (g.begun env).req_name).2 = true := by
      rw [hloaded]
    have hcaches := Tick.loadPlaylist_caches hok fun line hline htears =>
      hwhole (.inr ⟨htakes, hsingle, line, hline, htears⟩)
    rw [hloaded] at hcaches
    rw [hcontent, horder]
    exact hsame.caches hcaches
  | @turned env ha hcalm u hmoved hcontent hsame horder =>
    subst ha
    have hbegun := begun_sameSlot g env
    rw [hcontent, horder]
    refine hsame.caches (hmoved.caches ⟨?_, fun hleaves hstale => ?_, fun hreads line hline htears => ?_⟩ ?_)
    · rw [hbegun.playlist_path]
      exact hsteady
    · exact hfresh ⟨hcalm, hleaves, hstale⟩
    · rw [hbegun.order, hbegun.index] at hline
      rw [hbegun.playlist_path] at htears
      exact hwhole (.inl ⟨hcalm, hreads, line, hline, htears⟩)
    · exact hbegun.caches h

/-- While no wrap shuffles it, the order is the one the cached path was resolved
in, and no call leaves for a stale path. -/
def Unshuffled (g : Reading) : Prop := g.playlist_path ≠ [] → g.order = g.resolved_order

theorem Unshuffled.step {g : Reading} (h : g.Unshuffled) {a : Action} (hkept : ¬ g.RedrawsOrder a) :
    (g.step a).Unshuffled := by
  intro hplaylist
  cases stepped g a with
  | gone hover => exact absurd hover hplaylist
  | kept _ hsame horder =>
    rw [hsame.playlist_path] at hplaylist
    rw [horder, Tick.resolvedOrder, if_pos hsame.resolved_index, hsame.order]
    exact h hplaylist
  | loaded _ _ _ _ _ hsame horder => rw [hsame.order, horder]
  | @turned env ha hcalm u hmoved _ hsame horder =>
    subst ha
    have hbegun := begun_sameSlot g env
    rw [hsame.playlist_path] at hplaylist
    rw [horder, hsame.order, Tick.resolvedOrder]
    split_ifs with hresolved
    · cases hmoved with
      | gone hended =>
        rw [hended, Tick.finish_eq] at hplaylist
        exact absurd rfl hplaylist
      | kept hstill =>
        rw [hstill.order, hbegun.order]
        rw [hstill.playlist_path, hbegun.playlist_path] at hplaylist
        exact h hplaylist
      | @read hreads hunread v w hat hread hdone =>
        have hindex : w.index = (g.begun env).index := by rw [Tick.resolveCurrent_eq hread, hat.index]
        refine absurd ?_ hunread
        rw [← hresolved, hdone.resolved_index, hindex]
      | @left hleaves v w hat hslot hdone =>
        have hredraw : ¬ Tick.Redraws env v := fun hredraw =>
          hkept ⟨hcalm, hleaves, hat.redraws_iff.mp hredraw⟩
        rw [hdone.order, hslot.order_eq hredraw, hat.order, hbegun.order]
        rw [hdone.playlist_path, hslot.paths_eq.1, hat.playlist_path, hbegun.playlist_path] at hplaylist
        exact h hplaylist
    · rfl

theorem Unshuffled.not_leavesForStale {g : Reading} (h : g.Unshuffled) {a : Action}
    (hkept : ¬ g.RedrawsOrder a) : ¬ g.LeavesForStale a := by
  cases a with
  | request r => exact not_false
  | poll env =>
    rintro ⟨hcalm, hleaves, hplaylist, _, hstale | hredraw⟩
    · have hbegun := begun_sameSlot g env
      rw [hbegun.playlist_path] at hplaylist
      rw [hbegun.order] at hstale
      exact hstale (h hplaylist)
    · exact hkept ⟨hcalm, hleaves, hredraw⟩

/-- A pattern is handed over with its slot resolved, so the agreement is about
the line that goes out. -/
theorem PathAgrees.injectsLine {g : Reading} {a : Action} (h : (g.step a).PathAgrees) :
    g.InjectsLine a := by
  cases a with
  | request r => trivial
  | poll env =>
    intro hline hpattern hplaylist
    obtain ⟨_, v, w, _, _, hresolved, hclear | ⟨_, hinject⟩⟩ := pollLine_injected hline
    · rw [hclear] at hpattern
      exact absurd hpattern (by decide : Phase.RunClear ≠ .RunPattern)
    · have hcached : w.resolved_index = some w.index := by
        cases hresolved with
        | cached hcached => exact hcached
        | read => rfl
      simp only [PathAgrees, Reading.step, hinject] at h
      rw [hinject] at hplaylist ⊢
      refine ⟨w.current_path, h hplaylist hcached, fun hshort hfree => ?_⟩
      have hroom : (bytes "$SD/Run=" ++ w.current_path).length ≤ LINE_BUFFER_SIZE - 1 := by
        simp only [List.length_append, show (bytes "$SD/Run=").length = 8 by decide, LINE_BUFFER_SIZE]
        omega
      simp only [Tick.injectPattern, Tick.inject, runLine, c_str_eq_self hfree,
        List.take_of_length_le hroom]

/-- In every run from boot over playlist files that do not change, in which no
call leaves for a slot that was resolved in an order since redrawn and none reads
a torn line, every path that is cached for the current slot, and every pattern
line that is handed over, is the line of the playlist file the order asks for. -/
theorem resolved_path_agrees (feed_setting : Option Int) (actions : List Action)
    (hsteady : Transition.Throughout step Steady { toPlaylist := .boot feed_setting } actions)
    (hgood : Transition.Throughout step (fun g a => ¬ g.LeavesForStale a ∧ ¬ g.ReadsTorn a)
      { toPlaylist := .boot feed_setting } actions) :
    Transition.Always step PathAgrees { toPlaylist := .boot feed_setting } actions ∧
      Transition.Throughout step InjectsLine { toPlaylist := .boot feed_setting } actions := by
  have hboth := hsteady.and hgood
  have hboot : Caches { toPlaylist := .boot feed_setting } := Tick.caches_of_over _ _ rfl
  have hstep (g : Reading) (a : Action) (h : g.Caches)
      (hq : g.Steady a ∧ ¬ g.LeavesForStale a ∧ ¬ g.ReadsTorn a) : (g.step a).Caches :=
    h.step hq.1 hq.2.1 hq.2.2
  exact ⟨(Transition.always_of_invariant hstep hboot hboth).mono fun _ h => h.pathAgrees,
    Transition.throughout_of_invariant hstep (fun g a h hq => PathAgrees.injectsLine (hstep g a h hq).pathAgrees)
      hboot hboth⟩

/-- A run in which no wrap shuffles the order never leaves for a stale path. -/
theorem throughout_not_leavesForStale (feed_setting : Option Int) (actions : List Action)
    (hkept : Transition.Throughout step (fun g a => ¬ g.RedrawsOrder a)
      { toPlaylist := .boot feed_setting } actions) :
    Transition.Throughout step (fun g a => ¬ g.LeavesForStale a) { toPlaylist := .boot feed_setting } actions := by
  have hboot : Unshuffled { toPlaylist := .boot feed_setting } := fun hplaylist => absurd rfl hplaylist
  exact Transition.throughout_of_invariant (fun _ _ h hkept => h.step hkept)
    (fun _ _ h hkept => h.not_leavesForStale hkept) hboot hkept

/-- A shuffled playlist `a` of two patterns in loop mode, on an idle table. -/
private def shuffledTable (draw : UInt32) : Env where
  line := true
  settings := { mode := MODE_LOOP, shuffle := 1 }
  esp_random _ := draw
  files path := if path = bytes "/playlists/a.txt" then some (bytes "/x.thr\n/y.thr") else none

/-- Without faults no line is torn. -/
private theorem not_readsTorn {env : Env} (hfault : ∀ attempt, env.fault attempt = .none) (g : Reading) :
    ¬ g.ReadsTorn (.poll env) := by
  rintro (⟨_, _, line, _, htears⟩ | ⟨_, _, line, _, htears⟩)
  · exact Env.not_tears (hfault 0) _ _ htears
  · exact Env.not_tears (hfault 1) _ _ htears

theorem resolved_path_agrees_first_pattern :
    let actions : List Action := [.request (.run (bytes "a") .Idle), .poll (shuffledTable 1),
      .poll (shuffledTable 1)]
    Transition.Always step PathAgrees { toPlaylist := .boot none } actions ∧
      Transition.Throughout step InjectsLine { toPlaylist := .boot none } actions :=
  resolved_path_agrees none _ (by decide)
    ⟨⟨not_false, not_false⟩, ⟨fun h => absurd h.2.2 (by decide), not_readsTorn (fun _ => rfl) _⟩,
      ⟨fun h => absurd h.2.2 (by decide), not_readsTorn (fun _ => rfl) _⟩, trivial⟩

/-- Two skips while the machine decides leave the second slot unread and wrap
the run: the redrawn order puts the other pattern first, but the path of slot
zero is taken for resolved. -/
theorem resolved_path_stale_after_wrap :
    ¬ ∀ (feed_setting : Option Int) (actions : List Action),
      Transition.Throughout step Steady { toPlaylist := .boot feed_setting } actions →
        Transition.Always step PathAgrees { toPlaylist := .boot feed_setting } actions := by
  intro h
  have hlast := (h none [.request (.run (bytes "a") .Idle), .poll (shuffledTable 1), .request .skip,
    .poll (shuffledTable 1), .request .skip, .poll (shuffledTable 0)] (by decide)).last
  exact absurd (hlast (by decide) (by decide)) (by decide)

end Reading

end DuneWeaver
