import DuneWeaver.Protocol.Steps

namespace DuneWeaver

/-- A line of the playlist. -/
def Source.ofPlaylist : Source → Bool
  | .playlist _ => true
  | _ => false

namespace View

/-- A job that goes back to a line of the playlist is on the stack. -/
def playing (v : View) : Bool := v.jobs.any fun job => job.origin.isSome

theorem not_playing_of_empty {v : View} (h : v.jobs = []) : ¬ v.playing := by
  unfold playing
  rw [h]
  exact Bool.false_ne_true

/-- A line of the playlist is in hand that has yet to nest its job. -/
def Handed (v : View) : Prop := ∃ line ∈ v.hand, line.source.ofPlaylist ∧ .runFile true ∈ line.ops

instance (v : View) : Decidable v.Handed := inferInstanceAs (Decidable (∃ _ ∈ _, _))

end View

/-- Who stands behind the line in hand, the jobs, the queued events and the cause
of an unwinding: the playlist's part in them goes back to its last line, or to
what it posted by then. -/
structure View.Tidy (v : View) : Prop where
  hand_playlist : ∀ number ops, v.hand = some { source := .playlist number, ops := ops } → number = v.injected
  hand_job : ∀ job ops, v.hand = some { source := .job job, ops := ops } → job ∈ v.jobs
  origins : ∀ job ∈ v.jobs, ∀ number, job.origin = some number → number = v.injected
  posted : ∀ item ∈ v.event_queue, ∀ number, item.posted = some number → number ≤ v.injected
  unwinding : ∀ number, v.unwind_cause = some (.Stop (some number)) → number ≤ v.injected
  ids : ∀ job ∈ v.jobs, job.id < v.nested

namespace View.Tidy

variable {s : System}

/-- A line that goes on is still backed by what it was backed by. -/
private theorem advance (h : s.view.Tidy) {source : Source} {ops rest : List Op} {moving : Option Source}
    (hhand : s.hand = some { source := source, ops := ops }) :
    View.Tidy { s.view with hand := some { source := source, ops := rest }, moving := moving } := by
  refine { h with hand_playlist := fun number later heq => ?_, hand_job := fun job later heq => ?_ }
  · obtain ⟨rfl, _⟩ : source = .playlist number ∧ rest = later := by simpa using heq
    exact h.hand_playlist number ops hhand
  · obtain ⟨rfl, _⟩ : source = .job job ∧ rest = later := by simpa using heq
    exact h.hand_job job ops hhand

/-- A line nests a job under the same playlist line, if it comes from there. -/
private theorem nest (h : s.view.Tidy) {source : Source} {ops rest : List Op}
    (hhand : s.hand = some { source := source, ops := ops }) :
    View.Tidy { s.view with
      hand := some { source := source, ops := rest }, moving := none
      jobs := { id := s.nested, origin := source.origin } :: s.jobs, nested := s.nested + 1 } := by
  have hadvance : View.Tidy { s.view with hand := some { source := source, ops := rest }, moving := none } :=
    h.advance hhand
  refine { hadvance with hand_job := fun job later heq => ?_, origins := ?_, ids := ?_ }
  · exact List.mem_cons_of_mem _ (hadvance.hand_job job later heq)
  · intro job hmem number horigin
    obtain rfl | hmem := List.mem_cons.mp hmem
    · cases source with
      | playlist line =>
        obtain rfl : line = number := by simpa [Source.origin] using horigin
        exact h.hand_playlist line ops hhand
      | job owner => exact h.origins owner (h.hand_job owner ops hhand) number horigin
      | other => simp [Source.origin] at horigin
    · exact h.origins job hmem number horigin
  · intro job hmem
    obtain rfl | hmem := List.mem_cons.mp hmem
    · exact Nat.lt_succ_self s.nested
    · exact Nat.lt_succ_of_lt (h.ids job hmem)

private theorem looked (h : s.view.Tidy) {hand : Option Line} {cause : Option Cause} (hlooked : Looked s hand cause) :
    View.Tidy { s.view with hand := hand, unwind_cause := cause } := by
  cases hlooked with
  | no => exact h
  | yes hhand hjobs ops =>
    refine { h with
      hand_playlist := fun number later heq => ?_, hand_job := fun job later heq => ?_
      unwinding := fun number heq => ?_ }
    · simp at heq
    · simp at heq
    · simp at heq

private theorem goes (h : s.view.Tidy) {a : Move} {v : View} (hgoes : Goes s a v) : v.Tidy := by
  have hempty : View.Tidy { s.view with hand := none, moving := none } :=
    { h with hand_playlist := fun _ _ heq => by simp at heq, hand_job := fun _ _ heq => by simp at heq }
  cases hgoes with
  | still => exact h
  | posted event =>
    refine { h with posted := fun item hmem number hposted => ?_ }
    obtain hmem | hmem := List.mem_append.mp hmem
    · exact h.posted item hmem number hposted
    · obtain rfl := List.mem_singleton.mp hmem
      simp at hposted
  | advanced hhand _ => exact h.advance hhand
  | moves hhand => exact h.advance hhand
  | moved _ hhand _ => exact h.advance hhand
  | nested _ hhand => exact h.nest hhand
  | finished hhand => exact hempty
  | requested r => exact { h with }
  | outside state hcause =>
    refine { h with unwinding := fun number heq => ?_ }
    obtain rfl | rfl := hcause
    · simp at heq
    · exact h.unwinding number heq
  | looked hlooked => exact h.looked hlooked
  | aborted hhand _ =>
    refine { h with
      hand_job := fun job ops heq => ?_, origins := by simp, ids := by simp, unwinding := by simp }
    rw [show s.view.hand = s.hand from rfl, hhand] at heq
    simp at heq
  | @handed job ops hhand hjob _ _ =>
    refine { h with hand_playlist := fun number later heq => ?_, hand_job := fun owner later heq => ?_ }
    · simp at heq
    · obtain ⟨rfl, _⟩ : job = owner ∧ ops = later := by simpa using heq
      exact List.mem_of_mem_head? hjob
  | ended hhand hsuffix _ =>
    refine { h with
      hand_job := fun job ops heq => ?_
      origins := fun job hmem => h.origins job (hsuffix.mem hmem)
      ids := fun job hmem => h.ids job (hsuffix.mem hmem) }
    rw [show s.view.hand = s.hand from rfl, hhand] at heq
    simp at heq

private theorem handle (h : s.view.Tidy) {item : EventItem} {rest : List EventItem}
    (hqueue : s.event_queue = item :: rest) (state : State) : View.Tidy (s.view.handle item rest state) := by
  have hitem : item ∈ s.event_queue := hqueue ▸ List.mem_cons_self
  refine {
    hand_playlist := h.hand_playlist
    hand_job := fun job ops heq => ?_
    origins := fun job hmem number horigin => ?_
    posted := fun queued hmem => h.posted queued (by rw [System.view_event_queue, hqueue]; exact .tail _ hmem)
    unwinding := fun number heq => ?_
    ids := fun job hmem => ?_ }
  · have hmem := h.hand_job job ops heq
    unfold View.handle
    dsimp only
    split_ifs
    · exact List.mem_cons_of_mem _ hmem
    · exact hmem
  · unfold View.handle at hmem
    dsimp only at hmem
    split_ifs at hmem
    · obtain rfl | hmem := List.mem_cons.mp hmem
      · simp at horigin
      · exact h.origins job hmem number horigin
    · exact h.origins job hmem number horigin
  · unfold View.handle at heq
    dsimp only at heq
    split_ifs at heq
    · obtain hposted : item.posted = some number := by simpa using heq
      exact h.posted item hitem number hposted
    · exact h.unwinding number heq
  · unfold View.handle at hmem ⊢
    dsimp only at hmem ⊢
    split_ifs at hmem ⊢
    · obtain rfl | hmem := List.mem_cons.mp hmem
      · exact Nat.lt_succ_self s.nested
      · exact Nat.lt_succ_of_lt (h.ids job hmem)
    · exact h.ids job hmem

/-- What the playlist posts in a call is queued. -/
private theorem post (h : s.view.Tidy) {env : Env} {extra : List EventItem} (hposts : Posts s env extra) :
    View.Tidy { s.view with
      playlist := (pollLine env s.playlist).toPlaylist, event_queue := s.event_queue ++ extra } := by
  refine { h with posted := fun item hmem number hposted => ?_ }
  obtain hmem | hmem := List.mem_append.mp hmem
  · exact h.posted item hmem number hposted
  · obtain ⟨hstamp, _⟩ := hposts.posted item hmem
    obtain rfl : s.injected = number := by simpa [hstamp] using hposted
    exact Nat.le_refl _

/-- What one step does to the view keeps it tidy. -/
theorem did (h : s.view.Tidy) {a : Move} {v : View} (hdid : Did s a v) : v.Tidy := by
  cases hdid with
  | went _ _ hgoes => exact h.goes hgoes
  | handled _ _ hqueue _ => exact h.handle hqueue _
  | called _ _ _ hposts hlooked =>
    have hpost := h.post hposts
    have hlook := h.looked hlooked
    exact { hpost with
      hand_playlist := hlook.hand_playlist, hand_job := hlook.hand_job, unwinding := hlook.unwinding }
  | @injected env extra line ops _ _ _ hjobs _ hposts =>
    have hpost := h.post hposts
    refine {
      hand_playlist := fun number later heq => ?_
      hand_job := fun job later heq => by simp at heq
      origins := fun job hmem => absurd hmem (by simp [hjobs])
      posted := fun item hmem number hposted => Nat.le_succ_of_le (hpost.posted item hmem number hposted)
      unwinding := by simp
      ids := h.ids }
    obtain ⟨hnumber, _⟩ : s.injected + 1 = number ∧ ops = later := by simpa using heq
    exact hnumber.symm

end View.Tidy

namespace System

/-- What holds of the system at any time. -/
structure Tidy (s : System) : Prop where
  busy : s.Busy
  view : s.view.Tidy

theorem boot_tidy (feed_setting : Option Int) (planner_blocks : Nat) :
    (System.boot feed_setting planner_blocks).Tidy := by
  refine ⟨Busy.of_free (.inl rfl), ?_⟩
  constructor <;> simp [boot, System.view, hand]

theorem step_tidy {s : System} (h : s.Tidy) (a : Move) : (s.step a).Tidy :=
  ⟨step_busy h.busy a, h.view.did (step_did h.busy a)⟩

/-- A step leaves a tidy state, with a view that it accounts for. -/
theorem Tidy.step_view {s s' : System} (h : s.Tidy) {a : Move} (hstep : s' = s.step a) :
    s'.Tidy ∧ ∃ v, s'.view = v ∧ Did s a v := by
  subst hstep
  exact ⟨step_tidy h a, _, rfl, step_did h.busy a⟩

/-- A single run is requested, its request consumed, and its line handed over. -/
def handOver : List Move := [.request (.single (bytes "/a.thr") [] .Idle), .poller {}, .poller {}]

end System

variable {s : System} {a : Move} {v : View}

/-- The line whose job is nested was handed over, if it is a line of the playlist. -/
theorem System.nests_handed {number : Nat} (hnests : s.nests a = some (.playlist number)) : s.view.Handed := by
  unfold System.nests at hnests
  split at hnests
  · split at hnests
    · rename_i source ops hmain
      split_ifs at hnests
      obtain rfl := Option.some.inj hnests
      exact ⟨_, by simp only [System.view_hand, System.hand, hmain]; rfl, rfl, List.mem_cons_self⟩
    · simp at hnests
  · simp at hnests

/-- A job of the playlist comes onto the stack with a line of the playlist, or
under a job of the playlist. -/
theorem playing_did (htidy : s.view.Tidy) (hdid : Did s a v) (hplaying : v.playing) :
    s.view.playing ∨ ∃ number, s.nests a = some (.playlist number) := by
  obtain ⟨job, hmem, horigin⟩ := List.any_eq_true.mp hplaying
  have hstays (hjob : job ∈ s.jobs) : s.view.playing := List.any_eq_true.mpr ⟨job, hjob, horigin⟩
  cases hdid with
  | went _ _ hgoes =>
    cases hgoes with
    | @nested source ops hnests hhand =>
      obtain rfl | hmem := List.mem_cons.mp hmem
      · cases source with
        | playlist number => exact .inr ⟨number, hnests⟩
        | job owner => exact .inl (List.any_eq_true.mpr ⟨owner, htidy.hand_job owner _ hhand, horigin⟩)
        | other => simp [Source.origin] at horigin
      · exact .inl (hstays hmem)
    | aborted => simp at hmem
    | ended _ hsuffix _ => exact .inl (hstays (hsuffix.mem hmem))
    | _ => exact .inl (hstays hmem)
  | @handled item _ _ _ _ _ _ =>
    unfold View.handle at hmem
    dsimp only at hmem
    split_ifs at hmem
    · obtain rfl | hmem := List.mem_cons.mp hmem
      · simp at horigin
      · exact .inl (hstays hmem)
    · exact .inl (hstays hmem)
  | called => exact .inl (hstays hmem)
  | injected => exact .inl (hstays hmem)

/-- While no line of the playlist is in hand, its job was on the stack before. -/
theorem playing_before (htidy : s.view.Tidy) (hdid : Did s a v) (hplaying : v.playing) (hunhanded : ¬ s.view.Handed) :
    s.view.playing := by
  obtain hbefore | ⟨number, hnests⟩ := playing_did htidy hdid hplaying
  · exact hbefore
  · exact absurd (System.nests_handed hnests) hunhanded

private theorem Looked.handed {hand : Option Line} {cause : Option Cause} (hlooked : Looked s hand cause)
    (hhanded : ∃ line ∈ hand, line.source.ofPlaylist ∧ .runFile true ∈ line.ops) : s.view.Handed := by
  cases hlooked with
  | no => exact hhanded
  | yes _ _ ops =>
    obtain ⟨line, hmem, hsource, _⟩ := hhanded
    obtain ⟨_, _, rfl⟩ := Option.map_eq_some_iff.mp hmem
    simp [Source.ofPlaylist] at hsource

/-- A line of the playlist comes into hand only when the playlist hands one over. -/
theorem handed_did (hdid : Did s a v) (hhanded : v.Handed) : s.view.Handed ∨
    ∃ env, s.calls a = some env ∧ (pollLine env s.playlist).injected ≠ none ∧ v.injected = s.injected + 1 := by
  obtain ⟨line, hmem, hsource, hops⟩ := hhanded
  have hlater {source : Source} {ops rest : List Op}
      (hhand : s.hand = some { source := source, ops := ops })
      (hline : line ∈ some ({ source := source, ops := rest } : Line)) (hrest : ∀ op ∈ rest, op ∈ ops) :
      s.view.Handed := by
    obtain rfl := Option.some.inj hline
    exact ⟨_, hhand, hsource, hrest _ hops⟩
  cases hdid with
  | went _ _ hgoes =>
    left
    cases hgoes with
    | advanced hhand hrest => exact hlater hhand hmem fun op hop => .tail _ (hrest.mem hop)
    | moves hhand => exact hlater hhand hmem fun op hop => .tail _ hop
    | moved _ hhand hrest => exact hlater hhand hmem fun op hop => hrest.mem hop
    | nested _ hhand => exact hlater hhand hmem fun op hop => .tail _ hop
    | finished => simp at hmem
    | looked hlooked => exact hlooked.handed ⟨line, hmem, hsource, hops⟩
    | handed =>
      obtain rfl := Option.some.inj hmem
      simp [Source.ofPlaylist] at hsource
    | _ => exact ⟨line, hmem, hsource, hops⟩
  | handled => exact .inl ⟨line, hmem, hsource, hops⟩
  | called _ _ _ _ hlooked => exact .inl (hlooked.handed ⟨line, hmem, hsource, hops⟩)
  | injected hcalls _ _ _ hline _ => exact .inr ⟨_, hcalls, by simp [hline], rfl⟩

/-- The poller forgets why it unwinds only with no job left. -/
theorem unwinding_did (hdid : Did s a v) (hcause : s.unwind_cause ≠ none) : v.unwind_cause ≠ none ∨ v.jobs = [] := by
  cases hdid with
  | went _ _ hgoes =>
    cases hgoes with
    | outside _ hkept =>
      left
      obtain rfl | rfl := hkept
      · simp
      · exact hcause
    | looked hlooked =>
      cases hlooked with
      | no => exact .inl hcause
      | yes _ hjobs _ => exact .inr hjobs
    | aborted => exact .inr rfl
    | _ => exact .inl hcause
  | handled =>
    left
    unfold View.handle
    dsimp only
    split_ifs
    · simp
    · exact hcause
  | called _ _ _ _ hlooked =>
    cases hlooked with
    | no => exact .inl hcause
    | yes _ hjobs _ => exact .inr hjobs
  | injected _ _ _ hjobs => exact .inr hjobs

end DuneWeaver
