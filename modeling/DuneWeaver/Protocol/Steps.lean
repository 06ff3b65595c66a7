import DuneWeaver.Playlist.Consumed
import DuneWeaver.Protocol.System

namespace DuneWeaver

/-- What stopping a job is about: the job stack, the line the main task has or is
about to have in hand, with what is left of it, the motion it waits to plan, the
event queue and the cause of an unwinding. -/
structure View where
  playlist : Playlist
  jobs : List Job
  hand : Option Line
  moving : Option Source
  event_queue : List EventItem
  unwind_cause : Option Cause
  state : State
  injected : Nat
  nested : Nat

namespace System

/-- The line in hand, as far as it has not been executed. -/
def hand (s : System) : Option Line :=
  match s.main with
  | .top => s.activeLine
  | .autoCycleStart => s.activeLine
  | .realtime => s.activeLine
  | .exec source ops => some { source := source, ops := ops }
  | .move source _ _ ops => some { source := source, ops := ops }
  | .moveRealtime source _ _ ops => some { source := source, ops := ops }
  | .synchronize source ops => some { source := source, ops := ops }
  | .synchronizeRealtime source ops => some { source := source, ops := ops }

/-- The source of the motion that is waiting in `mc_move_motors`. -/
def moving (s : System) : Option Source :=
  match s.main with
  | .move source _ _ _ => some source
  | .moveRealtime source _ _ _ => some source
  | _ => none

def view (s : System) : View where
  playlist := s.playlist
  jobs := s.jobs
  hand := s.hand
  moving := s.moving
  event_queue := s.event_queue
  unwind_cause := s.unwind_cause
  state := s.state
  injected := s.injected
  nested := s.nested

section View

variable (s : System)

@[simp] theorem view_playlist : s.view.playlist = s.playlist := rfl

@[simp] theorem view_jobs : s.view.jobs = s.jobs := rfl

@[simp] theorem view_hand : s.view.hand = s.hand := rfl

@[simp] theorem view_moving : s.view.moving = s.moving := rfl

@[simp] theorem view_event_queue : s.view.event_queue = s.event_queue := rfl

@[simp] theorem view_unwind_cause : s.view.unwind_cause = s.unwind_cause := rfl

@[simp] theorem view_state : s.view.state = s.state := rfl

@[simp] theorem view_injected : s.view.injected = s.injected := rfl

@[simp] theorem view_nested : s.view.nested = s.nested := rfl

end View

/-- While the main task executes a line, `activeLine` is taken. -/
def Busy (s : System) : Prop :=
  s.activeLine = none → s.main = .top ∨ s.main = .autoCycleStart ∨ s.main = .realtime

/-- The surroundings of the call of `Playlist::pollLine` a move makes, if it makes
one. -/
def calls (s : System) : Move → Option Env
  | .poller pass =>
    match s.poller with
    | .channels => if s.counter = 0 ∧ pass.reached then some (s.around false pass.env) else none
    | .line =>
      if s.activeLine = none ∧ s.jobs = [] ∧ pass.reached then some (s.around true pass.env) else none
  | _ => none

/-- The event a move takes off the queue, if it takes one. -/
def handles (s : System) : Move → Option EventItem
  | .main =>
    match s.main with
    | .moveRealtime _ _ _ _ => s.event_queue.head?
    | .synchronizeRealtime _ _ => s.event_queue.head?
    | .realtime => s.event_queue.head?
    | _ => none
  | _ => none

/-- The source of the line whose job a move nests, if it nests one. -/
def nests (s : System) : Move → Option Source
  | .main =>
    match s.main with
    | .exec source (.runFile true :: _) =>
      if s.state = .Alarm ∨ s.state = .ConfigAlarm then none else some source
    | _ => none
  | _ => none

end System

/-- Taking the first event off the queue and handling it, as far as a view shows
it: a stop unwinds the jobs that are active, and a macro is a job. -/
def View.handle (item : EventItem) (rest : List EventItem) (state : State) (v : View) : View :=
  { v with
    event_queue := rest
    jobs := if item.event = .doMacro then { id := v.nested } :: v.jobs else v.jobs
    nested := if item.event = .doMacro then v.nested + 1 else v.nested
    unwind_cause :=
      if item.event = .stopJob ∧ v.state.stoppable ∧ v.jobs ≠ [] then some (.Stop item.posted)
      else v.unwind_cause
    state := state }

/-- There is room in the event queue for what a call of `Playlist::pollLine`
posts. -/
def System.Room (s : System) (env : Env) : Prop :=
  s.event_queue.length + (pollLine env s.playlist).events.length ≤ EVENT_QUEUE_LENGTH

instance (s : System) (env : Env) : Decidable (s.Room env) := inferInstanceAs (Decidable (_ ≤ _))

/-- Whether the poller has looked for a line among the channels: it does so only
with no line in hand and no job active, and forgets the cause of an unwinding. -/
inductive Looked (s : System) : Option Line → Option Cause → Prop
  | no : Looked s s.hand s.unwind_cause
  | yes (hhand : s.hand = none) (hjobs : s.jobs = []) (ops : Option (List Op)) :
      Looked s (ops.map fun ops => { source := .other, ops := ops }) none

/-- What a call of `Playlist::pollLine` adds to the event queue. -/
structure Posts (s : System) (env : Env) (extra : List EventItem) : Prop where
  posted : ∀ item ∈ extra, item.posted = some s.injected ∧
    item.event ∈ (pollLine env s.playlist).events
  room : s.Room env → ∀ event ∈ (pollLine env s.playlist).events, ∃ item ∈ extra, item.event = event

/-- Everything a move can do to the view, when it neither calls the playlist nor
handles an event. -/
inductive Goes (s : System) (a : Move) : View → Prop
  | still : Goes s a s.view
  | posted (event : Event) :
      Goes s a { s.view with event_queue := s.event_queue ++ [{ event := event }] }
  | advanced {source : Source} {op : Op} {ops rest : List Op}
      (hhand : s.hand = some { source := source, ops := op :: ops }) (hrest : rest <:+ ops) :
      Goes s a { s.view with hand := some { source := source, ops := rest }, moving := none }
  | moves {source : Source} {is_jog arc : Bool} {ops : List Op}
      (hhand : s.hand = some { source := source, ops := .move is_jog arc :: ops }) :
      Goes s a { s.view with hand := some { source := source, ops := ops }, moving := some source }
  | moved {source : Source} {ops rest : List Op} (hmoving : s.moving = some source)
      (hhand : s.hand = some { source := source, ops := ops }) (hrest : rest <:+ ops) :
      Goes s a { s.view with hand := some { source := source, ops := rest }, moving := none }
  | nested {source : Source} {ops : List Op} (hnests : s.nests a = some source)
      (hhand : s.hand = some { source := source, ops := .runFile true :: ops }) :
      Goes s a { s.view with
        hand := some { source := source, ops := ops }, moving := none
        jobs := { id := s.nested, origin := source.origin } :: s.jobs, nested := s.nested + 1 }
  | finished {source : Source} (hhand : s.hand = some { source := source, ops := [] }) :
      Goes s a { s.view with hand := none, moving := none }
  | requested (r : Request) : Goes s a { s.view with playlist := s.playlist.request r }
  | outside (state : State) {cause : Option Cause}
      (hcause : cause = some .Reset ∨ cause = s.unwind_cause) :
      Goes s a { s.view with state := state, unwind_cause := cause }
  | looked {hand : Option Line} {cause : Option Cause} (hlooked : Looked s hand cause) :
      Goes s a { s.view with hand := hand, unwind_cause := cause }
  | aborted (hhand : s.hand = none) (hcause : inAlarmState s.state = true ∨ s.unwind_cause ≠ none) :
      Goes s a { s.view with jobs := [], unwind_cause := none }
  | handed {job : Job} {ops : List Op} (hhand : s.hand = none) (hjob : s.jobs.head? = some job)
      (hsafe : inAlarmState s.state = false) (hcause : s.unwind_cause = none) :
      Goes s a { s.view with hand := some { source := .job job, ops := ops } }
  | ended {jobs : List Job} (hhand : s.hand = none) (hsuffix : jobs <:+ s.jobs)
      (hcause : s.unwind_cause = none) : Goes s a { s.view with jobs := jobs }

/-- Everything a move can do to the view. -/
inductive Did (s : System) (a : Move) : View → Prop
  | went (hcalls : s.calls a = none) (hhandles : s.handles a = none) {v : View} (hgoes : Goes s a v) :
      Did s a v
  | handled {item : EventItem} {rest : List EventItem} (hcalls : s.calls a = none)
      (hhandles : s.handles a = some item) (hqueue : s.event_queue = item :: rest) {state : State}
      (hignored : item.event = .stopJob → s.state.stoppable = false → state = s.state) :
      Did s a (s.view.handle item rest state)
  | called {env : Env} {extra : List EventItem} {hand : Option Line} {cause : Option Cause}
      (hcalls : s.calls a = some env) (hhandles : s.handles a = none)
      (hline : (pollLine env s.playlist).injected = none) (hposts : Posts s env extra)
      (hlooked : Looked s hand cause) :
      Did s a { s.view with
        playlist := (pollLine env s.playlist).toPlaylist, event_queue := s.event_queue ++ extra
        hand := hand, unwind_cause := cause }
  | injected {env : Env} {extra : List EventItem} {line : Bytes} {ops : List Op}
      (hcalls : s.calls a = some env) (hhandles : s.handles a = none) (hhand : s.hand = none)
      (hjobs : s.jobs = []) (hline : (pollLine env s.playlist).injected = some line)
      (hposts : Posts s env extra) :
      Did s a { s.view with
        playlist := (pollLine env s.playlist).toPlaylist, event_queue := s.event_queue ++ extra
        hand := some { source := .playlist (s.injected + 1), ops := ops }, unwind_cause := none
        injected := s.injected + 1 }

private theorem Did.of_eq {s : System} {a : Move} {v v' : View} (h : Did s a v) (heq : v' = v) : Did s a v' :=
  heq ▸ h

namespace System

/-- A full queue loses an event. -/
theorem protocol_send_event_eq (item : EventItem) (s : System) : s.protocol_send_event item =
    { s with event_queue :=
        if s.event_queue.length < EVENT_QUEUE_LENGTH then s.event_queue ++ [item] else s.event_queue } := by
  unfold protocol_send_event
  split_ifs <;> rfl

/-- What the poller performs goes to the end of the queue, as far as there is
room, and nowhere else but to the homing flag. -/
theorem perform_sent (sent : List Effect) (s : System) : ∃ extra home,
    sent.foldl perform s = { s with event_queue := s.event_queue ++ extra, rtStartHome := home } ∧
      (∀ item ∈ extra, item.posted = some s.injected ∧ item.event ∈ sent.filterMap Effect.event) ∧
      (s.event_queue.length + (sent.filterMap Effect.event).length ≤ EVENT_QUEUE_LENGTH →
        ∀ event ∈ sent.filterMap Effect.event, ∃ item ∈ extra, item.event = event) := by
  induction sent generalizing s with
  | nil => exact ⟨[], s.rtStartHome, by simp, by simp, by simp⟩
  | cons effect sent ih =>
    rw [List.foldl_cons]
    cases effect with
    | set_quiet_off off => exact ih s
    | start_home => exact ih { s with rtStartHome := true }
    | send event =>
      by_cases hroom : s.event_queue.length < EVENT_QUEUE_LENGTH
      · obtain ⟨extra, home, heq, hposted, hall⟩ := ih { s with
            event_queue := s.event_queue ++ [{ event := event, posted := some s.injected }] }
        have hsent : s.perform (.send event) = { s with
            event_queue := s.event_queue ++ [{ event := event, posted := some s.injected }] } := if_pos hroom
        refine ⟨{ event := event, posted := some s.injected } :: extra, home, ?_, ?_, ?_⟩
        · rw [hsent, heq, List.append_assoc]
          rfl
        · intro item hmem
          obtain rfl | hmem := List.mem_cons.mp hmem
          · exact ⟨rfl, List.mem_cons_self⟩
          · exact ⟨(hposted item hmem).1, List.mem_cons_of_mem _ (hposted item hmem).2⟩
        · intro hfits posted hmem
          obtain rfl | hmem := List.mem_cons.mp hmem
          · exact ⟨_, List.mem_cons_self, rfl⟩
          · have hrest : (s.event_queue ++ [(⟨event, some s.injected⟩ : EventItem)]).length +
                (sent.filterMap Effect.event).length ≤ EVENT_QUEUE_LENGTH := by
              simp only [List.filterMap_cons, Effect.event, List.length_cons] at hfits
              simp only [List.length_append, List.length_singleton]
              omega
            obtain ⟨item, hitem, hevent⟩ := hall hrest posted hmem
            exact ⟨item, List.mem_cons_of_mem _ hitem, hevent⟩
      · obtain ⟨extra, home, heq, hposted, _⟩ := ih s
        have hlost : s.perform (.send event) = s := if_neg hroom
        refine ⟨extra, home, by rw [hlost, heq], fun item hmem => ?_, fun hfits => ?_⟩
        · exact ⟨(hposted item hmem).1, List.mem_cons_of_mem _ (hposted item hmem).2⟩
        · simp only [List.filterMap_cons, Effect.event, List.length_cons] at hfits
          omega

/-- What a call of the playlist leaves behind. -/
theorem pollPlaylist_eq (line : Bool) (env : Env) (s : System) : ∃ extra home,
    Posts s (s.around line env) extra ∧ s.pollPlaylist line env =
      { s with
        event_queue := s.event_queue ++ extra, rtStartHome := home
        playlist := (pollLine (s.around line env) s.playlist).toPlaylist } := by
  obtain ⟨extra, home, heq, hposted, hroom⟩ :=
    perform_sent (pollLine (s.around line env) s.playlist).sent s
  refine ⟨extra, home, ⟨hposted, hroom⟩, ?_⟩
  unfold pollPlaylist
  dsimp only
  rw [heq]

/-- The handler of an event shows in the view as `View.handle` says. -/
theorem handle_view (item : EventItem) (rest : List EventItem) (s : System) : ∃ state,
    (item.event = .stopJob → s.state.stoppable = false → state = s.state) ∧
      (handle item { s with event_queue := rest }).view = s.view.handle item rest state := by
  refine ⟨(handle item { s with event_queue := rest }).state, fun hstop hstate => ?_, ?_⟩
  · unfold handle
    rw [hstop]
    dsimp only
    rw [Realtime.protocol_do_stop_job_ignored _ _ _ hstate]
  · have hjobs : (!s.jobs.isEmpty) = true ↔ s.jobs ≠ [] := by simp
    have hstop := Realtime.protocol_do_stop_job_unwind_cause s.toRealtime (!s.jobs.isEmpty) item.posted
    simp only [hjobs] at hstop
    obtain ⟨event, posted⟩ := item
    cases event <;> simp_all [handle, View.handle, view, hand, moving, nest]

theorem channels_did {s : System} (pass : Pass) (hpoller : s.poller = .channels) :
    Did s (.poller pass) (s.pollChannels pass).view := by
  unfold pollChannels
  dsimp only
  by_cases hcounter : s.counter > 0
  · rw [if_pos hcounter]
    refine .went ?_ rfl .still
    simp [calls, hpoller]
    omega
  · rw [if_neg hcounter]
    by_cases hreached : pass.reached
    · rw [if_pos hreached]
      obtain ⟨extra, home, hposts, heq⟩ :=
        pollPlaylist_eq false pass.env { s with poller := .line, counter := POLL_THROTTLE }
      rw [heq]
      have hcalls : s.calls (.poller pass) = some (s.around false pass.env) := by
        simp [calls, hpoller, hreached]
        omega
      refine .called hcalls rfl ?_ ⟨hposts.posted, hposts.room⟩ .no
      by_contra hline
      obtain ⟨_, _, _, _, hready, _⟩ := pollLine_injected hline
      exact absurd hready.line Bool.false_ne_true
    · rw [if_neg hreached]
      refine .went ?_ rfl .still
      simp [calls, hpoller, hreached]

/-- With no line in hand, the line in hand is `activeLine`. -/
private theorem hand_of_free {s : System} (hfree : s.main = .top ∨ s.main = .autoCycleStart ∨ s.main = .realtime) :
    s.hand = s.activeLine ∧ s.moving = none := by
  unfold hand moving
  obtain h | h | h := hfree <;> rw [h] <;> exact ⟨rfl, rfl⟩

/-- Then the view is as if the main task were at the top of its loop. -/
private theorem view_of_free {s : System} (hfree : s.main = .top ∨ s.main = .autoCycleStart ∨ s.main = .realtime) :
    s.view = { s.view with hand := s.activeLine, moving := none } := by
  obtain ⟨hhand, hmoving⟩ := hand_of_free hfree
  unfold view
  rw [hhand, hmoving]

/-- With no job active the poller looks for a line among the channels. -/
private theorem pollForLine_did {s : System} (pass : Pass) (hpoller : s.poller = .line) (hbusy : s.Busy)
    (hactive : s.activeLine = none) (hjobs : s.jobs = []) :
    Did s (.poller pass)
      (pollForLine pass { s with poller := .channels, unwind_cause := none }).view := by
  have hfree := hbusy hactive
  obtain ⟨hhand, hmoving⟩ := hand_of_free hfree
  have hnoLine : s.hand = none := hhand.trans hactive
  have hlooked := Looked.yes hnoLine hjobs pass.other
  unfold pollForLine
  dsimp only
  by_cases hreached : pass.reached
  · have hcalls : s.calls (.poller pass) = some (s.around true pass.env) := by
      simp [calls, hpoller, hactive, hjobs, hreached]
    obtain ⟨extra, home, hposts, heq⟩ := pollPlaylist_eq true pass.env
      { s with poller := .channels, unwind_cause := none, counter := POLL_THROTTLE }
    rw [if_pos hreached, heq]
    have hposts' : Posts s (s.around true pass.env) extra := ⟨hposts.posted, hposts.room⟩
    have haround : around true pass.env
        { s with poller := .channels, unwind_cause := none, counter := POLL_THROTTLE } =
          s.around true pass.env := rfl
    rw [haround]
    cases hline : (pollLine (s.around true pass.env) s.playlist).injected with
    | none =>
      refine (Did.called hcalls rfl hline hposts' hlooked).of_eq ?_
      refine (view_of_free ?_).trans ?_
      · exact hfree
      · simp only [view, hmoving, around]
    | some line =>
      refine (@Did.injected _ _ _ _ _ ((if pass.normalizes then [.synchronize] else []) ++ [.runFile pass.opens])
        hcalls rfl hnoLine hjobs hline hposts').of_eq ?_
      refine (view_of_free ?_).trans ?_
      · exact hfree
      · simp only [view, hmoving, around]
  · rw [if_neg hreached]
    have hcalls : s.calls (.poller pass) = none := by simp [calls, hpoller, hreached]
    refine (Did.went hcalls rfl (.looked hlooked)).of_eq ?_
    refine (view_of_free ?_).trans ?_
    · exact hfree
    · simp only [view, hmoving]

theorem lines_did {s : System} (pass : Pass) (hpoller : s.poller = .line) (hbusy : s.Busy) :
    Did s (.poller pass) (s.pollLines pass).view := by
  unfold pollLines
  dsimp only
  cases hactive : s.activeLine with
  | some line =>
    dsimp only
    rw [← hactive]
    refine .went ?_ rfl .still
    simp [calls, hpoller, hactive]
  | none =>
    obtain ⟨hhand, hmoving⟩ := hand_of_free (hbusy hactive)
    have hnoLine : s.hand = none := hhand.trans hactive
    dsimp only
    cases hjobs : s.jobs with
    | nil =>
      dsimp only
      rw [← hjobs, ← hactive]
      exact pollForLine_did pass hpoller hbusy hactive hjobs
    | cons job rest =>
      have hcalls : s.calls (.poller pass) = none := by simp [calls, hpoller, hjobs]
      dsimp only
      rw [← hjobs, ← hactive]
      by_cases halarm : inAlarmState s.state
      · rw [if_pos halarm]
        exact .went hcalls rfl (.aborted hnoLine (.inl halarm))
      rw [if_neg halarm]
      by_cases hcause : s.unwind_cause.isSome
      · rw [if_pos hcause]
        exact .went hcalls rfl (.aborted hnoLine (.inr (by simpa [Option.isSome_iff_ne_none] using hcause)))
      rw [if_neg hcause]
      have hsafe := eq_false_of_ne_true halarm
      have hnoCause : s.unwind_cause = none := by simpa using hcause
      cases pass.job with
      | line ops =>
        refine (Did.went hcalls rfl (@Goes.handed _ _ job ops hnoLine (by rw [hjobs]; rfl) hsafe hnoCause)).of_eq ?_
        refine (view_of_free ?_).trans ?_
        · exact hbusy hactive
        · simp only [view, hmoving]
      | noData => exact .went hcalls rfl .still
      | eof =>
        exact .went hcalls rfl (.ended hnoLine ⟨[job], hjobs.symm⟩ hnoCause)
      | error => exact .went hcalls rfl (.ended hnoLine List.nil_suffix hnoCause)

/-- `protocol_auto_cycle_start` posts an event at most. -/
private theorem auto_cycle_start_goes (s : System) (main : MainPc)
    (hhand : System.hand { s with main := main } = s.hand)
    (hmoving : System.moving { s with main := main } = s.moving) :
    Goes s .main (System.view { s.protocol_auto_cycle_start with main := main }) := by
  have hview : ∀ queue, System.view { s with event_queue := queue, main := main } =
      { s.view with event_queue := queue } := by
    intro queue
    unfold view
    congr 1
  unfold protocol_auto_cycle_start
  split_ifs
  · rw [protocol_send_event_eq]
    split_ifs
    · exact (hview _).symm ▸ .posted .cycleStart
    · exact (hview s.event_queue).symm ▸ .still
  · exact (hview s.event_queue).symm ▸ .still

private theorem afterMove_suffix (arc : Bool) (ops : List Op) (s : System) : s.afterMove arc ops <:+ ops := by
  unfold afterMove
  split_ifs
  · exact List.dropWhile_suffix _
  · exact List.suffix_rfl

/-- What `protocol_execute_realtime` does to the view: it handles the first event
of the queue, waits, or goes on. -/
private theorem execute_realtime_did {s : System} {resume : System → System}
    (hhandles : s.handles .main = s.event_queue.head?) (hresume : s.event_queue = [] → Goes s .main (resume s).view) :
    Did s .main (s.protocol_execute_realtime resume).view := by
  unfold protocol_execute_realtime
  cases hqueue : s.event_queue with
  | nil =>
    rw [hqueue] at hhandles
    dsimp only
    split_ifs
    · refine (Did.went rfl hhandles .still).of_eq ?_
      simp only [view, hand, moving, hqueue, Realtime.mc_cancel_jog_unwind_cause, Realtime.mc_cancel_jog_state]
    · exact .went rfl hhandles .still
    · exact .went rfl hhandles (hresume hqueue)
  | cons item rest =>
    rw [hqueue] at hhandles
    obtain ⟨state, hignored, hview⟩ := handle_view item rest s
    dsimp only
    rw [hview]
    exact .handled rfl hhandles hqueue hignored

theorem main_did (s : System) : Did s .main s.protocol_main_loop.view := by
  unfold protocol_main_loop
  cases hmain : s.main with
  | top =>
    have hhandles : s.handles .main = none := by simp only [handles, hmain]
    dsimp only
    cases hactive : s.activeLine with
    | some line => exact (Did.went rfl hhandles .still).of_eq (by simp only [view, hand, moving, hmain, hactive])
    | none => exact (Did.went rfl hhandles .still).of_eq (by simp only [view, hand, moving, hmain, hactive])
  | autoCycleStart =>
    refine .went rfl (by simp only [handles, hmain]) (auto_cycle_start_goes s _ ?_ ?_)
    · simp only [hand, hmain]
    · simp only [moving, hmain]
  | exec source ops =>
    have hhand : s.hand = some { source := source, ops := ops } := by simp only [hand, hmain]
    have hhandles : s.handles .main = none := by simp only [handles, hmain]
    cases ops with
    | nil => exact .went rfl hhandles (.finished hhand)
    | cons op ops =>
      cases op with
      | synchronize => exact .went rfl hhandles (.advanced hhand List.suffix_rfl)
      | runFile opens =>
        unfold runFile
        dsimp only
        split_ifs with hfails
        · exact .went rfl hhandles (.advanced hhand List.suffix_rfl)
        · obtain rfl : opens = true := by simpa using fun h => hfails (.inr (.inr h))
          have hnests : s.nests .main = some source := by
            simp only [nests, hmain]
            exact if_neg fun h => hfails (h.elim .inl fun h => .inr (.inl h))
          exact .went rfl hhandles (.nested hnests hhand)
      | move is_jog arc =>
        dsimp only
        split_ifs
        · exact .went rfl hhandles (.advanced hhand (afterMove_suffix arc ops s))
        · exact .went rfl hhandles (.moves hhand)
  | move source is_jog arc ops =>
    have hhand : s.hand = some { source := source, ops := ops } := by simp only [hand, hmain]
    have hmoving : s.moving = some source := by simp only [moving, hmain]
    have hhandles : s.handles .main = none := by simp only [handles, hmain]
    dsimp only
    split_ifs
    · exact .went rfl hhandles (auto_cycle_start_goes s _ hhand.symm hmoving.symm)
    · exact .went rfl hhandles (.moved hmoving hhand (afterMove_suffix arc ops s))
    · exact .went rfl hhandles (.moved hmoving hhand (afterMove_suffix arc ops s))
  | moveRealtime source is_jog arc ops =>
    have hhand : s.hand = some { source := source, ops := ops } := by simp only [hand, hmain]
    have hmoving : s.moving = some source := by simp only [moving, hmain]
    refine execute_realtime_did (by simp only [handles, hmain]) fun _ => ?_
    split_ifs
    · exact .moved hmoving hhand (afterMove_suffix arc ops s)
    · rw [show System.view { s with main := .move source is_jog arc ops } = s.view from
        by simp only [view, hand, moving, hmain]]
      exact .still
  | synchronize source ops =>
    refine .went rfl (by simp only [handles, hmain]) (auto_cycle_start_goes s _ ?_ ?_)
    · simp only [hand, hmain]
    · simp only [moving, hmain]
  | synchronizeRealtime source ops =>
    refine execute_realtime_did (by simp only [handles, hmain]) fun _ => ?_
    split_ifs
    · rw [show System.view { s with main := .synchronize source ops } = s.view from
        by simp only [view, hand, moving, hmain]]
      exact .still
    · rw [show System.view { s with main := .exec source ops } = s.view from
        by simp only [view, hand, moving, hmain]]
      exact .still
  | realtime =>
    refine execute_realtime_did (by simp only [handles, hmain]) fun _ => ?_
    rw [show System.view { s with abort := false, rtStopJob := _, main := .top } = s.view from
      by simp only [view, hand, moving, hmain]]
    exact .still

/-- The poller tells the playlist whether a job is active. -/
theorem calls_job_active {s : System} {a : Move} {env : Env} (hcalls : s.calls a = some env) :
    env.job_active = true ↔ s.jobs ≠ [] := by
  have haround : ∃ line before, env = s.around line before := by
    unfold calls at hcalls
    split at hcalls
    · split at hcalls
      all_goals
        split_ifs at hcalls
        exact ⟨_, _, (Option.some.inj hcalls).symm⟩
    · simp at hcalls
  obtain ⟨line, before, rfl⟩ := haround
  simp [around]

/-- One step of the system, as it shows in the view. -/
theorem step_did {s : System} (hbusy : s.Busy) (a : Move) : Did s a (s.step a).view := by
  cases a with
  | poller pass =>
    cases hpoller : s.poller with
    | channels =>
      rw [show s.step (.poller pass) = s.pollChannels pass by simp only [step, polling_loop, hpoller]]
      exact channels_did pass hpoller
    | line =>
      rw [show s.step (.poller pass) = s.pollLines pass by simp only [step, polling_loop, hpoller]]
      exact lines_did pass hpoller hbusy
  | main => exact main_did s
  | request r => exact .went rfl rfl (.requested (r.inState s.state))
  | post event =>
    refine .went rfl rfl ?_
    rw [step, protocol_send_event_eq]
    split_ifs
    · exact .posted event
    · exact .still
  | discard => exact .went rfl rfl .still
  | outside o =>
    refine .went rfl rfl (@Goes.outside _ _ o.state (s.outside o).unwind_cause ?_)
    unfold outside
    cases o.late_reset
    · exact .inr rfl
    · exact .inl rfl

private theorem Busy.of_same {s s' : System} (h : s.Busy) (hmain : s'.main = s.main)
    (hactive : s'.activeLine = none → s.activeLine = none) : s'.Busy := by
  intro hnone
  rw [hmain]
  exact h (hactive hnone)

private theorem Busy.of_line {s : System} (h : s.activeLine ≠ none) : s.Busy := fun hnone => absurd hnone h

theorem Busy.of_free {s : System}
    (h : s.main = .top ∨ s.main = .autoCycleStart ∨ s.main = .realtime) : s.Busy := fun _ => h

private theorem pollPlaylist_keeps (line : Bool) (env : Env) (s : System) :
    (s.pollPlaylist line env).main = s.main ∧ (s.pollPlaylist line env).activeLine = s.activeLine := by
  obtain ⟨_, _, _, heq⟩ := pollPlaylist_eq line env s
  rw [heq]
  exact ⟨rfl, rfl⟩

private theorem pollForLine_main (pass : Pass) (s : System) : (s.pollForLine pass).main = s.main := by
  have hsame := (pollPlaylist_keeps true pass.env { s with counter := POLL_THROTTLE }).1
  unfold pollForLine
  dsimp only
  by_cases hreached : pass.reached
  · rw [if_pos hreached]
    split
    · exact hsame
    · exact hsame
  · rw [if_neg hreached]

private theorem polling_loop_busy {s : System} (h : s.Busy) (pass : Pass) : (s.polling_loop pass).Busy := by
  unfold polling_loop
  cases s.poller with
  | channels =>
    dsimp only
    unfold pollChannels
    dsimp only
    split_ifs
    · exact h.of_same rfl id
    · obtain ⟨hmain, hactive⟩ :=
        pollPlaylist_keeps false pass.env { s with poller := .line, counter := POLL_THROTTLE }
      exact h.of_same hmain fun hnone => hactive.symm.trans hnone
    · exact h.of_same rfl id
  | line =>
    dsimp only
    unfold pollLines
    dsimp only
    cases hactive : s.activeLine with
    | some line => exact .of_line (by simp only [ne_eq, reduceCtorEq, not_false_eq_true])
    | none =>
      dsimp only
      cases s.jobs with
      | nil =>
        refine .of_free ?_
        have hfree := h hactive
        dsimp only
        rw [pollForLine_main]
        exact hfree
      | cons job rest =>
        refine .of_free ?_
        have hfree := h hactive
        dsimp only
        unfold abortJobs
        split_ifs
        · exact hfree
        · exact hfree
        · cases pass.job <;> exact hfree

private theorem handle_keeps (item : EventItem) (s : System) :
    (s.handle item).main = s.main ∧ (s.handle item).activeLine = s.activeLine := by
  unfold handle
  cases item.event <;> exact ⟨rfl, rfl⟩

private theorem execute_realtime_busy {s : System} (h : s.Busy) {resume : System → System}
    (hresume : (resume s).Busy) : (s.protocol_execute_realtime resume).Busy := by
  unfold protocol_execute_realtime
  cases s.event_queue with
  | nil =>
    dsimp only
    split_ifs
    · exact h.of_same rfl id
    · exact h
    · exact hresume
  | cons item rest =>
    obtain ⟨hmain, hactive⟩ := handle_keeps item { s with event_queue := rest }
    exact h.of_same hmain fun hnone => hactive.symm.trans hnone

private theorem auto_cycle_start_keeps (s : System) :
    (s.protocol_auto_cycle_start).main = s.main ∧ (s.protocol_auto_cycle_start).activeLine = s.activeLine := by
  unfold protocol_auto_cycle_start
  split_ifs
  · rw [protocol_send_event_eq]
    exact ⟨rfl, rfl⟩
  · exact ⟨rfl, rfl⟩

private theorem main_busy {s : System} (h : s.Busy) : s.protocol_main_loop.Busy := by
  unfold protocol_main_loop
  cases hmain : s.main with
  | top =>
    dsimp only
    cases hactive : s.activeLine with
    | some line => exact .of_line (by simp only [ne_eq, reduceCtorEq, not_false_eq_true])
    | none => exact .of_free (.inr (.inl rfl))
  | autoCycleStart => exact .of_free (.inr (.inr rfl))
  | exec source ops =>
    have hline : s.activeLine ≠ none := fun hnone => by simpa [hmain] using h hnone
    cases ops with
    | nil => exact .of_free (.inr (.inl rfl))
    | cons op ops =>
      cases op with
      | synchronize => exact .of_line hline
      | runFile opens =>
        unfold runFile
        dsimp only
        split_ifs <;> exact .of_line hline
      | move is_jog arc =>
        dsimp only
        split_ifs <;> exact .of_line hline
  | move source is_jog arc ops =>
    have hline : s.activeLine ≠ none := fun hnone => by simpa [hmain] using h hnone
    dsimp only
    split_ifs
    · exact .of_line ((auto_cycle_start_keeps s).2.symm ▸ hline)
    · exact .of_line hline
    · exact .of_line hline
  | moveRealtime source is_jog arc ops =>
    have hline : s.activeLine ≠ none := fun hnone => by simpa [hmain] using h hnone
    refine execute_realtime_busy h ?_
    split_ifs <;> exact .of_line hline
  | synchronize source ops =>
    have hline : s.activeLine ≠ none := fun hnone => by simpa [hmain] using h hnone
    exact .of_line ((auto_cycle_start_keeps s).2.symm ▸ hline)
  | synchronizeRealtime source ops =>
    have hline : s.activeLine ≠ none := fun hnone => by simpa [hmain] using h hnone
    refine execute_realtime_busy h ?_
    split_ifs <;> exact .of_line hline
  | realtime => exact execute_realtime_busy h (.of_free (.inl rfl))

/-- A line in execution keeps `activeLine` taken, so that the poller gives out no
other. -/
theorem step_busy {s : System} (h : s.Busy) (a : Move) : (s.step a).Busy := by
  cases a with
  | poller pass => exact polling_loop_busy h pass
  | main => exact main_busy h
  | request r => exact h.of_same rfl id
  | post event =>
    rw [step, protocol_send_event_eq]
    exact h.of_same rfl id
  | discard => exact h.of_same rfl id
  | outside o => exact h.of_same rfl id

end System

end DuneWeaver
