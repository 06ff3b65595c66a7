import DuneWeaver.Protocol.Steps
import Mathlib.Data.Rat.Floor
import DuneWeaver.Transition.Run

open Transition

namespace DuneWeaver

/-- A goto that has been accepted: `gotoHasTheta` and the other variables beside the flag. -/
structure Goto where
  hasTheta : Bool := false
  theta : ℚ := 0
  hasRho : Bool := false
  rho : ℚ := 0
  feed : ℚ := 0
  deriving DecidableEq

/-- The limits of the two axes of a gantry. -/
structure Travel where
  minX : ℚ
  maxX : ℚ
  minY : ℚ
  maxY : ℚ

def clamp (v lo hi : ℚ) : ℚ := if v < lo then lo else if v > hi then hi else v

/-- `SandApi::goTo`. `active` says that the table is round. -/
def goTo (active : Bool) (effectiveFeed : ℚ) (state : State) (hasTheta : Bool) (theta : ℚ) (hasRho : Bool) (rho : ℚ) :
    Except Error Goto :=
  if ¬ active then .error .InvalidStatement
  else if ¬ hasTheta ∧ ¬ hasRho then .error .InvalidValue
  else if state ≠ .Idle then .error .IdleError
  else
    let rho := if hasRho then clamp rho 0 1 else rho
    let feed := if effectiveFeed ≤ 0 then 1000 else effectiveFeed
    .ok { hasTheta, theta, hasRho, rho, feed }

/-- `SandApi::goToXY`. -/
def goToXY (active : Bool) (travel : Travel) (state : State) (hasX : Bool) (x : ℚ) (hasY : Bool) (y : ℚ) :
    Except Error Goto :=
  if active then .error .InvalidStatement
  else if ¬ hasX ∧ ¬ hasY then .error .InvalidValue
  else if state ≠ .Idle then .error .IdleError
  else
    let x := if hasX then clamp x travel.minX travel.maxX else x
    let y := if hasY then clamp y travel.minY travel.maxY else y
    .ok { hasTheta := hasX, theta := x, hasRho := hasY, rho := y, feed := 1000 }

/-- A number that is halfway between two goes to the even one. -/
def roundEven (v : ℚ) : Nat :=
  let whole := ⌊v⌋.toNat
  if v - ⌊v⌋ < 1 / 2 then whole
  else if v - ⌊v⌋ > 1 / 2 then whole + 1
  else if whole % 2 = 0 then whole else whole + 1

/-- What `%.nf` prints. -/
def fixed (places : Nat) (v : ℚ) : Bytes :=
  let scaled := roundEven (|v| * 10 ^ places)
  let fraction := digits (scaled % 10 ^ places)
  (if v < 0 then bytes "-" else []) ++ digits (scaled / 10 ^ places) ++ bytes "." ++
    List.replicate (places - fraction.length) 0x30 ++ fraction

/-- `gline`. -/
def Goto.gline (g : Goto) : Bytes :=
  bytes "G90G1" ++ (if g.hasTheta then bytes "X" ++ fixed 5 g.theta else []) ++
    (if g.hasRho then bytes "Y" ++ fixed 5 g.rho else []) ++ bytes "F" ++ fixed 1 g.feed

/-- Where the main task stands beside `MainPc`: in its loop, at the checks at the
end of it, or executing the line of a goto. -/
inductive LoopPc where
  | loop
  | checks
  | goto
  deriving DecidableEq

/-- The system with the gotos. `files` are the jobs that `runFile` has nested. -/
structure GotoSystem extends System where
  rtStartGoto : Bool := false
  goto : Goto := {}
  loop_pc : LoopPc := .loop
  files : List Nat := []

/-- A step of the system, or a goto that is asked for. When the main task starts the
line of a goto, it comes to so many segments. -/
inductive GotoMove where
  | system (a : Move) (segments : Nat)
  | goTo (active : Bool) (effectiveFeed : ℚ) (hasTheta : Bool) (theta : ℚ) (hasRho : Bool) (rho : ℚ)
  | goToXY (active : Bool) (travel : Travel) (hasX : Bool) (x : ℚ) (hasY : Bool) (y : ℚ)

namespace GotoSystem

/-- The system goes on, and a file that is nested is noted. -/
def systemStep (s : GotoSystem) (a : Move) : GotoSystem :=
  { s with
    toSystem := s.toSystem.step a
    files := if (s.nests a).isSome then s.nested :: s.files else s.files }

/-- The main task goes on by one step. -/
def protocol_main_loop (s : GotoSystem) (segments : Nat) : GotoSystem :=
  match s.loop_pc with
  | .loop =>
    let t := s.systemStep .main
    if s.main = .realtime ∧ t.main = .top then { t with loop_pc := .checks } else t
  | .checks =>
    if s.rtStartGoto then
      let s := { s with loop_pc := .loop, rtStartGoto := false }
      if s.state = .Idle ∧ s.goto.gline.length < LINE_BUFFER_SIZE then
        { s with loop_pc := .goto, main := .exec .other (List.replicate segments (.move false false)) }
      else s
    else { s with loop_pc := .loop }
  | .goto =>
    match s.main with
    | .exec _ [] => { s with loop_pc := .loop, main := .top }
    | _ => s.systemStep .main

/-- `protocol_request_goto`, for a goto that has been accepted. -/
def protocol_request_goto (s : GotoSystem) : Except Error Goto → GotoSystem
  | .ok goto => { s with goto, rtStartGoto := true }
  | .error _ => s

def step (s : GotoSystem) : GotoMove → GotoSystem
  | .system .main segments => s.protocol_main_loop segments
  | .system a _ => s.systemStep a
  | .goTo active effectiveFeed hasTheta theta hasRho rho =>
    s.protocol_request_goto (goTo active effectiveFeed s.state hasTheta theta hasRho rho)
  | .goToXY active travel hasX x hasY y =>
    s.protocol_request_goto (goToXY active travel s.state hasX x hasY y)

/-- No file is on the job stack. -/
def PatternFree (s : GotoSystem) : Prop := ∀ job ∈ s.jobs, job.id ∉ s.files

/-- While the line of a goto is executed, no pattern is. -/
def Undisturbed (s : GotoSystem) : Prop := s.loop_pc = .goto → s.PatternFree

/-- The goto that is asked for is accepted. -/
def accepts (s : GotoSystem) : GotoMove → Bool
  | .system _ _ => false
  | .goTo active effectiveFeed hasTheta theta hasRho rho =>
    (goTo active effectiveFeed s.state hasTheta theta hasRho rho).toBool
  | .goToXY active travel hasX x hasY y => (goToXY active travel s.state hasX x hasY y).toBool

/-- The main task nests the job of a file. -/
def nestsFile (s : GotoSystem) : GotoMove → Bool
  | .system .main _ => s.loop_pc = .loop && (s.nests .main).isSome
  | _ => false

/-- No goto is accepted while a file is on the job stack, and no file is nested while a
goto is pending. -/
def Considerate (s : GotoSystem) (a : GotoMove) : Prop :=
  (s.accepts a → s.PatternFree) ∧ (s.nestsFile a → s.rtStartGoto = false)

instance (s : GotoSystem) : Decidable s.PatternFree := inferInstanceAs (Decidable (∀ job ∈ s.jobs, job.id ∉ s.files))

instance (s : GotoSystem) (a : GotoMove) : Decidable (s.Considerate a) := inferInstanceAs (Decidable (_ ∧ _))

end GotoSystem

namespace System

/-- A job that comes onto the stack has a number of its own. -/
structure Grows (s t : System) : Prop where
  nested : s.nested ≤ t.nested
  jobs : ∀ job ∈ t.jobs, job ∈ s.jobs ∨ job.id = s.nested

theorem Grows.of_jobs {s t : System} (hjobs : t.jobs <:+ s.jobs) (hnested : t.nested = s.nested) : Grows s t where
  nested := hnested.ge
  jobs := fun _ hmem => Or.inl (hjobs.mem hmem)

theorem Grows.of_eq {s t : System} (hjobs : t.jobs = s.jobs) (hnested : t.nested = s.nested) : Grows s t :=
  .of_jobs (hjobs ▸ List.suffix_refl _) hnested

private theorem nest_grows (origin : Option Nat) (s : System) : Grows s (s.nest origin) where
  nested := Nat.le_succ _
  jobs := by
    intro job hmem
    rcases List.mem_cons.mp hmem with rfl | hmem
    · exact Or.inr rfl
    · exact Or.inl hmem

private theorem handle_grows (item : EventItem) (s : System) : Grows s (s.handle item) := by
  unfold handle
  cases item.event with
  | doMacro => exact nest_grows none s
  | _ => exact .of_eq rfl rfl

private theorem execute_realtime_grows {s : System} {resume : System → System} (hresume : Grows s (resume s)) :
    Grows s (s.protocol_execute_realtime resume) := by
  unfold protocol_execute_realtime
  cases s.event_queue with
  | nil =>
    dsimp only
    split_ifs
    · exact .of_eq rfl rfl
    · exact .of_eq rfl rfl
    · exact hresume
  | cons item rest =>
    obtain ⟨hnested, hjobs⟩ := handle_grows item { s with event_queue := rest }
    exact ⟨hnested, hjobs⟩

private theorem auto_cycle_start_grows (s : System) : Grows s s.protocol_auto_cycle_start := by
  unfold protocol_auto_cycle_start
  split_ifs
  · rw [protocol_send_event_eq]
    exact .of_eq rfl rfl
  · exact .of_eq rfl rfl

/-- The poller, when it looks for a line, leaves the job stack and the main task alone. -/
private theorem pollPlaylist_kept (line : Bool) (env : Env) (s : System) :
    (s.pollPlaylist line env).jobs = s.jobs ∧ (s.pollPlaylist line env).nested = s.nested ∧
      (s.pollPlaylist line env).main = s.main := by
  obtain ⟨_, _, _, heq⟩ := pollPlaylist_eq line env s
  rw [heq]
  exact ⟨rfl, rfl, rfl⟩

private theorem pollForLine_kept (pass : Pass) (s : System) :
    (s.pollForLine pass).jobs = s.jobs ∧ (s.pollForLine pass).nested = s.nested ∧
      (s.pollForLine pass).main = s.main := by
  have hpolled := pollPlaylist_kept true pass.env { s with counter := POLL_THROTTLE }
  unfold pollForLine
  dsimp only
  by_cases hreached : pass.reached
  · rw [if_pos hreached]
    split
    · exact hpolled
    · exact hpolled
  · rw [if_neg hreached]
    exact ⟨rfl, rfl, rfl⟩

private theorem polling_loop_kept (pass : Pass) (s : System) :
    (s.polling_loop pass).jobs <:+ s.jobs ∧ (s.polling_loop pass).nested = s.nested ∧
      (s.polling_loop pass).main = s.main := by
  have hsame : s.jobs <:+ s.jobs ∧ s.nested = s.nested ∧ s.main = s.main := ⟨List.suffix_refl _, rfl, rfl⟩
  unfold polling_loop
  cases s.poller with
  | channels =>
    dsimp only
    unfold pollChannels
    dsimp only
    split_ifs
    · exact hsame
    · obtain ⟨hjobs, hnested, hmain⟩ :=
        pollPlaylist_kept false pass.env { s with poller := .line, counter := POLL_THROTTLE }
      refine ⟨?_, hnested, hmain⟩
      simp only [hjobs, List.suffix_refl]
    · exact hsame
  | line =>
    dsimp only
    unfold pollLines
    dsimp only
    split
    · exact hsame
    · split
      · obtain ⟨hjobs, hnested, hmain⟩ := pollForLine_kept pass { s with poller := .channels, unwind_cause := none }
        refine ⟨?_, hnested, hmain⟩
        simp only [hjobs, List.suffix_refl]
      · rename_i job rest hjobs
        unfold abortJobs
        split_ifs
        · exact ⟨List.nil_suffix, rfl, rfl⟩
        · exact ⟨List.nil_suffix, rfl, rfl⟩
        · cases pass.job with
          | line ops => exact hsame
          | noData => exact hsame
          | eof => exact ⟨hjobs ▸ List.suffix_cons job rest, rfl, rfl⟩
          | error => exact ⟨List.nil_suffix, rfl, rfl⟩

theorem step_grows (s : System) (a : Move) : Grows s (s.step a) := by
  cases a with
  | poller pass =>
    obtain ⟨hjobs, hnested, -⟩ := polling_loop_kept pass s
    exact .of_jobs hjobs hnested
  | request r => exact .of_eq rfl rfl
  | post event =>
    rw [step, protocol_send_event_eq]
    exact .of_eq rfl rfl
  | discard => exact .of_eq rfl rfl
  | outside o => exact .of_eq rfl rfl
  | main =>
    unfold step protocol_main_loop
    cases s.main with
    | top =>
      dsimp only
      cases s.activeLine <;> exact .of_eq rfl rfl
    | autoCycleStart => exact { auto_cycle_start_grows s with }
    | exec source ops =>
      cases ops with
      | nil => exact .of_eq rfl rfl
      | cons op ops =>
        cases op with
        | synchronize => exact .of_eq rfl rfl
        | runFile opens =>
          unfold runFile
          dsimp only
          split_ifs
          · exact .of_eq rfl rfl
          · exact { nest_grows source.origin s with }
        | move is_jog arc =>
          dsimp only
          split_ifs <;> exact .of_eq rfl rfl
    | move source is_jog arc ops =>
      dsimp only
      split_ifs
      · exact { auto_cycle_start_grows s with }
      · exact .of_eq rfl rfl
      · exact .of_eq rfl rfl
    | moveRealtime source is_jog arc ops =>
      apply execute_realtime_grows
      split_ifs <;> exact .of_eq rfl rfl
    | synchronize source ops => exact { auto_cycle_start_grows s with }
    | synchronizeRealtime source ops =>
      apply execute_realtime_grows
      split_ifs <;> exact .of_eq rfl rfl
    | realtime => exact execute_realtime_grows (.of_eq rfl rfl)

/-- A file that is nested takes the next number. -/
theorem nests_nested {s : System} {a : Move} (hnests : (s.nests a).isSome) : (s.step a).nested = s.nested + 1 := by
  unfold nests at hnests
  cases a with
  | main =>
    simp only at hnests
    split at hnests
    · rename_i source ops hmain
      split_ifs at hnests with halarm
      · simp at hnests
      · simp only [step, protocol_main_loop, hmain, runFile]
        rw [if_neg (by simpa using halarm)]
        rfl
    · simp at hnests
  | _ => simp at hnests

/-- What the main task has in hand is a line that comes to motions only. -/
def Moving (s : System) : Prop := ∃ ops, (∀ op ∈ ops, op = .move false false) ∧
  (s.main = .exec .other ops ∨ s.main = .move .other false false ops ∨ s.main = .moveRealtime .other false false ops)

/-- Such a line nests no job. -/
theorem Moving.nests {s : System} (h : s.Moving) : s.nests .main = none := by
  obtain ⟨ops, hops, hmain | hmain | hmain⟩ := h
  · unfold System.nests
    rw [hmain]
    dsimp only
    split
    · rename_i source rest heq
      simp only [MainPc.exec.injEq] at heq
      have hop := hops (.runFile true) (by rw [heq.2]; exact List.mem_cons_self)
      cases hop
    · rfl
  · simp only [System.nests, hmain]
  · simp only [System.nests, hmain]

/-- Only the main task turns to something else. -/
theorem step_main {s : System} {a : Move} (ha : a ≠ .main) : (s.step a).main = s.main := by
  cases a with
  | poller pass => exact (polling_loop_kept pass s).2.2
  | post event => rw [step, protocol_send_event_eq]
  | main => exact absurd rfl ha
  | _ => rfl

private theorem handle_main (item : EventItem) (s : System) : (s.handle item).main = s.main := by
  unfold handle
  cases item.event <;> rfl

/-- Inside `protocol_execute_realtime` the main task stays where it is, until it resumes. -/
private theorem execute_realtime_main {s : System} (resume : System → System) :
    (s.protocol_execute_realtime resume).main = s.main ∨ s.protocol_execute_realtime resume = resume s := by
  unfold protocol_execute_realtime
  cases s.event_queue with
  | nil =>
    dsimp only
    split_ifs
    · exact Or.inl rfl
    · exact Or.inl rfl
    · exact Or.inr rfl
  | cons item rest => exact Or.inl (handle_main item { s with event_queue := rest })

/-- The main task goes on with the line until it is over. -/
theorem Moving.main {s : System} (h : s.Moving) (hmore : ∀ source, s.main ≠ .exec source []) :
    (s.step .main).Moving := by
  obtain ⟨ops, hops, hmain | hmain | hmain⟩ := h
  · cases ops with
    | nil => exact absurd hmain (hmore .other)
    | cons op ops =>
      obtain rfl := hops op List.mem_cons_self
      have hrest : ∀ op ∈ ops, op = .move false false := fun op hop => hops op (List.mem_cons_of_mem _ hop)
      simp only [step, protocol_main_loop, hmain]
      split_ifs
      · exact ⟨ops, hrest, Or.inl (by simp [afterMove])⟩
      · exact ⟨ops, hrest, Or.inr (Or.inl rfl)⟩
  · simp only [step, protocol_main_loop, hmain]
    split_ifs
    · exact ⟨ops, hops, Or.inr (Or.inr rfl)⟩
    · exact ⟨ops, hops, Or.inl (by simp [afterMove])⟩
    · exact ⟨ops, hops, Or.inl (by simp [afterMove])⟩
  · simp only [step, protocol_main_loop, hmain]
    obtain hkept | hresumed := execute_realtime_main (s := s) fun s =>
      if s.abort then { s with inflight := none, main := .exec .other (s.afterMove false ops) }
      else { s with main := .move .other false false ops }
    · exact ⟨ops, hops, Or.inr (Or.inr (hkept.trans hmain))⟩
    · unfold Moving
      rw [hresumed]
      split_ifs
      · exact ⟨ops, hops, Or.inl (by simp [afterMove])⟩
      · exact ⟨ops, hops, Or.inr (Or.inl rfl)⟩

end System

namespace GotoSystem

variable {s : GotoSystem}

/-- The invariant: a pending goto, and one that is executed, finds no pattern. -/
structure Inv (s : GotoSystem) : Prop where
  files : ∀ id ∈ s.files, id < s.nested
  pending : s.rtStartGoto → s.PatternFree
  goto : s.loop_pc = .goto → s.PatternFree ∧ s.Moving

/-- A step of the system that nests no file leaves the stack as free as it was. -/
theorem PatternFree.system {a : Move} (h : s.PatternFree) (hfiles : ∀ id ∈ s.files, id < s.nested)
    (hnests : s.nests a = none) : (s.systemStep a).PatternFree := by
  intro job hmem
  simp only [systemStep, hnests, Option.isSome_none, Bool.false_eq_true, if_false]
  rcases (s.toSystem.step_grows a).jobs job hmem with hold | hnew
  · exact h job hold
  · intro hfile
    have hlt := hfiles job.id hfile
    omega

theorem systemStep_files {a : Move} (hfiles : ∀ id ∈ s.files, id < s.nested) :
    ∀ id ∈ (s.systemStep a).files, id < (s.systemStep a).nested := by
  intro id hmem
  have hle := (s.toSystem.step_grows a).nested
  simp only [systemStep] at hmem ⊢
  split at hmem
  · rename_i hnests
    rw [System.nests_nested hnests]
    rcases List.mem_cons.mp hmem with rfl | hmem
    · omega
    · have hlt := hfiles id hmem
      omega
  · have hlt := hfiles id hmem
    omega

/-- A step of the system, with a main task that nests no file while a goto is pending. -/
theorem Inv.system {a : Move} (h : Inv s) (hpending : s.rtStartGoto → s.nests a = none)
    (hgoto : s.loop_pc = .goto → s.nests a = none ∧ (s.toSystem.step a).Moving) : Inv (s.systemStep a) where
  files := systemStep_files h.files
  pending := fun hstart => (h.pending hstart).system h.files (hpending hstart)
  goto := fun hpc => ⟨(h.goto hpc).1.system h.files (hgoto hpc).1, (hgoto hpc).2⟩

private theorem Inv.request {result : Except Error Goto} (h : Inv s) (hfree : result.toBool → s.PatternFree) :
    Inv (s.protocol_request_goto result) := by
  cases result with
  | error error => exact h
  | ok goto => exact { h with pending := fun _ => hfree rfl }

/-- The main task, at the three places where it can stand. -/
private theorem Inv.main {segments : Nat} (h : Inv s)
    (hnests : s.nestsFile (.system .main segments) → s.rtStartGoto = false) :
    Inv (s.protocol_main_loop segments) := by
  rw [protocol_main_loop]
  split
  · rename_i hpc
    have hpending : s.rtStartGoto → s.nests .main = none := by
      intro hstart
      by_contra hsome
      have hclear := hnests (by simpa [nestsFile, hpc, Option.isSome_iff_ne_none] using hsome)
      simp [hclear] at hstart
    have hsystem := h.system hpending (by simp [hpc])
    dsimp only
    split
    · exact { hsystem with goto := by simp }
    · exact hsystem
  · rename_i hpc
    split
    · rename_i hstart
      dsimp only
      split
      · refine ⟨h.files, by simp, fun _ => ⟨h.pending hstart, _, ?_, Or.inl rfl⟩⟩
        intro op hop
        exact List.eq_of_mem_replicate hop
      · exact ⟨h.files, by simp, by simp⟩
    · exact ⟨h.files, h.pending, by simp⟩
  · rename_i hpc
    obtain ⟨hfree, hmoving⟩ := h.goto hpc
    split
    · exact ⟨h.files, h.pending, by simp⟩
    · rename_i hmore
      exact h.system (fun _ => hmoving.nests) fun _ => ⟨hmoving.nests, hmoving.main hmore⟩

theorem Inv.step {a : GotoMove} (h : Inv s) (hconsiderate : s.Considerate a) : Inv (s.step a) := by
  obtain ⟨haccepts, hnests⟩ := hconsiderate
  cases a with
  | goTo active effectiveFeed hasTheta theta hasRho rho => exact h.request haccepts
  | goToXY active travel hasX x hasY y => exact h.request haccepts
  | system a segments =>
    by_cases ha : a = .main
    · subst ha
      exact h.main hnests
    · have hnone : s.nests a = none := by
        unfold System.nests
        cases a <;> simp_all
      have hsystem : Inv (s.systemStep a) := by
        refine h.system (fun _ => hnone) fun hpc => ⟨hnone, ?_⟩
        obtain ⟨ops, hops, hmain⟩ := (h.goto hpc).2
        exact ⟨ops, hops, by rwa [System.step_main ha]⟩
      cases a <;> first | exact hsystem | exact absurd rfl ha

/-- A goto never disturbs a pattern, in every run in which no goto is accepted while a pattern
runs and no pattern is started while a goto is pending. -/
theorem goto_spares_patterns (feed_setting : Option Int) (planner_blocks : Nat) (moves : List GotoMove)
    (hmoves : Throughout step Considerate { toSystem := System.boot feed_setting planner_blocks } moves) :
    Always step Undisturbed { toSystem := System.boot feed_setting planner_blocks } moves := by
  have hboot : Inv { toSystem := System.boot feed_setting planner_blocks } := by
    constructor <;> simp
  have hinv := always_of_invariant (fun _ _ h hc => h.step hc) hboot hmoves
  exact hinv.mono fun _ h hgoto => (h.goto hgoto).1

/-- A pattern runs, the goto is asked for when it is over, and executed. -/
theorem goto_spares_patterns_after :
    Always step Undisturbed { toSystem := System.boot none 16 }
      [.system (.poller {}) 0, .system (.poller { reached := false, other := some [.runFile true] }) 0, .system .main 0,
        .system .main 0, .system .main 0, .system .main 0, .system (.poller {}) 0, .system (.poller { job := .eof }) 0,
        .goTo true 1000 true 1 true 1, .system .main 0, .system .main 1, .system .main 1] := by
  exact goto_spares_patterns none 16 _ (by decide +kernel)

/-- A file has been nested, and its first line has not come yet: the machine is idle, so
a goto is accepted, and executed in front of the pattern. -/
theorem goto_runs_in_pattern :
    ¬ Always step Undisturbed { toSystem := System.boot none 16 }
      [.system (.poller {}) 0, .system (.poller { reached := false, other := some [.runFile true] }) 0, .system .main 0,
        .system .main 0, .system .main 0, .goTo true 1000 true 1 true 1, .system .main 0, .system .main 0,
        .system .main 1] := by
  intro h
  exact h.last (by decide +kernel) { id := 0 } (by decide +kernel) (by decide +kernel)

end GotoSystem

end DuneWeaver
