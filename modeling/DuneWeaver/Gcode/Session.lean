import DuneWeaver.Gcode.Flowcontrol

namespace DuneWeaver

open ngc_cmd_t

inductive JobChannel where
  | InputFile
  | MacroChannel
  deriving DecidableEq

/-- A job on the job stack. `file` is its address, which the entries of the context stack have. -/
structure JobSource where
  file : Nat
  channel : JobChannel
  pending_error : Error := .Ok
  deriving DecidableEq

namespace JobSource

/-- A file goes on after a command that is not supported, a macro does not. -/
def stops (job : JobSource) (status : Error) : Prop :=
  status ≠ .Ok ∧ (job.channel = .InputFile → status ≠ .GcodeUnsupportedCommand)

instance (job : JobSource) (status : Error) : Decidable (job.stops status) :=
  inferInstanceAs (Decidable (_ ∧ _))

/-- `InputFile::ack` and `MacroChannel::ack`. -/
def ack (job : JobSource) (status : Error) : JobSource :=
  if job.stops status then { job with pending_error := status } else job

end JobSource

/-- The job stack, from its top on, and the flow control, of which there is one for all jobs. -/
structure Session where
  jobs : List JobSource := []
  flow : Flow := {}

/-- What happens to the job stack and to the flow control.
- `oword` is a line with an O-word, from the job on top or else from another channel.
- `line` is any other line, with the status it has when it has been executed or skipped.
- `eof` is the end of the job on top.
- `nest` starts a file or a macro. No two jobs on the stack have the same address.
- `abort` is the end of all jobs, after an alarm, a stop or a reset.
- `restart` is the soft restart after a reset. -/
inductive SessionEvent where
  | oword (env : FlowEnv) (word : OWord)
  | line (status : Error)
  | eof
  | nest (file : Nat) (channel : JobChannel)
  | abort
  | restart

namespace Session

/-- `Job::source`. -/
def source (s : Session) : Option Nat := s.jobs.head?.map (·.file)

/-- `Job::abort`. -/
def abort (s : Session) : Session := { s with jobs := [] }

/-- `Job::unnest`. -/
def unnest (s : Session) : Session := { s with jobs := s.jobs.tail }

/-- `Job::nest`. -/
def nest (s : Session) (file : Nat) (channel : JobChannel) : Session :=
  if file ∈ s.jobs.map (·.file) then s
  else { s with jobs := { file := file, channel := channel } :: s.jobs }

/-- The channel is told the status of its line. -/
def ack (s : Session) (status : Error) : Session :=
  match s.jobs with
  | [] => s
  | job :: jobs => { s with jobs := job.ack status :: jobs }

/-- The job on top has had a line with an error. -/
def failed (s : Session) : Bool := s.jobs.head?.any (·.pending_error ≠ .Ok)

/-- `polling_loop`. A job whose line has failed ends all jobs. -/
def poll (s : Session) (next : Session → Session) : Session := if s.failed then s.abort else next s

/-- What `gc_execute_line` finds around it in this session. -/
def around (s : Session) (env : FlowEnv) : FlowEnv := { env with source := s.source }

/-- `execute_line` with an O-word. -/
def execute_oword (s : Session) (env : FlowEnv) (word : OWord) : Session :=
  let result := s.flow.execute_oword (s.around env) word
  ack { s with flow := result.2.1 } result.1

def step (s : Session) : SessionEvent → Session
  | .oword env word => s.poll (·.execute_oword env word)
  | .line status => s.poll (·.ack status)
  | .eof => s.poll (·.unnest)
  | .nest file channel => s.nest file channel
  | .abort => s.abort
  | .restart => { s with flow := {} }

end Session

namespace Context

/-- The entry an O-word closes, changes or sends the job back to. -/
def target (o_label : Nat) (operation : ngc_cmd_t) (context : Context) : Option ngc_stack_entry_t :=
  match operation with
  | Op_ElseIf | Op_Else | Op_EndIf | Op_EndWhile | Op_EndRepeat => context.head?.filter (·.o_label = o_label)
  | Op_While => context.head?.filter fun top => top.operation = Op_Do ∧ top.o_label = o_label
  | Op_Continue => if context.skipping then none else (context.unwind_to o_label).head?
  | _ => none

end Context

/-- What comes out of two computations, one after the other, comes out of the second. -/
theorem bind_ok {α β : Type} {x : Except Error α} {f : α → Except Error β} {b : β} (h : (x >>= f) = .ok b) :
    ∃ a, x = .ok a ∧ f a = .ok b := by
  cases x with
  | error e => cases h
  | ok a => exact ⟨a, rfl, h⟩

namespace FlowEnv

variable {env : FlowEnv} {o_label : Nat} {operation : ngc_cmd_t} {arg : String} {own outer context context' : Context}
  {request : FlowRequest}

/-- What lies on the outer part of the stack belongs to the channel that is read. -/
def Above (env : FlowEnv) (outer context : Context) : Prop :=
  ∃ own, context = own ++ outer ∧ ∀ entry ∈ own, entry.file = env.source

theorem above_of_eq (h : ∀ entry ∈ own, entry.file = env.source) : env.Above outer (own ++ outer) := ⟨own, rfl, h⟩

/-- A block that is entered belongs to the channel that is read. -/
theorem above_push {entry : ngc_stack_entry_t} (h : ∀ entry ∈ own, entry.file = env.source)
    (hentry : entry.file = env.source) : env.Above outer (entry :: (own ++ outer)) := by
  refine ⟨entry :: own, rfl, ?_⟩
  intro entry' hmem
  obtain rfl | hmem := List.mem_cons.mp hmem
  · exact hentry
  · exact h entry' hmem

section Local

variable (hown : ∀ entry ∈ own, entry.file = env.source) (houter : ∀ entry ∈ outer, entry.file ≠ env.source)
  {top : ngc_stack_entry_t} {rest : Context} (hcontext : own ++ outer = top :: rest) (htop : top.file = env.source)

include hown houter hcontext htop

/-- An entry of the channel that is on top lies above the outer part. -/
theorem own_cons : ∃ own', own = top :: own' ∧ rest = own' ++ outer ∧ ∀ entry ∈ own', entry.file = env.source := by
  cases own with
  | nil =>
    have hmem : top ∈ outer := by
      rw [List.nil_append] at hcontext
      rw [hcontext]
      exact List.mem_cons_self
    exact absurd htop (houter top hmem)
  | cons entry own =>
    obtain ⟨rfl, rfl⟩ := List.cons.inj hcontext
    exact ⟨own, rfl, rfl, fun entry' hmem => hown entry' (List.mem_cons_of_mem _ hmem)⟩

/-- The entry is pulled. -/
theorem above_pull : env.Above outer rest := by
  obtain ⟨own', -, hrest, hown'⟩ := own_cons hown houter hcontext htop
  exact ⟨own', hrest, hown'⟩

/-- The entry is changed. -/
theorem above_change (top' : ngc_stack_entry_t) (hfile : top'.file = top.file) : env.Above outer (top' :: rest) := by
  obtain ⟨own', -, rfl, hown'⟩ := own_cons hown houter hcontext htop
  exact above_push hown' (hfile.trans htop)

/-- The loop on top goes on or is left. -/
theorem again_while_above (h : env.again_while top rest = .ok (context', request)) :
    env.Above outer context' := by
  have hsame : env.Above outer (top :: rest) := hcontext ▸ above_of_eq hown
  have hpull := above_pull hown houter hcontext htop
  unfold again_while at h
  split_ifs at h with hskip
  · cases h
    exact hpull
  · obtain ⟨value, -, h⟩ := bind_ok h
    split_ifs at h
    · cases h
      exact hsame
    · cases h
      exact hpull

theorem again_repeat_above : env.Above outer (again_repeat top rest).1 := by
  unfold again_repeat
  split_ifs
  · exact above_change hown houter hcontext htop _ rfl
  · exact above_pull hown houter hcontext htop

end Local

section Perform

variable (hown : ∀ entry ∈ own, entry.file = env.source) (houter : ∀ entry ∈ outer, entry.file ≠ env.source)
  (hcontext : own ++ outer = context)

include hown hcontext

/-- A block is entered, or the line is skipped. -/
theorem do_if_above (h : env.do_if o_label arg context = .ok (context', request)) : env.Above outer context' := by
  subst hcontext
  unfold do_if at h
  split_ifs at h with hskip
  · cases h
    exact above_of_eq hown
  · obtain ⟨value, -, h⟩ := bind_ok h
    cases h
    exact above_push hown rfl

theorem do_do_above (h : env.do_do o_label context = .ok (context', request)) : env.Above outer context' := by
  subst hcontext
  unfold do_do at h
  split_ifs at h
  · cases h
    exact above_of_eq hown
  · cases h
    exact above_push hown rfl

theorem do_repeat_above (h : env.do_repeat o_label arg context = .ok (context', request)) :
    env.Above outer context' := by
  subst hcontext
  unfold do_repeat at h
  split_ifs at h
  · cases h
    exact above_of_eq hown
  · obtain ⟨value, -, h⟩ := bind_ok h
    split_ifs at h
    · cases h
      exact above_push hown rfl
    · cases h
      exact above_push hown rfl

theorem do_break_above (h : env.do_break o_label context = .ok (context', request)) : env.Above outer context' := by
  subst hcontext
  by_cases hactive : env.active = true
  · by_cases hskip : Context.skipping (own ++ outer) = true
    · unfold do_break at h
      rw [if_pos hactive, if_pos hskip] at h
      cases h
      exact above_of_eq hown
    · rw [do_break_fails env hactive (Bool.eq_false_iff.mpr hskip)] at h
      cases h
  · unfold do_break at h
    rw [if_neg hactive] at h
    cases h

include houter

/-- ENDIF and the alternatives change the block on top, if they have its label. -/
theorem do_elseif_above (htarget : ∀ top ∈ context.head?, top.o_label = o_label → top.file = env.source)
    (h : env.do_elseif o_label arg context = .ok (context', request)) : env.Above outer context' := by
  cases context with
  | nil => cases h
  | cons top rest =>
    have hsame : env.Above outer (top :: rest) := hcontext ▸ above_of_eq hown
    have hchange := fun hlabel => above_change hown houter hcontext (htarget top rfl hlabel)
    unfold do_elseif at h
    dsimp only at h
    split_ifs at h with hif hlabel hhandled hskip
    · cases h
      exact hchange hlabel.symm _ rfl
    · obtain ⟨value, -, h⟩ := bind_ok h
      split_ifs at h
      · cases h
        exact hchange hlabel.symm _ rfl
      · cases h
        exact hchange hlabel.symm _ rfl
    · cases h
      exact hsame
    · cases h
      exact hsame

theorem do_else_above (htarget : ∀ top ∈ context.head?, top.o_label = o_label → top.file = env.source)
    (h : do_else o_label context = .ok (context', request)) : env.Above outer context' := by
  cases context with
  | nil => cases h
  | cons top rest =>
    have hsame : env.Above outer (top :: rest) := hcontext ▸ above_of_eq hown
    have hchange := fun hlabel => above_change hown houter hcontext (htarget top rfl hlabel)
    unfold do_else at h
    dsimp only at h
    split_ifs at h with hif hlabel hhandled hskip
    · cases h
      exact hchange hlabel.symm _ rfl
    · cases h
      exact hchange hlabel.symm _ rfl
    · cases h
      exact hsame
    · cases h
      exact hsame

theorem do_endif_above (htarget : ∀ top ∈ context.head?, top.o_label = o_label → top.file = env.source)
    (h : do_endif o_label context = .ok (context', request)) : env.Above outer context' := by
  cases context with
  | nil => cases h
  | cons top rest =>
    have hsame : env.Above outer (top :: rest) := hcontext ▸ above_of_eq hown
    unfold do_endif at h
    dsimp only at h
    split_ifs at h with hif hlabel hskip
    · cases h
      exact above_pull hown houter hcontext (htarget top rfl hlabel.symm)
    · cases h
      exact hsame
    · cases h
      exact hsame

theorem do_endwhile_above (htarget : ∀ top ∈ context.head?, top.o_label = o_label → top.file = env.source)
    (h : env.do_endwhile o_label context = .ok (context', request)) : env.Above outer context' := by
  cases context with
  | nil =>
    unfold do_endwhile at h
    split_ifs at h
  | cons top rest =>
    have hsame : env.Above outer (top :: rest) := hcontext ▸ above_of_eq hown
    unfold do_endwhile at h
    dsimp only at h
    split_ifs at h with hactive hwhile hlabel hskip
    · exact again_while_above hown houter hcontext (htarget top rfl hlabel.2.symm) h
    · cases h
      exact hsame
    · cases h
      exact hsame

theorem do_endrepeat_above (htarget : ∀ top ∈ context.head?, top.o_label = o_label → top.file = env.source)
    (h : env.do_endrepeat o_label context = .ok (context', request)) : env.Above outer context' := by
  cases context with
  | nil =>
    unfold do_endrepeat at h
    split_ifs at h
  | cons top rest =>
    have hsame : env.Above outer (top :: rest) := hcontext ▸ above_of_eq hown
    unfold do_endrepeat at h
    dsimp only at h
    split_ifs at h with hactive hrepeat hlabel hskip
    · have hagain := again_repeat_above hown houter hcontext (htarget top rfl hlabel.symm)
      rw [Except.ok.inj h] at hagain
      exact hagain
    · cases h
      exact hsame
    · cases h
      exact hsame

/-- WHILE closes a DO block or enters a block of its own. -/
theorem do_while_above
    (htarget : ∀ top ∈ context.head?, top.operation = Op_Do → top.o_label = o_label → top.file = env.source)
    (h : env.do_while o_label arg context = .ok (context', request)) : env.Above outer context' := by
  have hpush : ∀ value, (do_while.push env o_label arg value).file = env.source := by
    intro value
    unfold do_while.push
    split_ifs <;> rfl
  unfold do_while at h
  split_ifs at h with hactive
  cases context with
  | nil =>
    obtain ⟨value, -, h⟩ := bind_ok h
    cases h
    have habove : env.Above outer (do_while.push env o_label arg value :: (own ++ outer)) :=
      above_push hown (hpush value)
    rw [hcontext] at habove
    exact habove
  | cons top rest =>
    have hsame : env.Above outer (top :: rest) := hcontext ▸ above_of_eq hown
    dsimp only at h
    split_ifs at h with hbrk hdo hskip hdo hlabel
    · cases h
      exact above_pull hown houter hcontext (htarget top rfl hdo.1 hdo.2.symm)
    · cases h
      exact hsame
    · cases h
      exact hsame
    · obtain ⟨value, -, h⟩ := bind_ok h
      split_ifs at h
      · cases h
        exact hsame
      · cases h
        exact above_pull hown houter hcontext (htarget top rfl hdo hlabel.symm)
    · obtain ⟨value, -, h⟩ := bind_ok h
      cases h
      exact hsame
    · obtain ⟨value, -, h⟩ := bind_ok h
      cases h
      rw [← hcontext]
      exact above_push hown (hpush value)

/-- CONTINUE pulls the blocks inside the loop. -/
theorem do_continue_above
    (htarget : context.skipping = false → ∀ top ∈ (context.unwind_to o_label).head?, top.file = env.source)
    (h : env.do_continue o_label context = .ok (context', request)) : env.Above outer context' := by
  unfold do_continue at h
  split_ifs at h with hactive hskip
  · cases h
    exact hcontext ▸ above_of_eq hown
  · cases hunwind : context.unwind_to o_label with
    | nil =>
      rw [hunwind] at h
      cases h
    | cons top rest =>
      have htop : top.file = env.source := by
        apply htarget (Bool.eq_false_iff.mpr hskip)
        rw [hunwind]
        rfl
      rw [hunwind] at h
      dsimp only at h
      have hsplit : own.unwind_to o_label ++ outer = top :: rest := by
        rw [← hcontext] at hunwind
        unfold Context.unwind_to at hunwind ⊢
        rw [List.dropWhile_append] at hunwind
        split_ifs at hunwind with hempty
        · have hmem : top ∈ outer := by
            apply (List.dropWhile_sublist _).subset
            rw [hunwind]
            exact List.mem_cons_self
          exact absurd htop (houter top hmem)
        · exact hunwind
      have hown' : ∀ entry ∈ own.unwind_to o_label, entry.file = env.source :=
        fun entry hmem => hown entry ((List.dropWhile_sublist _).subset hmem)
      unfold again at h
      split at h
      · have hagain := again_repeat_above hown' houter hsplit htop
        rw [Except.ok.inj h] at hagain
        exact hagain
      · cases h
        exact hsplit ▸ above_of_eq hown'
      · exact again_while_above hown' houter hsplit htop h
      · cases h

end Perform

/-- An O-word whose target belongs to the channel that is read leaves the outer part of the context
stack as it is. -/
theorem perform_above (hown : ∀ entry ∈ own, entry.file = env.source)
    (houter : ∀ entry ∈ outer, entry.file ≠ env.source)
    (htarget : ∀ entry ∈ Context.target o_label operation (own ++ outer), entry.file = env.source)
    (h : env.perform o_label operation arg (own ++ outer) = .ok (context', request)) : env.Above outer context' := by
  have hhead : (∀ top ∈ ((own ++ outer).head?.filter (·.o_label = o_label)), top.file = env.source) →
      ∀ top ∈ (own ++ outer).head?, top.o_label = o_label → top.file = env.source := by
    intro htarget top hmem hlabel
    exact htarget top (Option.mem_filter_iff.mpr ⟨hmem, decide_eq_true hlabel⟩)
  cases operation with
  | Op_NoOp => cases h
  | Op_If => exact do_if_above hown rfl h
  | Op_ElseIf => exact do_elseif_above hown houter rfl (hhead htarget) h
  | Op_Else => exact do_else_above hown houter rfl (hhead htarget) h
  | Op_EndIf => exact do_endif_above hown houter rfl (hhead htarget) h
  | Op_Do => exact do_do_above hown rfl h
  | Op_Continue =>
    apply do_continue_above hown houter rfl ?_ h
    intro hskip
    unfold Context.target at htarget
    rw [hskip] at htarget
    exact htarget
  | Op_Break => exact do_break_above hown rfl h
  | Op_While =>
    apply do_while_above hown houter rfl ?_ h
    intro top hmem hdo hlabel
    exact htarget top (Option.mem_filter_iff.mpr ⟨hmem, decide_eq_true ⟨hdo, hlabel⟩⟩)
  | Op_EndWhile => exact do_endwhile_above hown houter rfl (hhead htarget) h
  | Op_Repeat => exact do_repeat_above hown rfl h
  | Op_EndRepeat => exact do_endrepeat_above hown houter rfl (hhead htarget) h
  | Op_Return =>
    unfold perform at h
    dsimp only at h
    split_ifs at h
    cases h
    exact above_of_eq hown
  | Op_RaiseAlarm =>
    unfold perform at h
    dsimp only at h
    split_ifs at h
    · cases h
      exact above_of_eq hown
    · split at h
      · cases h
        exact above_of_eq hown
      · cases h
        exact above_of_eq hown
  | Op_RaiseError =>
    unfold perform at h
    dsimp only at h
    split_ifs at h
    · cases h
      exact above_of_eq hown
    · split at h
      · split_ifs at h
        cases h
        exact above_of_eq hown
      · cases h
        exact above_of_eq hown

end FlowEnv

end DuneWeaver
