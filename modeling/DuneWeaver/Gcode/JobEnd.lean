import DuneWeaver.Gcode.Session
import DuneWeaver.Transition.Run

open Transition

namespace DuneWeaver

/-- A session with its history: for the job on top, the one below it and so on, the flow control
as it would be if this job and those above it had not run. That is what the job has found, and the
initial one after a restart. -/
structure SessionHistory where
  session : Session := {}
  without : List Flow := []

namespace SessionHistory

/-- The jobs that are not there any more. -/
def ended (h : SessionHistory) (next : Session) : List JobSource :=
  h.session.jobs.take (h.session.jobs.length - next.jobs.length)

/-- The history goes with the jobs. -/
def settle (h : SessionHistory) (next : Session) : SessionHistory where
  session := next
  without := h.without.drop (h.session.jobs.length - next.jobs.length)

def step (h : SessionHistory) (event : SessionEvent) : SessionHistory :=
  let next := h.session.step event
  match event with
  | .nest _ _ =>
    { session := next
      without := if next.jobs.length = h.session.jobs.length then h.without else h.session.flow :: h.without }
  | .restart => { session := next, without := h.without.map fun _ => {} }
  | _ => h.settle next

/-- The jobs that have ended leave no entry and no skip flag behind, and the flow control is as if
they had not run. -/
def Isolated (h : SessionHistory) (next : Session) : Prop :=
  (∀ job ∈ h.ended next, ∀ entry ∈ next.flow.context, entry.file ≠ some job.file) ∧
    (h.ended next ≠ [] →
      (next.flow.skip_blocks = true → ∃ entry ∈ next.flow.context, entry.skip = true) ∧
        h.without[(h.ended next).length - 1]? = some next.flow)

/-- Every event that ends jobs leaves them isolated. -/
def Ends (h : SessionHistory) (event : SessionEvent) : Prop := h.Isolated (h.session.step event)

instance (h : SessionHistory) (event : SessionEvent) : Decidable (h.Ends event) :=
  inferInstanceAs (Decidable (_ ∧ (_ → _ ∧ _)))

end SessionHistory

namespace Session

/-- No block of a job is open. -/
def Closed (s : Session) : Prop := s.jobs ≠ [] → ∀ entry ∈ s.flow.context, entry.file = none

/-- No block of the job on top is open. -/
def TopClosed (s : Session) : Prop := s.jobs ≠ [] → ∀ entry ∈ s.flow.context, entry.file ≠ s.source

/-- The O-word neither closes nor changes a block that has not been opened by the channel it comes from.
If it fails, which clears the flow control, no block is open outside the jobs that end with it. -/
def Contained (s : Session) (env : FlowEnv) (word : OWord) : Prop :=
  ¬ (s.flow.skip_blocks = true ∧ word.commented = true) →
    match read_command word.command with
    | none => True
    | some operation =>
      (∀ entry ∈ s.flow.context.target word.o_label operation, entry.file = s.source) ∧
        match (s.around env).perform word.o_label operation word.arg s.flow.context with
        | .ok _ => True
        | .error status =>
          ∀ job ∈ s.jobs.head?,
            if job.stops status then ∀ entry ∈ s.flow.context, entry.file ≠ none
            else ∀ entry ∈ s.flow.context, entry.file = s.source

/-- The jobs that the event ends have closed their blocks, and their O-words keep to them. -/
def Clean (s : Session) : SessionEvent → Prop
  | .oword env word => if s.failed then s.Closed else s.Contained env word
  | .line _ => s.failed = true → s.Closed
  | .eof => if s.failed then s.Closed else s.TopClosed
  | .abort => s.Closed
  | _ => True

instance (s : Session) : Decidable s.Closed :=
  inferInstanceAs (Decidable (s.jobs ≠ [] → ∀ entry ∈ s.flow.context, entry.file = none))
instance (s : Session) : Decidable s.TopClosed :=
  inferInstanceAs (Decidable (s.jobs ≠ [] → ∀ entry ∈ s.flow.context, entry.file ≠ s.source))
instance decidableContained (s : Session) (env : FlowEnv) (word : OWord) : Decidable (s.Contained env word) := by
  unfold Contained
  cases read_command word.command with
  | none =>
    dsimp only
    infer_instance
  | some operation =>
    dsimp only
    cases (s.around env).perform word.o_label operation word.arg s.flow.context with
    | ok result =>
      dsimp only
      infer_instance
    | error status =>
      dsimp only
      infer_instance

instance decidableClean (s : Session) : DecidablePred s.Clean
  | .oword env word => inferInstanceAs (Decidable (if s.failed then s.Closed else s.Contained env word))
  | .line _ => inferInstanceAs (Decidable (s.failed = true → s.Closed))
  | .eof => inferInstanceAs (Decidable (if s.failed then s.Closed else s.TopClosed))
  | .abort => inferInstanceAs (Decidable s.Closed)
  | .nest _ _ => inferInstanceAs (Decidable True)
  | .restart => inferInstanceAs (Decidable True)

end Session

/-- Nothing had been open before the job at the bottom was started. -/
def Emptied (without : List Flow) : Prop := ∀ flow ∈ without.getLast?, flow.context = []

/-- The context stack consists of the blocks of the jobs, one job on the other. Where a job has
failed there is nothing left. -/
def Layered : List JobSource → List Flow → Context → Prop
  | [], [], context => ∀ entry ∈ context, entry.file = none
  | job :: jobs, outer :: without, context =>
    (∃ own, context = own ++ outer.context ∧ ∀ entry ∈ own, entry.file = some job.file) ∧
        Layered jobs without outer.context ∨
      job.pending_error ≠ .Ok ∧ context = [] ∧ Emptied (outer :: without) ∧ jobs.length = without.length
  | _, _, _ => False

namespace Layered

variable {job : JobSource} {jobs : List JobSource} {outer : Flow} {without : List Flow} {context : Context}

theorem length_eq (h : Layered jobs without context) : jobs.length = without.length := by
  induction jobs generalizing without context with
  | nil =>
    cases without with
    | nil => rfl
    | cons outer without => exact absurd h id
  | cons job jobs ih =>
    cases without with
    | nil => exact absurd h id
    | cons outer without =>
      obtain ⟨-, h⟩ | ⟨-, -, -, h⟩ := h
      · exact congrArg Nat.succ (ih h)
      · exact congrArg Nat.succ h

/-- Every block that is open belongs to a job on the stack, or to no job. -/
theorem file_mem (h : Layered jobs without context) {entry : ngc_stack_entry_t} (hmem : entry ∈ context) :
    entry.file = none ∨ ∃ job ∈ jobs, entry.file = some job.file := by
  induction jobs generalizing without context with
  | nil =>
    cases without with
    | nil => exact .inl (h entry hmem)
    | cons outer without => exact absurd h id
  | cons job jobs ih =>
    cases without with
    | nil => exact absurd h id
    | cons outer without =>
      obtain ⟨⟨own, rfl, hown⟩, h⟩ | ⟨-, rfl, -, -⟩ := h
      · obtain hmem | hmem := List.mem_append.mp hmem
        · exact .inr ⟨job, List.mem_cons_self, hown entry hmem⟩
        · obtain hnone | ⟨job', hjob', hfile⟩ := ih h hmem
          · exact .inl hnone
          · exact .inr ⟨job', List.mem_cons_of_mem _ hjob', hfile⟩
      · cases hmem

/-- The blocks below the job on top are not its own. -/
theorem outer_ne (h : Layered jobs without outer.context) (hfiles : (job :: jobs).map (·.file) |>.Nodup) :
    ∀ entry ∈ outer.context, entry.file ≠ some job.file := by
  intro entry hmem hfile
  obtain hnone | ⟨job', hjob', hfile'⟩ := h.file_mem hmem
  · rw [hfile] at hnone
    cases hnone
  · have hsame : job'.file = job.file := Option.some.inj (hfile'.symm.trans hfile)
    exact (List.nodup_cons.mp hfiles).1 (List.mem_map.mpr ⟨job', hjob', hsame⟩)

/-- If every block belongs to a job, nothing was open before the first one. -/
theorem emptied (h : Layered jobs without context) (hown : ∀ entry ∈ context, entry.file ≠ none) :
    Emptied without := by
  induction jobs generalizing without context with
  | nil =>
    cases without with
    | nil => rintro flow ⟨⟩
    | cons outer without => exact absurd h id
  | cons job jobs ih =>
    cases without with
    | nil => exact absurd h id
    | cons outer without =>
      obtain ⟨⟨own, rfl, -⟩, h⟩ | ⟨-, -, h, -⟩ := h
      · have houter : ∀ entry ∈ outer.context, entry.file ≠ none :=
          fun entry hmem => hown entry (List.mem_append_right _ hmem)
        cases without with
        | nil =>
          cases jobs with
          | cons job' jobs => exact absurd h id
          | nil =>
            rintro _ ⟨⟩
            apply List.eq_nil_iff_forall_not_mem.mpr
            intro entry hmem
            exact houter entry hmem (h entry hmem)
        | cons outer' without =>
          intro flow hlast
          rw [List.getLast?_cons_cons] at hlast
          exact ih h houter flow hlast
      · exact h

/-- If no block belongs to a job, what is open was open before the first one. -/
theorem closed (h : Layered jobs without context) (hclosed : ∀ entry ∈ context, entry.file = none) :
    ∀ flow ∈ without.getLast?, flow.context = context := by
  induction jobs generalizing without context with
  | nil =>
    cases without with
    | nil => rintro flow ⟨⟩
    | cons outer without => exact absurd h id
  | cons job jobs ih =>
    cases without with
    | nil => exact absurd h id
    | cons outer without =>
      obtain ⟨⟨own, rfl, hown⟩, h⟩ | ⟨-, rfl, h, -⟩ := h
      · have hnil : own = [] := by
          apply List.eq_nil_iff_forall_not_mem.mpr
          intro entry hmem
          have hnone := hclosed entry (List.mem_append_left _ hmem)
          rw [hown entry hmem] at hnone
          cases hnone
        rw [hnil, List.nil_append] at hclosed ⊢
        cases without with
        | nil =>
          rintro _ ⟨⟩
          rfl
        | cons outer' without =>
          intro flow hlast
          rw [List.getLast?_cons_cons] at hlast
          exact ih h hclosed flow hlast
      · exact h

/-- After a restart nothing is open. -/
theorem restart (h : jobs.length = without.length) : Layered jobs (without.map fun _ => {}) [] := by
  induction jobs generalizing without with
  | nil =>
    obtain rfl := List.length_eq_zero_iff.mp h.symm
    rintro entry ⟨⟩
  | cons job jobs ih =>
    cases without with
    | nil => cases h
    | cons outer without =>
      refine .inl ⟨⟨[], rfl, ?_⟩, ih (Nat.succ.inj h)⟩
      rintro entry ⟨⟩

end Layered

/-- What an O-word does to the flow control: nothing, unless it is heard and known. -/
theorem Flow.execute_oword_cases (flow : Flow) (env : FlowEnv) (word : OWord) :
    (flow.execute_oword env word).2.1 = flow ∨
      ¬ (flow.skip_blocks = true ∧ word.commented = true) ∧ ∃ operation, read_command word.command = some operation ∧
        ((∃ status, env.perform word.o_label operation word.arg flow.context = .error status ∧
            flow.execute_oword env word = (status, {}, .nothing)) ∨
          ∃ context request, env.perform word.o_label operation word.arg flow.context = .ok (context, request) ∧
            flow.execute_oword env word = (.Ok, { context := context, skip_blocks := context.skipping }, request)) := by
  unfold Flow.execute_oword Flow.flowcontrol
  by_cases hheard : flow.skip_blocks = true ∧ word.commented = true
  · rw [if_pos hheard]
    exact .inl rfl
  · rw [if_neg hheard]
    cases hcommand : read_command word.command with
    | none => exact .inl rfl
    | some operation =>
      refine .inr ⟨hheard, operation, rfl, ?_⟩
      dsimp only
      cases hperform : env.perform word.o_label operation word.arg flow.context with
      | error status => exact .inl ⟨status, rfl, rfl⟩
      | ok result => exact .inr ⟨result.1, result.2, rfl, rfl⟩

namespace JobSource

theorem ack_file (job : JobSource) (status : Error) : (job.ack status).file = job.file := by
  unfold ack
  split_ifs <;> rfl

theorem ack_stops {job : JobSource} {status : Error} (h : job.stops status) :
    (job.ack status).pending_error = status := by
  unfold ack
  rw [if_pos h]

end JobSource

namespace Session

variable {s : Session} {status : Error}

theorem ack_flow : (s.ack status).flow = s.flow := by
  unfold ack
  split <;> rfl

theorem ack_files : (s.ack status).jobs.map (·.file) = s.jobs.map (·.file) := by
  unfold ack
  split
  · rfl
  · rename_i job jobs hjobs
    rw [hjobs, List.map_cons, List.map_cons, job.ack_file]

/-- The status of a line does not move the blocks of the jobs, unless the job has failed before. -/
theorem ack_layered {without : List Flow} {context : Context} (h : Layered s.jobs without context)
    (hgood : s.failed = false) : Layered (s.ack status).jobs without context := by
  unfold ack
  split
  · exact h
  · rename_i job jobs hjobs
    rw [hjobs] at h
    cases without with
    | nil => exact absurd h id
    | cons outer without =>
      obtain h | ⟨hfailed, -⟩ := h
      · exact .inl ⟨by rw [job.ack_file]; exact h.1, h.2⟩
      · unfold failed at hgood
        rw [hjobs] at hgood
        exact absurd (of_decide_eq_false hgood) (not_not.mpr hfailed)

/-- A job on top that can still be read has its blocks on top. -/
theorem layers {job : JobSource} {jobs : List JobSource} {without : List Flow}
    (h : Layered s.jobs without s.flow.context)
    (hgood : s.failed = false) (hjobs : s.jobs = job :: jobs) :
    ∃ outer rest own, without = outer :: rest ∧ s.flow.context = own ++ outer.context ∧
      (∀ entry ∈ own, entry.file = s.source) ∧ Layered jobs rest outer.context := by
  have hsource : s.source = some job.file := by
    unfold source
    rw [hjobs]
    rfl
  rw [hjobs] at h
  cases without with
  | nil => exact absurd h id
  | cons outer rest =>
    obtain ⟨⟨own, hcontext, hown⟩, h⟩ | ⟨hfailed, -⟩ := h
    · exact ⟨outer, rest, own, rfl, hcontext, fun entry hmem => (hown entry hmem).trans hsource.symm, h⟩
    · unfold failed at hgood
      rw [hjobs] at hgood
      exact absurd (of_decide_eq_false hgood) (not_not.mpr hfailed)

/-- An O-word that keeps to the blocks of its job leaves those of the others in place. -/
theorem oword_layered {without : List Flow} {env : FlowEnv} {word : OWord}
    (h : Layered s.jobs without s.flow.context) (hgood : s.failed = false) (hfiles : (s.jobs.map (·.file)).Nodup)
    (hcontained : s.Contained env word) :
    Layered (s.execute_oword env word).jobs without (s.execute_oword env word).flow.context := by
  unfold execute_oword
  dsimp only
  rw [ack_flow]
  obtain hsame | ⟨hheard, operation, hcommand, hresult⟩ := s.flow.execute_oword_cases (s.around env) word
  · rw [hsame]
    exact ack_layered h hgood
  · have hcontained := hcontained hheard
    rw [hcommand] at hcontained
    obtain ⟨htarget, hfails⟩ := hcontained
    cases hjobs : s.jobs with
    | nil =>
      have hnone : s.source = none := by
        unfold source
        rw [hjobs]
        rfl
      have hack : ∀ flow status, (ack { jobs := [], flow := flow } status).jobs = [] := fun _ _ => rfl
      rw [hjobs] at h
      rw [hack]
      cases without with
      | cons outer without => exact absurd h id
      | nil =>
        obtain ⟨status, -, hresult⟩ | ⟨context, request, hperform, hresult⟩ := hresult
        · rw [hresult]
          rintro entry ⟨⟩
        · rw [hresult]
          have hown : ∀ entry ∈ s.flow.context, entry.file = (s.around env).source :=
            fun entry hmem => (h entry hmem).trans hnone.symm
          have hsplit : s.flow.context ++ [] = s.flow.context := List.append_nil _
          rw [← hsplit] at hperform htarget
          obtain ⟨own, rfl, hown'⟩ := FlowEnv.perform_above hown (by rintro entry ⟨⟩) htarget hperform
          intro entry hmem
          rw [List.append_nil] at hmem
          exact (hown' entry hmem).trans hnone
    | cons job jobs =>
      obtain ⟨outer, rest, own, rfl, hcontext, hown, hlayers⟩ := layers h hgood hjobs
      have hsource : s.source = some job.file := by
        unfold source
        rw [hjobs]
        rfl
      have houter : ∀ entry ∈ outer.context, entry.file ≠ s.source := by
        rw [hsource]
        exact hlayers.outer_ne (hjobs ▸ hfiles)
      have hack : ∀ flow status, (ack { jobs := job :: jobs, flow := flow } status).jobs = job.ack status :: jobs :=
        fun _ _ => rfl
      rw [hack]
      obtain ⟨status, hperform, hresult⟩ | ⟨context, request, hperform, hresult⟩ := hresult
      · rw [hresult]
        rw [hperform, hjobs] at hfails
        have hfails := hfails job rfl
        by_cases hstops : job.stops status
        · rw [if_pos hstops] at hfails
          refine .inr ⟨?_, rfl, h.emptied hfails, hlayers.length_eq⟩
          dsimp only
          rw [JobSource.ack_stops hstops]
          exact hstops.1
        · rw [if_neg hstops] at hfails
          have hempty : outer.context = [] := by
            apply List.eq_nil_iff_forall_not_mem.mpr
            intro entry hmem
            exact houter entry hmem (hfails entry (hcontext ▸ List.mem_append_right _ hmem))
          refine .inl ⟨⟨[], hempty.symm, ?_⟩, hlayers⟩
          rintro entry ⟨⟩
      · rw [hresult]
        rw [hcontext] at hperform htarget
        obtain ⟨own', rfl, hown'⟩ := FlowEnv.perform_above hown houter htarget hperform
        refine .inl ⟨⟨own', rfl, ?_⟩, hlayers⟩
        intro entry hmem
        rw [job.ack_file]
        exact (hown' entry hmem).trans hsource

end Session

/-- The skip flag goes with the context stack. -/
def Flow.Regular (flow : Flow) : Prop := flow.skip_blocks = flow.context.skipping

namespace Flow

theorem Regular.eq {flow flow' : Flow} (h : flow.Regular) (h' : flow'.Regular)
    (hcontext : flow.context = flow'.context) : flow = flow' := by
  obtain ⟨context, skip_blocks⟩ := flow
  obtain ⟨context', skip_blocks'⟩ := flow'
  obtain rfl : context = context' := hcontext
  exact congrArg (Flow.mk context) (h.trans h'.symm)

theorem Regular.skip {flow : Flow} (h : flow.Regular) (hskip : flow.skip_blocks = true) :
    ∃ entry ∈ flow.context, entry.skip = true := by
  rw [h] at hskip
  unfold Context.skipping at hskip
  cases hcontext : flow.context with
  | nil =>
    rw [hcontext] at hskip
    cases hskip
  | cons top rest =>
    rw [hcontext] at hskip
    exact ⟨top, List.mem_cons_self, hskip⟩

theorem Regular.execute_oword {flow : Flow} (h : flow.Regular) (env : FlowEnv) (word : OWord) :
    (flow.execute_oword env word).2.1.Regular := by
  obtain hsame | ⟨-, operation, -, ⟨status, -, hresult⟩ | ⟨context, request, -, hresult⟩⟩ :=
    flow.execute_oword_cases env word
  · rw [hsame]
    exact h
  · rw [hresult]
    rfl
  · rw [hresult]
    rfl

end Flow

namespace SessionHistory

variable {h : SessionHistory}

/-- What holds at any time when the events are clean. -/
structure Kept (h : SessionHistory) : Prop where
  layered : Layered h.session.jobs h.without h.session.flow.context
  files : (h.session.jobs.map (·.file)).Nodup
  flow : h.session.flow.Regular
  without : ∀ flow ∈ h.without, flow.Regular

/-- Where no job ends there is nothing to show. -/
theorem isolated_of_length {next : Session} (hlength : h.session.jobs.length ≤ next.jobs.length) : h.Isolated next := by
  have hnil : h.ended next = [] := by
    unfold ended
    rw [Nat.sub_eq_zero_of_le hlength, List.take_zero]
  constructor
  · rw [hnil]
    rintro job ⟨⟩
  · intro hne
    exact absurd hnil hne

/-- All jobs end, and none of their blocks is open. -/
theorem Kept.abort (hkept : h.Kept) (hclosed : h.session.Closed) :
    (h.settle h.session.abort).Kept ∧ h.Isolated h.session.abort := by
  have hlength := hkept.layered.length_eq
  have hnone : ∀ entry ∈ h.session.flow.context, entry.file = none := by
    intro entry hmem
    by_cases hjobs : h.session.jobs = []
    · obtain hfile | ⟨job, hjob, -⟩ := hkept.layered.file_mem hmem
      · exact hfile
      · rw [hjobs] at hjob
        cases hjob
    · exact hclosed hjobs entry hmem
  have hall : h.ended h.session.abort = h.session.jobs := List.take_length
  refine ⟨⟨?_, List.nodup_nil, hkept.flow, ?_⟩, ?_, ?_⟩
  · have hdrop : (h.settle h.session.abort).without = [] := List.drop_eq_nil_iff.mpr hlength.ge
    rw [hdrop]
    exact hnone
  · intro flow hmem
    exact hkept.without flow (List.drop_subset _ _ hmem)
  · intro job _ entry hmem hfile
    rw [hnone entry hmem] at hfile
    cases hfile
  · intro hne
    refine ⟨hkept.flow.skip, ?_⟩
    rw [hall, hlength, ← List.getLast?_eq_getElem?]
    cases hlast : h.without.getLast? with
    | none =>
      rw [hall, ← List.length_pos_iff, hlength, List.getLast?_eq_none_iff.mp hlast] at hne
      cases hne
    | some flow =>
      have hregular := hkept.without flow (List.mem_of_getLast? hlast)
      exact congrArg some (hregular.eq hkept.flow (hkept.layered.closed hnone flow hlast))

/-- The job on top ends, and none of its blocks is open. -/
theorem Kept.unnest (hkept : h.Kept) (hgood : h.session.failed = false) (hclosed : h.session.TopClosed) :
    (h.settle h.session.unnest).Kept ∧ h.Isolated h.session.unnest := by
  cases hjobs : h.session.jobs with
  | nil =>
    have hsame : h.session.unnest = h.session.abort := by
      unfold Session.unnest Session.abort
      rw [hjobs]
      rfl
    rw [hsame]
    exact hkept.abort (fun hne => absurd hjobs hne)
  | cons job jobs =>
    obtain ⟨outer, rest, own, hwithout, hcontext, hown, hlayers⟩ := Session.layers hkept.layered hgood hjobs
    have hclosed := hclosed (by rw [hjobs]; exact List.cons_ne_nil _ _)
    have hnil : own = [] := by
      apply List.eq_nil_iff_forall_not_mem.mpr
      intro entry hmem
      exact hclosed entry (hcontext ▸ List.mem_append_left _ hmem) (hown entry hmem)
    have hrest : h.session.flow.context = outer.context := by
      rw [hcontext, hnil]
      rfl
    have hnext : h.session.unnest.jobs = jobs := by
      unfold Session.unnest
      rw [hjobs]
      rfl
    have hone : h.session.jobs.length - h.session.unnest.jobs.length = 1 := by
      rw [hnext, hjobs, List.length_cons]
      omega
    have hended : h.ended h.session.unnest = [job] := by
      unfold ended
      rw [hone, hjobs]
      rfl
    have hdrop : (h.settle h.session.unnest).without = rest := by
      unfold settle
      dsimp only
      rw [hone, hwithout]
      rfl
    refine ⟨⟨?_, ?_, hkept.flow, ?_⟩, ?_, ?_⟩
    · rw [hdrop]
      change Layered h.session.unnest.jobs rest h.session.flow.context
      rw [hnext, hrest]
      exact hlayers
    · change (h.session.unnest.jobs.map (·.file)).Nodup
      have hfiles := hkept.files
      rw [hjobs] at hfiles
      rw [hnext]
      exact (List.nodup_cons.mp hfiles).2
    · intro flow hmem
      exact hkept.without flow (List.drop_subset _ _ hmem)
    · rw [hended]
      intro job' hmem entry hentry
      obtain rfl := List.mem_singleton.mp hmem
      have hsource : h.session.source = some job'.file := by
        unfold Session.source
        rw [hjobs]
        rfl
      exact hsource ▸ hclosed entry hentry
    · intro _
      refine ⟨hkept.flow.skip, ?_⟩
      rw [hended, hwithout]
      have hregular := hkept.without outer (hwithout ▸ List.mem_cons_self)
      exact congrArg some (hregular.eq hkept.flow hrest.symm)

/-- A line that ends no job. -/
theorem Kept.line {next : Session} (hkept : h.Kept) (hfiles : next.jobs.map (·.file) = h.session.jobs.map (·.file))
    (hlayered : Layered next.jobs h.without next.flow.context) (hflow : next.flow.Regular) :
    (h.settle next).Kept ∧ h.Isolated next := by
  have hlength : next.jobs.length = h.session.jobs.length := by
    rw [← List.length_map (·.file), hfiles, List.length_map]
  have hdrop : (h.settle next).without = h.without := by
    unfold settle
    dsimp only
    rw [hlength, Nat.sub_self]
    rfl
  refine ⟨⟨?_, ?_, hflow, ?_⟩, isolated_of_length hlength.ge⟩
  · rw [hdrop]
    exact hlayered
  · change (next.jobs.map (·.file)).Nodup
    rw [hfiles]
    exact hkept.files
  · rw [hdrop]
    exact hkept.without

/-- A job that is started has no blocks yet. -/
theorem Kept.nest (hkept : h.Kept) (file : Nat) (channel : JobChannel) :
    (h.step (.nest file channel)).Kept ∧ h.Ends (.nest file channel) := by
  unfold Ends step Session.step Session.nest
  dsimp only
  by_cases hfile : file ∈ h.session.jobs.map (·.file)
  · rw [if_pos hfile, if_pos rfl]
    exact ⟨hkept, isolated_of_length le_rfl⟩
  · rw [if_neg hfile, if_neg (by simp)]
    refine ⟨⟨?_, List.nodup_cons.mpr ⟨hfile, hkept.files⟩, hkept.flow, ?_⟩, isolated_of_length (by simp)⟩
    · refine .inl ⟨⟨[], rfl, ?_⟩, hkept.layered⟩
      rintro entry ⟨⟩
    · intro flow hmem
      obtain rfl | hmem := List.mem_cons.mp hmem
      · exact hkept.flow
      · exact hkept.without flow hmem

theorem Kept.restart (hkept : h.Kept) : (h.step .restart).Kept ∧ h.Ends .restart := by
  refine ⟨⟨?_, hkept.files, rfl, ?_⟩, isolated_of_length le_rfl⟩
  · exact Layered.restart hkept.layered.length_eq
  · intro flow hmem
    obtain ⟨flow', -, rfl⟩ := List.mem_map.mp hmem
    rfl

/-- A clean event keeps the blocks of the jobs one on the other, and the jobs it ends leave nothing behind. -/
theorem Kept.step (hkept : h.Kept) {event : SessionEvent} (hclean : h.session.Clean event) :
    (h.step event).Kept ∧ h.Ends event := by
  unfold Ends
  cases event with
  | oword env word =>
    unfold SessionHistory.step Session.step Session.poll
    dsimp only
    unfold Session.Clean at hclean
    dsimp only at hclean
    split_ifs at hclean ⊢ with hfailed
    · exact hkept.abort hclean
    · have hgood := Bool.eq_false_iff.mpr hfailed
      apply hkept.line
      · exact Session.ack_files
      · exact Session.oword_layered hkept.layered hgood hkept.files hclean
      · unfold Session.execute_oword
        dsimp only
        rw [Session.ack_flow]
        exact hkept.flow.execute_oword _ word
  | line status =>
    unfold SessionHistory.step Session.step Session.poll
    dsimp only
    split_ifs with hfailed
    · exact hkept.abort (hclean hfailed)
    · apply hkept.line Session.ack_files
      · rw [Session.ack_flow]
        exact Session.ack_layered hkept.layered (Bool.eq_false_iff.mpr hfailed)
      · rw [Session.ack_flow]
        exact hkept.flow
  | eof =>
    unfold SessionHistory.step Session.step Session.poll
    dsimp only
    unfold Session.Clean at hclean
    dsimp only at hclean
    split_ifs at hclean ⊢ with hfailed
    · exact hkept.abort hclean
    · exact hkept.unnest (Bool.eq_false_iff.mpr hfailed) hclean
  | nest file channel => exact hkept.nest file channel
  | abort => exact hkept.abort hclean
  | restart => exact hkept.restart

/-- In a run whose events are clean every job that ends leaves nothing of its flow control behind. -/
theorem job_end_leaves_nothing (events : List SessionEvent)
    (hclean : Throughout SessionHistory.step (fun h event => h.session.Clean event) {} events) :
    Throughout SessionHistory.step Ends {} events := by
  have hinit : Kept {} := by
    refine ⟨?_, List.nodup_nil, rfl, ?_⟩
    · rintro entry ⟨⟩
    · rintro flow ⟨⟩
  exact throughout_of_invariant (I := Kept) (fun h event hkept hclean => (Kept.step hkept hclean).1)
    (fun h event hkept hclean => (Kept.step hkept hclean).2) hinit hclean

/-- Every expression has the same value. -/
def always (value : ℚ) : FlowEnv where
  source := none
  position := 0
  expression _ := .ok value
  error_of _ := .Ok

/-- A file with an IF block in which a macro with a loop is run. -/
def wellBehaved : List SessionEvent := [
  .nest 7 .InputFile,
  .oword (always 1) { o_label := 1, command := "IF" },
  .nest 8 .MacroChannel,
  .oword (always 0) { o_label := 2, command := "DO" },
  .oword (always 0) { o_label := 2, command := "WHILE" },
  .eof,
  .line .Ok,
  .oword (always 0) { o_label := 1, command := "ENDIF" },
  .eof]

theorem file_with_macro_leaves_nothing : Throughout SessionHistory.step Ends {} wellBehaved := by
  apply job_end_leaves_nothing
  decide

/-- A file that ends in an IF block whose condition does not hold: its entry stays on the context stack,
and all lines are skipped from then on. -/
theorem open_block_outlives_file :
    ¬ Throughout SessionHistory.step Ends {} [
      .nest 7 .InputFile, .oword (always 0) { o_label := 1, command := "IF" }, .eof] := by
  decide

end SessionHistory

end DuneWeaver
