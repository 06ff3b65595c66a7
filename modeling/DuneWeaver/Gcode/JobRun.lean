import DuneWeaver.Gcode.Flowcontrol
import DuneWeaver.Structured.Program

open Structured Machine

namespace DuneWeaver

/-- What the other lines of a job do: the effect of a line, and what is left of it while blocks are
skipped, which is that a line without a comment has its first word read. -/
structure Interpreter (L σ : Type) where
  exec : L → σ → Except Error σ
  first_word : L → σ → Except Error Unit
  expression : String → σ → Except Error ℚ
  error_of : ℚ → Error
  expression_ne_ok : ∀ expr s, expression expr s ≠ .error .Ok

inductive JobLine (L : Type) where
  | words (l : L)
  | oword (word : OWord)

/-- A job that is fed to the parser line by line. -/
structure JobRun (L σ : Type) where
  file : List (JobLine L)
  pos : Nat := 0
  flow : Flow := {}
  params : σ
  failed : Bool := false

variable {L σ : Type}

namespace Interpreter

variable (I : Interpreter L σ)

/-- The meaning of structured programs over these lines. A REPEAT counts whole passes. -/
def meaning : Meaning L String σ where
  exec l s := (I.exec l s).toOption
  test expr s := (I.expression expr s).toOption.map (decide <| · ≠ 0)
  count expr s := (I.expression expr s).toOption.map (⌊·⌋.toNat)

end Interpreter

namespace JobRun

/-- The only job on the stack, reading on behind the line it is at. -/
def env (I : Interpreter L σ) (r : JobRun L σ) : FlowEnv where
  source := some 0
  position := r.pos + 1
  expression expr := I.expression expr r.params
  error_of := I.error_of

/-- Where a job reads on. -/
def seek (pos : Nat) : FlowRequest → Nat
  | .set_position _ pos => pos
  | _ => pos

/-- The next line is read and executed. An error or an alarm ends the job. -/
def step (I : Interpreter L σ) (r : JobRun L σ) : Option (List L × JobRun L σ) :=
  if r.failed then none
  else
    match r.file[r.pos]? with
    | none => none
    | some (.words l) =>
      if r.flow.skip_blocks then
        match I.first_word l r.params with
        | .ok _ => some ([], { r with pos := r.pos + 1 })
        | .error _ => some ([], { r with failed := true })
      else
        match I.exec l r.params with
        | .ok params => some ([l], { r with pos := r.pos + 1, params := params })
        | .error _ => some ([l], { r with failed := true })
    | some (.oword word) =>
      match r.flow.execute_oword (r.env I) word with
      | (.Ok, flow, .send_alarm _) => some ([], { r with flow := flow, failed := true })
      | (.Ok, flow, request) => some ([], { r with flow := flow, pos := seek (r.pos + 1) request })
      | (_, flow, _) => some ([], { r with flow := flow, failed := true })

end JobRun

/-- The line of an O-word. -/
def oline (label : Nat) (command arg : String) (commented : Bool) : JobLine L :=
  .oword { o_label := label, command := command, arg := arg, commented := commented }

end DuneWeaver

namespace Structured

open DuneWeaver

variable {L : Type}

mutual

/-- The text of a structured program. Its notes say which of its O-words have a comment. -/
@[grind =] def Prog.text : Prog L String Bool → List (JobLine L)
  | .done => []
  | .line l rest => .words l :: rest.text
  | .cond label test note body alts rest =>
    oline label "IF" test note :: (body.text ++ (alts.text label ++ rest.text))
  | .doWhile label note body test note' rest =>
    oline label "DO" "" note :: (body.text ++ oline label "WHILE" test note' :: rest.text)
  | .whileDo label test note body note' rest =>
    oline label "WHILE" test note :: (body.text ++ oline label "ENDWHILE" "" note' :: rest.text)
  | .loop label count note body note' rest =>
    oline label "REPEAT" count note :: (body.text ++ oline label "ENDREPEAT" "" note' :: rest.text)
  | .leave label note rest => oline label "BREAK" "" note :: rest.text
  | .next label note rest => oline label "CONTINUE" "" note :: rest.text

@[grind =] def Alts.text (label : Nat) : Alts L String Bool → List (JobLine L)
  | .endif note => [oline label "ENDIF" "" note]
  | .orelse note body note' => oline label "ELSE" "" note :: (body.text ++ [oline label "ENDIF" "" note'])
  | .elseif test note body alts => oline label "ELSEIF" test note :: (body.text ++ alts.text label)

end

end Structured

namespace DuneWeaver

namespace JobRun

/-- A job under way whose skip flag goes with its context stack. -/
def state (file : List (JobLine L)) (pos : Nat) (context : Context) (s : σ) : JobRun L σ where
  file := file
  pos := pos
  flow := { context := context, skip_blocks := context.skipping }
  params := s

variable {I : Interpreter L σ} {file rest : List (JobLine L)} {pos : Nat} {context context' : Context} {s : σ}

theorem drop_cons {line : JobLine L} (h : file.drop pos = line :: rest) :
    file[pos]? = some line ∧ file.drop (pos + 1) = rest := by
  constructor
  · have hhead := List.head?_drop (l := file) (i := pos)
    rw [h] at hhead
    exact hhead.symm
  · rw [← List.drop_drop, h]
    rfl

theorem step_end (h : file.drop pos = []) : step I (state file pos context s) = none := by
  have hnone : file[pos]? = none := List.getElem?_eq_none (List.drop_eq_nil_iff.mp h)
  unfold step state
  dsimp only
  rw [if_neg Bool.false_ne_true, hnone]

theorem step_words {l : L} {s' : σ} (hdrop : file.drop pos = .words l :: rest)
    (hskip : context.skipping = false) (hexec : I.exec l s = .ok s') :
    step I (state file pos context s) = some ([l], state file (pos + 1) context s') := by
  unfold step state
  dsimp only
  rw [if_neg Bool.false_ne_true, (drop_cons hdrop).1, hskip]
  dsimp only
  rw [if_neg Bool.false_ne_true, hexec]

theorem step_words_error {l : L} {e : Error} (hdrop : file.drop pos = .words l :: rest)
    (hskip : context.skipping = false) (hexec : I.exec l s = .error e) :
    ∃ r, step I (state file pos context s) = some ([l], r) ∧ r.failed = true := by
  refine ⟨{ state file pos context s with failed := true }, ?_, rfl⟩
  unfold step state
  dsimp only
  rw [if_neg Bool.false_ne_true, (drop_cons hdrop).1, hskip]
  dsimp only
  rw [if_neg Bool.false_ne_true, hexec]

theorem step_skipped_words {l : L} (hdrop : file.drop pos = .words l :: rest)
    (hskip : context.skipping = true) (hread : I.first_word l s = .ok ()) :
    step I (state file pos context s) = some ([], state file (pos + 1) context s) := by
  unfold step state
  dsimp only
  rw [if_neg Bool.false_ne_true, (drop_cons hdrop).1, hskip]
  dsimp only
  rw [if_pos rfl, hread]

theorem step_commented {word : OWord} (hdrop : file.drop pos = .oword word :: rest)
    (hskip : context.skipping = true) (hcomment : word.commented = true) :
    step I (state file pos context s) = some ([], state file (pos + 1) context s) := by
  unfold step state Flow.execute_oword
  dsimp only
  rw [if_neg Bool.false_ne_true, (drop_cons hdrop).1, hskip]
  dsimp only
  rw [if_pos ⟨rfl, hcomment⟩]
  rfl

/-- What `gc_execute_line` makes of an O-word that is not dropped with a comment. -/
theorem execute_heard {word : OWord} (hread : context.skipping = true → word.commented = false) :
    (state file pos context s).flow.execute_oword ((state file pos context s).env I) word =
      (state file pos context s).flow.flowcontrol ((state file pos context s).env I) word := by
  unfold Flow.execute_oword
  rw [if_neg]
  rintro ⟨hskip, hcomment⟩
  rw [hread hskip] at hcomment
  cases hcomment

section Obeyed

variable {word : OWord} {operation : ngc_cmd_t} (hdrop : file.drop pos = .oword word :: rest)
  (hread : context.skipping = true → word.commented = false)
  (hcommand : read_command word.command = some operation)

include hdrop hread hcommand

/-- An O-word that is obeyed. -/
theorem step_oword {request : FlowRequest}
    (hperform : ((state file pos context s).env I).perform word.o_label operation word.arg context =
      .ok (context', request)) (halarm : ∀ v, request ≠ .send_alarm v) :
    step I (state file pos context s) = some ([], state file (seek (pos + 1) request) context' s) := by
  have hflow : (state file pos context s).flow.flowcontrol ((state file pos context s).env I) word =
      (.Ok, { context := context', skip_blocks := context'.skipping }, request) := by
    unfold Flow.flowcontrol
    rw [hcommand]
    dsimp only
    rw [show (state file pos context s).flow.context = context from rfl, hperform]
  unfold step
  rw [if_neg (show ¬ (state file pos context s).failed = true from Bool.false_ne_true),
    show (state file pos context s).file[(state file pos context s).pos]? = _ from (drop_cons hdrop).1]
  dsimp only
  rw [execute_heard hread, hflow]
  cases request with
  | nothing => rfl
  | set_position source pos' => rfl
  | send_alarm v => exact absurd rfl (halarm v)

/-- An O-word after which the job reads on with the next line. -/
theorem step_quiet
    (hperform : ((state file pos context s).env I).perform word.o_label operation word.arg context =
      .ok (context', .nothing)) :
    step I (state file pos context s) = some ([], state file (pos + 1) context' s) :=
  step_oword hdrop hread hcommand hperform (fun _ h => by cases h)

/-- An O-word that sends the job to another place. -/
theorem step_jump {source : Option Nat} {pos' : Nat}
    (hperform : ((state file pos context s).env I).perform word.o_label operation word.arg context =
      .ok (context', .set_position source pos')) :
    step I (state file pos context s) = some ([], state file pos' context' s) :=
  step_oword hdrop hread hcommand hperform (fun _ h => by cases h)

/-- An O-word with an error ends the job. -/
theorem step_oword_error {e : Error}
    (hperform : ((state file pos context s).env I).perform word.o_label operation word.arg context = .error e)
    (he : e ≠ .Ok) : ∃ r, step I (state file pos context s) = some ([], r) ∧ r.failed = true := by
  have hflow : (state file pos context s).flow.flowcontrol ((state file pos context s).env I) word =
      (e, {}, .nothing) := by
    unfold Flow.flowcontrol
    rw [hcommand]
    dsimp only
    rw [show (state file pos context s).flow.context = context from rfl, hperform]
  refine ⟨{ state file pos context s with flow := {}, failed := true }, ?_, rfl⟩
  unfold step
  rw [if_neg (show ¬ (state file pos context s).failed = true from Bool.false_ne_true),
    show (state file pos context s).file[(state file pos context s).pos]? = _ from (drop_cons hdrop).1]
  dsimp only
  rw [execute_heard hread, hflow]
  cases e with
  | Ok => exact absurd rfl he
  | _ => rfl

end Obeyed

/-- What a skipped line does not disturb: a block with the label `label` on top. -/
def Ignored (I : Interpreter L σ) (label : Nat) (s : σ) : JobLine L → Prop
  | .words l => I.first_word l s = .ok ()
  | .oword word => ∃ operation, read_command word.command = some operation ∧ operation ≠ .Op_NoOp ∧
      (word.o_label ≠ label ∨ operation = .Op_Break ∨ operation = .Op_Continue)

end JobRun

namespace FlowEnv

variable (env : FlowEnv) {label : Nat} {arg : String} {value : ℚ} {e : Error} {context rest : Context}
  {top : ngc_stack_entry_t}

/-- What IF, and a WHILE or REPEAT that opens a block, do with an expression that has no value. -/
theorem perform_error (h : env.expression arg = .error e) (hactive : env.active = true)
    (hskip : context.skipping = false) {operation : ngc_cmd_t}
    (hoperation : operation = .Op_If ∨ operation = .Op_Repeat ∨ operation = .Op_While)
    (hbrk : ∀ top ∈ context.head?, top.brk = false) : env.perform label operation arg context = .error e := by
  obtain rfl | rfl | rfl := hoperation
  · simp [perform, do_if, hskip, h, Bind.bind, Except.bind]
  · simp [perform, do_repeat, hskip, hactive, h, Bind.bind, Except.bind]
  · cases context with
    | nil => simp [perform, do_while, hactive, h, Bind.bind, Except.bind]
    | cons top context =>
      have htop : top.skip = false := hskip
      simp [perform, do_while, hactive, htop, hbrk top rfl, h, Bind.bind, Except.bind]

theorem perform_if (h : env.expression arg = .ok value) (hskip : context.skipping = false) :
    env.perform label .Op_If arg context =
      .ok ({
        o_label := label, operation := .Op_If, file := env.source, skip := value = 0,
        handled := value ≠ 0 } :: context, .nothing) := by
  simp [perform, do_if, hskip, h, Bind.bind, Except.bind, Pure.pure, Except.pure]

theorem perform_do (hactive : env.active = true) (hskip : context.skipping = false) :
    env.perform label .Op_Do arg context =
      .ok ({
        o_label := label, operation := .Op_Do, file := env.source, file_pos := env.position,
        skip := false } :: context, .nothing) := by
  simp [perform, do_do, hactive, hskip]

/-- A WHILE that does not stand directly in a DO block opens a block. -/
theorem perform_while (h : env.expression arg = .ok value) (hactive : env.active = true)
    (hskip : context.skipping = false) (hbrk : ∀ top ∈ context.head?, top.brk = false)
    (hdo : ∀ top ∈ context.head?, top.operation ≠ .Op_Do) :
    env.perform label .Op_While arg context = .ok (do_while.push env label arg value :: context, .nothing) := by
  cases context with
  | nil => simp [perform, do_while, hactive, h, Bind.bind, Except.bind, Pure.pure, Except.pure]
  | cons top context =>
    have htop : top.skip = false := hskip
    simp [perform, do_while, hactive, htop, hbrk top rfl, hdo top rfl, h, Bind.bind, Except.bind, Pure.pure,
      Except.pure]

/-- The WHILE at the end of a DO block. -/
theorem perform_while_do (rest : Context) (h : env.expression arg = .ok value) (hactive : env.active = true)
    (hskip : top.skip = false) (hbrk : top.brk = false) (hdo : top.operation = .Op_Do)
    (hlabel : top.o_label = label) :
    env.perform label .Op_While arg (top :: rest) =
      .ok (if value ≠ 0 then (top :: rest, .set_position top.file top.file_pos) else (rest, .nothing)) := by
  simp only [perform, do_while, hactive, hskip, hbrk, hdo, hlabel, h, Bind.bind, Except.bind, Pure.pure, Except.pure,
    if_true, Bool.false_eq_true, if_false]
  split_ifs <;> rfl

theorem perform_endwhile (arg : String) (rest : Context) (h : env.expression top.expr = .ok value)
    (hactive : env.active = true)
    (hskip : top.skip = false) (hwhile : top.operation = .Op_While) (hlabel : top.o_label = label) :
    env.perform label .Op_EndWhile arg (top :: rest) =
      .ok (if value ≠ 0 then (top :: rest, .set_position top.file top.file_pos) else (rest, .nothing)) := by
  simp only [perform, do_endwhile, again_while, hactive, hskip, hwhile, hlabel, h, Bind.bind, Except.bind, Pure.pure,
    Except.pure, if_true, Bool.false_eq_true, if_false, not_false_eq_true, and_self]
  split_ifs <;> rfl

theorem perform_endwhile_error (arg : String) (rest : Context) (h : env.expression top.expr = .error e)
    (hactive : env.active = true)
    (hskip : top.skip = false) (hwhile : top.operation = .Op_While) (hlabel : top.o_label = label) :
    env.perform label .Op_EndWhile arg (top :: rest) = .error e := by
  simp [perform, do_endwhile, again_while, hactive, hskip, hwhile, hlabel, h, Bind.bind, Except.bind]

/-- A WHILE block whose condition holds again. -/
theorem again_while_on (h : env.expression top.expr = .ok value) (hskip : top.skip = false) (hvalue : value ≠ 0) :
    env.again_while top rest = .ok (top :: rest, .set_position top.file top.file_pos) := by
  simp [again_while, hskip, h, hvalue, Bind.bind, Except.bind, Pure.pure, Except.pure]

theorem perform_repeat (label : Nat) (h : env.expression arg = .ok value) (hactive : env.active = true)
    (hskip : context.skipping = false) :
    env.perform label .Op_Repeat arg context =
      .ok (if value ≠ 0 then ({
        o_label := label, operation := .Op_Repeat, file := env.source, file_pos := env.position,
        repeats := uint32_of value, skip := false } :: context, .nothing)
      else ({ o_label := label, operation := .Op_Repeat, file := env.source, skip := true } :: context, .nothing)) := by
  simp only [perform, do_repeat, hactive, hskip, h, Bind.bind, Except.bind, Pure.pure, Except.pure, if_true,
    Bool.false_eq_true, if_false]
  split_ifs <;> rfl

theorem perform_endrepeat (arg : String) (top : ngc_stack_entry_t) (rest : Context) (hactive : env.active = true)
    (hrepeat : top.operation = .Op_Repeat)
    (hlabel : top.o_label = label) :
    env.perform label .Op_EndRepeat arg (top :: rest) = .ok (again_repeat top rest) := by
  simp [perform, do_endrepeat, hactive, hrepeat, hlabel]

section Alternatives

variable (hif : top.operation = .Op_If ∨ top.operation = .Op_ElseIf) (hlabel : top.o_label = label)

include hif hlabel

/-- The alternatives to a block that has been executed are skipped. -/
theorem perform_elseif_handled (rest : Context) (hhandled : top.handled = true) :
    env.perform label .Op_ElseIf arg (top :: rest) = .ok ({ top with skip := true } :: rest, .nothing) := by
  simp [perform, do_elseif, hif, hlabel, hhandled]

theorem perform_else_handled (rest : Context) (hhandled : top.handled = true) :
    env.perform label .Op_Else arg (top :: rest) = .ok ({ top with skip := true } :: rest, .nothing) := by
  simp [perform, do_else, hif, hlabel, hhandled]

theorem perform_elseif (rest : Context) (h : env.expression arg = .ok value) (hhandled : top.handled = false) :
    env.perform label .Op_ElseIf arg (top :: rest) =
      .ok (if value ≠ 0 then { top with skip := false, operation := .Op_ElseIf, handled := true } :: rest
        else { top with skip := true } :: rest, .nothing) := by
  simp only [perform, do_elseif, hif, hlabel, hhandled, h, Bind.bind, Except.bind, Pure.pure, Except.pure, if_true,
    Bool.false_eq_true, if_false]
  split_ifs <;> rfl

theorem perform_elseif_error (rest : Context) (h : env.expression arg = .error e) (hhandled : top.handled = false) :
    env.perform label .Op_ElseIf arg (top :: rest) = .error e := by
  simp [perform, do_elseif, hif, hlabel, hhandled, h, Bind.bind, Except.bind]

theorem perform_else (rest : Context) (hhandled : top.handled = false) :
    env.perform label .Op_Else arg (top :: rest) =
      .ok ({ top with skip := false, operation := .Op_Else } :: rest, .nothing) := by
  simp [perform, do_else, hif, hlabel, hhandled]

end Alternatives

theorem perform_endif (arg : String) (rest : Context)
    (hif : top.operation = .Op_If ∨ top.operation = .Op_ElseIf ∨ top.operation = .Op_Else)
    (hlabel : top.o_label = label) : env.perform label .Op_EndIf arg (top :: rest) = .ok (rest, .nothing) := by
  simp [perform, do_endif, hif, hlabel]

/-- CONTINUE first pulls the blocks inside the loop. -/
theorem perform_continue (arg : String) (hactive : env.active = true) (hskip : context.skipping = false)
    (hunwind : context.unwind_to label = top :: rest) :
    env.perform label .Op_Continue arg context = env.again top rest := by
  simp only [perform, do_continue, hactive, hskip, hunwind, if_true, Bool.false_eq_true, if_false]

end FlowEnv

/-- While a block is skipped, O-words of other blocks do nothing. -/
theorem FlowEnv.perform_skipping {env : FlowEnv} {label : Nat} {operation : ngc_cmd_t} {arg : String}
    {top : ngc_stack_entry_t} {rest : Context} (hactive : env.active = true) (hskip : top.skip = true)
    (hbrk : top.brk = false) (hnoop : operation ≠ .Op_NoOp)
    (hlabel : label ≠ top.o_label ∨ operation = .Op_Break ∨ operation = .Op_Continue) :
    env.perform label operation arg (top :: rest) = .ok (top :: rest, .nothing) := by
  have hskipping : Context.skipping (top :: rest) = true := hskip
  have hother : operation ≠ .Op_Break → operation ≠ .Op_Continue → label ≠ top.o_label := by
    intro hbreak hcontinue
    obtain hne | hbr | hco := hlabel
    · exact hne
    · exact absurd hbr hbreak
    · exact absurd hco hcontinue
  cases operation with
  | Op_NoOp => exact absurd rfl hnoop
  | Op_If => simp [perform, do_if, hskipping]
  | Op_ElseIf => simp [perform, do_elseif, hskip, hother]
  | Op_Else => simp [perform, do_else, hskip, hother]
  | Op_EndIf => simp [perform, do_endif, hskip, hother]
  | Op_Do => simp [perform, do_do, hskipping, hactive]
  | Op_Continue => simp [perform, do_continue, hskipping, hactive]
  | Op_Break => simp [perform, do_break, hskipping, hactive]
  | Op_While => simp [perform, do_while, hskip, hbrk, hactive]
  | Op_EndWhile => simp [perform, do_endwhile, hskip, hactive]
  | Op_Repeat => simp [perform, do_repeat, hskipping, hactive]
  | Op_EndRepeat => simp [perform, do_endrepeat, hskip, hactive, hother]
  | Op_Return => simp [perform, hactive]
  | Op_RaiseAlarm => simp [perform, hskipping]
  | Op_RaiseError => simp [perform, hskipping]

namespace JobRun

variable {I : Interpreter L σ} {file lines tail : List (JobLine L)} {pos : Nat} {s : σ}
  {top : ngc_stack_entry_t} {rest : Context}

/-- A skipped part of the text is passed line by line. -/
theorem skip_text (hdrop : file.drop pos = lines ++ tail) (hskip : top.skip = true) (hbrk : top.brk = false)
    (hignored : ∀ line ∈ lines, Ignored I top.o_label s line) :
    Path (step I) lines.length (state file pos (top :: rest) s) []
      (state file (pos + lines.length) (top :: rest) s) := by
  have hskipping : Context.skipping (top :: rest) = true := hskip
  induction lines generalizing pos with
  | nil => exact Path.nil _
  | cons line lines ih =>
    have hnext := (drop_cons hdrop).2
    have hline := hignored line List.mem_cons_self
    have hstep : step I (state file pos (top :: rest) s) = some ([], state file (pos + 1) (top :: rest) s) := by
      cases line with
      | words l => exact step_skipped_words hdrop hskipping hline
      | oword word =>
        by_cases hcomment : word.commented = true
        · exact step_commented hdrop hskipping hcomment
        · obtain ⟨operation, hcommand, hnoop, hlabel⟩ := hline
          apply step_quiet hdrop (fun _ => Bool.eq_false_iff.mpr hcomment) hcommand
          exact FlowEnv.perform_skipping rfl hskip hbrk hnoop hlabel
    have hrest := ih hnext fun line hmem => hignored line (List.mem_cons_of_mem _ hmem)
    rw [List.length_cons, Nat.add_comm lines.length 1, ← Nat.add_assoc, Nat.add_comm 1]
    exact Path.silent hstep hrest

end JobRun

end DuneWeaver
