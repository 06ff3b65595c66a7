import DuneWeaver.Gcode.JobRun

open Structured Machine

namespace DuneWeaver

open ngc_cmd_t

variable {L σ : Type} {I : Interpreter L σ}

namespace JobLine

/-- The line can be skipped: an O-word can, and another line if its first word can be read. -/
def Skippable (I : Interpreter L σ) (s : σ) : JobLine L → Prop
  | words l => I.first_word l s = .ok ()
  | oword _ => True

end JobLine

/-- Every line of a part of the text can be skipped. -/
def Skippable (I : Interpreter L σ) (s : σ) (lines : List (JobLine L)) : Prop := ∀ line ∈ lines, line.Skippable I s

instance decidableLineSkippable (I : Interpreter L σ) (s : σ) : DecidablePred (JobLine.Skippable I s)
  | .words l => inferInstanceAs (Decidable (I.first_word l s = .ok ()))
  | .oword _ => inferInstanceAs (Decidable True)

instance decidableSkippable (I : Interpreter L σ) (s : σ) : DecidablePred (Skippable I s) := fun lines =>
  inferInstanceAs (Decidable (∀ line ∈ lines, line.Skippable I s))

section Ignored

variable {label : Nat} {s : σ} {opened loops : List Nat}

theorem Skippable.append_left {first second : List (JobLine L)} (h : Skippable I s (first ++ second)) :
    Skippable I s first := fun line hmem => h line (List.mem_append_left _ hmem)

theorem Skippable.append_right {first second : List (JobLine L)} (h : Skippable I s (first ++ second)) :
    Skippable I s second := fun line hmem => h line (List.mem_append_right _ hmem)

theorem Skippable.tail {line : JobLine L} {rest : List (JobLine L)} (h : Skippable I s (line :: rest)) :
    Skippable I s rest := fun line hmem => h line (List.mem_cons_of_mem _ hmem)

private theorem ignored_oline {label' : Nat} {command arg : String} {note : Bool} (operation : ngc_cmd_t)
    (hcommand : read_command command = some operation) (hnoop : operation ≠ Op_NoOp)
    (hlabel : label' ≠ label ∨ operation = Op_Break ∨ operation = Op_Continue) :
    JobRun.Ignored I label s (oline label' command arg note) :=
  ⟨operation, hcommand, hnoop, hlabel⟩

private theorem ignored_block {label' : Nat} {command arg command' arg' : String} {note note' : Bool}
    (operation operation' : ngc_cmd_t) {body rest : List (JobLine L)} (hlabel : label' ≠ label)
    (hcommand : read_command command = some operation) (hnoop : operation ≠ Op_NoOp)
    (hcommand' : read_command command' = some operation') (hnoop' : operation' ≠ Op_NoOp)
    (hbody : ∀ line ∈ body, JobRun.Ignored I label s line)
    (hrest : ∀ line ∈ rest, JobRun.Ignored I label s line) :
    ∀ line ∈ oline label' command arg note :: (body ++ oline label' command' arg' note' :: rest),
      JobRun.Ignored I label s line := by
  intro line hmem
  obtain rfl | hmem := List.mem_cons.mp hmem
  · exact ignored_oline operation hcommand hnoop (.inl hlabel)
  obtain hmem | hmem := List.mem_append.mp hmem
  · exact hbody line hmem
  obtain rfl | hmem := List.mem_cons.mp hmem
  · exact ignored_oline operation' hcommand' hnoop' (.inl hlabel)
  · exact hrest line hmem

private theorem ne_of_opened {label' : Nat} (hnew : label' ∉ opened) (hmem : label ∈ opened) : label' ≠ label := by
  rintro rfl
  exact hnew hmem

mutual

/-- The text of a nested program has no O-word that concerns a block around it, but those that leave
or continue it. -/
theorem prog_ignored : (p : Prog L String Bool) → {opened loops : List Nat} → label ∈ opened →
    p.Nested opened loops → Skippable I s p.text → ∀ line ∈ p.text, JobRun.Ignored I label s line
  | .done, _, _, _, _, _ => by
    intro line hline
    cases hline
  | .line l rest, _, _, hmem, hnested, hskip => by
    have hrest := prog_ignored rest hmem hnested hskip.tail
    intro line hline
    obtain rfl | hline := List.mem_cons.mp hline
    · exact hskip (.words l) List.mem_cons_self
    · exact hrest line hline
  | .cond label' test note body alts rest, _, _, hmem, hnested, hskip => by
    obtain ⟨hnew, hbody, halts, hrest⟩ := hnested
    have hne : label' ≠ label := ne_of_opened hnew hmem
    have hbody := prog_ignored body (List.mem_cons_of_mem label' hmem) hbody hskip.tail.append_left
    have halts := alts_ignored hne alts (List.mem_cons_of_mem label' hmem) halts
      hskip.tail.append_right.append_left
    have hrest := prog_ignored rest hmem hrest hskip.tail.append_right.append_right
    intro line hline
    obtain rfl | hline := List.mem_cons.mp hline
    · exact ignored_oline Op_If rfl (by decide) (.inl hne)
    obtain hline | hline := List.mem_append.mp hline
    · exact hbody line hline
    obtain hline | hline := List.mem_append.mp hline
    · exact halts line hline
    · exact hrest line hline
  | .doWhile label' note body test note' rest, _, _, hmem, hnested, hskip => by
    obtain ⟨hnew, hbody, hrest⟩ := hnested
    have hbody := prog_ignored body (List.mem_cons_of_mem label' hmem) hbody hskip.tail.append_left
    have hrest := prog_ignored rest hmem hrest hskip.tail.append_right.tail
    exact ignored_block Op_Do Op_While (ne_of_opened hnew hmem) rfl (by decide) rfl
      (by decide) hbody hrest
  | .whileDo label' test note body note' rest, _, _, hmem, hnested, hskip => by
    obtain ⟨hnew, hbody, hrest⟩ := hnested
    have hbody := prog_ignored body (List.mem_cons_of_mem label' hmem) hbody hskip.tail.append_left
    have hrest := prog_ignored rest hmem hrest hskip.tail.append_right.tail
    exact ignored_block Op_While Op_EndWhile (ne_of_opened hnew hmem) rfl (by decide)
      rfl (by decide) hbody hrest
  | .loop label' count note body note' rest, _, _, hmem, hnested, hskip => by
    obtain ⟨hnew, hbody, hrest⟩ := hnested
    have hbody := prog_ignored body (List.mem_cons_of_mem label' hmem) hbody hskip.tail.append_left
    have hrest := prog_ignored rest hmem hrest hskip.tail.append_right.tail
    exact ignored_block Op_Repeat Op_EndRepeat (ne_of_opened hnew hmem) rfl
      (by decide) rfl (by decide) hbody hrest
  | .leave label' note rest, _, _, hmem, hnested, hskip => by
    have hrest := prog_ignored rest hmem hnested.2 hskip.tail
    intro line hline
    obtain rfl | hline := List.mem_cons.mp hline
    · exact ignored_oline Op_Break rfl (by decide) (.inr (.inl rfl))
    · exact hrest line hline
  | .next label' note rest, _, _, hmem, hnested, hskip => by
    have hrest := prog_ignored rest hmem hnested.2 hskip.tail
    intro line hline
    obtain rfl | hline := List.mem_cons.mp hline
    · exact ignored_oline Op_Continue rfl (by decide) (.inr (.inr rfl))
    · exact hrest line hline

theorem alts_ignored {label' : Nat} (hne : label' ≠ label) : (alts : Alts L String Bool) →
    {opened loops : List Nat} → label ∈ opened → alts.Nested opened loops →
      Skippable I s (alts.text label') → ∀ line ∈ alts.text label', JobRun.Ignored I label s line
  | .endif note, _, _, hmem, _, _ => by
    intro line hline
    obtain rfl := List.mem_singleton.mp hline
    exact ignored_oline Op_EndIf rfl (by decide) (.inl hne)
  | .orelse note body note', _, _, hmem, hnested, hskip => by
    have hbody := prog_ignored body hmem hnested hskip.tail.append_left
    exact ignored_block Op_Else Op_EndIf hne rfl (by decide) rfl (by decide) hbody
      (fun line hline => by cases hline)
  | .elseif test note body alts, _, _, hmem, hnested, hskip => by
    have hbody := prog_ignored body hmem hnested.1 hskip.tail.append_left
    have halts := alts_ignored hne alts hmem hnested.2 hskip.tail.append_right
    intro line hline
    obtain rfl | hline := List.mem_cons.mp hline
    · exact ignored_oline Op_ElseIf rfl (by decide) (.inl hne)
    obtain hline | hline := List.mem_append.mp hline
    · exact hbody line hline
    · exact halts line hline

end

end Ignored

section Relation

/-- The rest of a block behind its present body. -/
def closing : Frame L String Bool → List (JobLine L)
  | .cond label alts _ => alts.text label
  | .doWhile label _ test note' _ => [oline label "WHILE" test note']
  | .whileDo label _ _ note' _ => [oline label "ENDWHILE" "" note']
  | .loop label _ _ note' _ => [oline label "ENDREPEAT" "" note']

/-- The text behind what is to be done in the innermost block. -/
def after : List (Frame L String Bool) → List (JobLine L)
  | [] => []
  | frame :: frames => closing frame ++ (frame.rest.text ++ after frames)

/-- The entry of the context stack for a block that is being executed. -/
def Entered (file : List (JobLine L)) (frames : List (Frame L String Bool)) (top : ngc_stack_entry_t) :
    Frame L String Bool → Prop
  | .cond _ alts _ =>
    (top.operation = Op_If ∨ top.operation = Op_ElseIf) ∧ top.handled = true ∨
      top.operation = Op_Else ∧ ∃ note, alts = .endif note
  | .doWhile label body test note' rest =>
    top.operation = Op_Do ∧
      file.drop top.file_pos = body.text ++ after (.doWhile label body test note' rest :: frames)
  | .whileDo label test body note' rest =>
    top.operation = Op_While ∧ top.expr = test ∧
      file.drop top.file_pos = body.text ++ after (.whileDo label test body note' rest :: frames)
  | .loop label n body note' rest =>
    top.operation = Op_Repeat ∧ top.repeats = n ∧
      file.drop top.file_pos = body.text ++ after (.loop label n body note' rest :: frames)

/-- The context stack has an entry for every open block, and none is skipped. -/
def Matches (file : List (JobLine L)) : List (Frame L String Bool) → Context → Prop
  | [], context => context = []
  | _ :: _, [] => False
  | frame :: frames, top :: context =>
    top.o_label = frame.label ∧ top.skip = false ∧ top.brk = false ∧ Entered file frames top frame ∧
      Matches file frames context

/-- The job is where the program is. -/
def Follows (file : List (JobLine L)) : Config L String Bool σ → JobRun L σ → Prop
  | .running todo frames s, r =>
    ∃ pos context, r = JobRun.state file pos context s ∧ file.drop pos = todo.text ++ after frames ∧
      Matches file frames context ∧ todo.Nested (opened frames) (loops frames) ∧ FramesNested frames
  | .failed, r => r.failed = true

variable {file : List (JobLine L)} {frames : List (Frame L String Bool)} {context : Context}

theorem Matches.skipping (h : Matches file frames context) : context.skipping = false := by
  cases frames with
  | nil =>
    obtain rfl : context = [] := h
    rfl
  | cons frame frames =>
    cases context with
    | nil => exact absurd h id
    | cons top context => exact h.2.1

/-- So its words are read, and none of them is a comment. -/
theorem Matches.reads (h : Matches file frames context) {note : Bool} (hskip : context.skipping = true) : note = false :=
  absurd (h.skipping.symm.trans hskip) Bool.false_ne_true

theorem Matches.brk (h : Matches file frames context) : ∀ top ∈ context.head?, top.brk = false := by
  cases frames with
  | nil =>
    obtain rfl : context = [] := h
    rintro top ⟨⟩
  | cons frame frames =>
    cases context with
    | nil => exact absurd h id
    | cons top context =>
      rintro _ ⟨⟩
      exact h.2.2.1

theorem Matches.not_do (h : Matches file frames context)
    (hframes : ∀ label body test note' rest outer, frames ≠ .doWhile label body test note' rest :: outer) :
    ∀ top ∈ context.head?, top.operation ≠ Op_Do := by
  cases frames with
  | nil =>
    obtain rfl : context = [] := h
    rintro top ⟨⟩
  | cons frame frames =>
    cases context with
    | nil => exact absurd h id
    | cons top context =>
      rintro _ ⟨⟩ hdo
      have hentered := h.2.2.2.1
      cases frame with
      | cond label alts rest =>
        obtain ⟨hif | hif, _⟩ | ⟨helse, _⟩ := hentered
        · rw [hif] at hdo
          cases hdo
        · rw [hif] at hdo
          cases hdo
        · rw [helse] at hdo
          cases hdo
      | doWhile label body test note' rest => exact hframes _ _ _ _ _ _ rfl
      | whileDo label test body note' rest =>
        rw [hentered.1] at hdo
        cases hdo
      | loop label n body note' rest =>
        rw [hentered.1] at hdo
        cases hdo

variable {I : Interpreter L σ} {pos label : Nat} {s : σ} {rest body : Prog L String Bool} {test : String}
  {note : Bool} {lines : List (JobLine L)}

/-- An expression has no value in the program if it has none in the job. -/
theorem test_error {e : Error} (h : I.expression test s = .error e) : I.meaning.test test s = none := by
  simp [Interpreter.meaning, h, Except.toOption]

theorem test_ok {value : ℚ} (h : I.expression test s = .ok value) :
    I.meaning.test test s = some (decide (value ≠ 0)) := by
  simp [Interpreter.meaning, h, Except.toOption]

/-- The job fails at an O-word, and so does the program. -/
theorem follows_failed {word : OWord} {operation : ngc_cmd_t} {e : Error}
    (hdrop : file.drop pos = .oword word :: lines) (hread : context.skipping = true → word.commented = false)
    (hcommand : read_command word.command = some operation)
    (hperform : ((JobRun.state file pos context s).env I).perform word.o_label operation word.arg context =
      .error e) (he : e ≠ .Ok) :
    ∃ n r, Path (JobRun.step I) (n + 1) (JobRun.state file pos context s) [] r ∧
      Follows file (.failed : Config L String Bool σ) r := by
  obtain ⟨r, hstep, hfailed⟩ := JobRun.step_oword_error hdrop hread hcommand hperform he
  exact ⟨0, r, Path.single hstep, hfailed⟩

end Relation

section Skipping

variable {file lines : List (JobLine L)} {frames : List (Frame L String Bool)} {context : Context}
  {pos label : Nat} {s : σ}

/-- What has to hold of the alternatives to a block that has been executed: they can be skipped, and
no comment is on the O-word that ends the skipping. -/
def Passed (I : Interpreter L σ) (s : σ) : Bool → Alts L String Bool → Prop
  | skipping, .endif note => skipping = true → note = false
  | _, .orelse _ body note' => Skippable I s body.text ∧ note' = false
  | _, .elseif _ _ body alts => Skippable I s body.text ∧ Passed I s true alts

/-- What has to hold of the alternatives while none has been found: no comment is on their O-words,
and those that are not chosen can be skipped. -/
def Untried (I : Interpreter L σ) (s : σ) : Alts L String Bool → Prop
  | .endif note => note = false
  | .orelse note _ _ => note = false
  | .elseif test note body alts =>
    note = false ∧ (I.meaning.test test s = some false → Skippable I s body.text ∧ Untried I s alts)

instance decidablePassed (I : Interpreter L σ) (s : σ) : (skipping : Bool) → DecidablePred (Passed I s skipping)
  | skipping, .endif note => inferInstanceAs (Decidable (skipping = true → note = false))
  | _, .orelse _ body note' => inferInstanceAs (Decidable (Skippable I s body.text ∧ note' = false))
  | _, .elseif _ _ body alts =>
    have := decidablePassed I s true alts
    inferInstanceAs (Decidable (Skippable I s body.text ∧ Passed I s true alts))

instance decidableUntried (I : Interpreter L σ) (s : σ) : DecidablePred (Untried I s)
  | .endif note => inferInstanceAs (Decidable (note = false))
  | .orelse note _ _ => inferInstanceAs (Decidable (note = false))
  | .elseif test note body alts =>
    have := decidableUntried I s alts
    inferInstanceAs (Decidable
      (note = false ∧ (I.meaning.test test s = some false → Skippable I s body.text ∧ Untried I s alts)))

/-- An ELSEIF or ELSE behind a block that has been executed. A comment on it makes no difference. -/
theorem step_handled (I : Interpreter L σ) (context : Context) (s : σ) (top : ngc_stack_entry_t)
    {command arg : String} {note : Bool} {operation : ngc_cmd_t}
    (hdrop : file.drop pos = oline label command arg note :: lines)
    (hcommand : read_command command = some operation)
    (hoperation : operation = Op_ElseIf ∨ operation = Op_Else)
    (hif : top.operation = Op_If ∨ top.operation = Op_ElseIf) (hlabel : top.o_label = label)
    (hhandled : top.handled = true) :
    JobRun.step I (JobRun.state file pos (top :: context) s) =
      some ([], JobRun.state file (pos + 1) ({ top with skip := true } :: context) s) := by
  by_cases hdropped : top.skip = true ∧ note = true
  · have hsame : ({ top with skip := true } : ngc_stack_entry_t) = top := by
      rw [← hdropped.1]
    rw [hsame]
    exact JobRun.step_commented hdrop hdropped.1 hdropped.2
  · have hread : Context.skipping (top :: context) = true → note = false := by
      intro hskip
      cases note with
      | true => exact absurd ⟨hskip, rfl⟩ hdropped
      | false => rfl
    apply JobRun.step_quiet hdrop hread hcommand
    obtain rfl | rfl := hoperation
    · exact FlowEnv.perform_elseif_handled _ hif hlabel _ hhandled
    · exact FlowEnv.perform_else_handled _ hif hlabel _ hhandled

/-- A body that is skipped, with the entry of its block on top. -/
theorem skip_body (I : Interpreter L σ) (context : Context) (s : σ) (top : ngc_stack_entry_t)
    {body : Prog L String Bool} {outer loops : List Nat}
    (hdrop : file.drop pos = body.text ++ lines) (hlabel : top.o_label = label) (hskip : top.skip = true)
    (hbrk : top.brk = false) (hnested : body.Nested (label :: outer) loops)
    (hread : Skippable I s body.text) :
    Path (JobRun.step I) body.text.length (JobRun.state file pos (top :: context) s) []
        (JobRun.state file (pos + body.text.length) (top :: context) s) ∧
      file.drop (pos + body.text.length) = lines := by
  constructor
  · apply JobRun.skip_text hdrop hskip hbrk
    rw [hlabel]
    exact prog_ignored body List.mem_cons_self hnested hread
  · rw [← List.drop_drop, hdrop, List.drop_left]

/-- The ENDIF of a block. -/
theorem step_endif (I : Interpreter L σ) (context : Context) (s : σ) (top : ngc_stack_entry_t) {note : Bool}
    (hdrop : file.drop pos = oline label "ENDIF" "" note :: lines) (hread : top.skip = true → note = false)
    (hif : top.operation = Op_If ∨ top.operation = Op_ElseIf ∨ top.operation = Op_Else)
    (hlabel : top.o_label = label) :
    JobRun.step I (JobRun.state file pos (top :: context) s) =
      some ([], JobRun.state file (pos + 1) context s) :=
  JobRun.step_quiet hdrop hread rfl (FlowEnv.perform_endif _ _ _ hif hlabel)

/-- The alternatives to a block that has been executed are passed. -/
theorem pass_alts (I : Interpreter L σ) (context : Context) (s : σ) {outer loops : List Nat} :
    (alts : Alts L String Bool) → {pos : Nat} → (top : ngc_stack_entry_t) → file.drop pos = alts.text label ++ lines →
    (top.operation = Op_If ∨ top.operation = Op_ElseIf) → top.o_label = label → top.handled = true →
    top.brk = false → alts.Nested (label :: outer) loops → Passed I s top.skip alts →
    ∃ n pos', Path (JobRun.step I) (n + 1) (JobRun.state file pos (top :: context) s) []
        (JobRun.state file pos' context s) ∧ file.drop pos' = lines
  | .endif note, pos, top, hdrop, hif, hlabel, hhandled, hbrk, hnested, hpassed => by
    have hstep := step_endif I context s top hdrop hpassed
      (hif.imp_right .inl) hlabel
    exact ⟨0, pos + 1, Path.single hstep, (JobRun.drop_cons hdrop).2⟩
  | .orelse note body note', pos, top, hdrop, hif, hlabel, hhandled, hbrk, hnested, hpassed => by
    obtain ⟨hread, hnote⟩ := hpassed
    have hdrop' : file.drop pos =
        oline label "ELSE" "" note :: (body.text ++ (oline label "ENDIF" "" note' :: lines)) := by
      rw [hdrop, Alts.text, List.cons_append, List.append_assoc]
      rfl
    have helse := step_handled I context s top hdrop' rfl (.inr rfl) hif hlabel hhandled
    obtain ⟨hbody, hend⟩ := skip_body I context s { top with skip := true }
      (JobRun.drop_cons hdrop').2 hlabel rfl hbrk hnested hread
    have hendif := step_endif I context s { top with skip := true } hend
      (fun _ => hnote) (hif.imp_right .inl) hlabel
    refine ⟨body.text.length + 1, _, ?_, (JobRun.drop_cons hend).2⟩
    exact Path.silent helse (hbody.trans (Path.single hendif))
  | .elseif test note body alts, pos, top, hdrop, hif, hlabel, hhandled, hbrk, hnested, hpassed => by
    obtain ⟨hread, hpassed⟩ := hpassed
    have hdrop' : file.drop pos =
        oline label "ELSEIF" test note :: (body.text ++ (alts.text label ++ lines)) := by
      rw [hdrop, Alts.text, List.cons_append, List.append_assoc]
    have helse := step_handled I context s top hdrop' rfl (.inl rfl) hif hlabel hhandled
    obtain ⟨hbody, hend⟩ := skip_body I context s { top with skip := true }
      (JobRun.drop_cons hdrop').2 hlabel rfl hbrk hnested.1 hread
    obtain ⟨n, pos', hpath, hlines⟩ := pass_alts I context s alts { top with skip := true } hend hif hlabel hhandled
      hbrk hnested.2 hpassed
    refine ⟨body.text.length + (n + 1), pos', ?_, hlines⟩
    exact Path.silent helse (hbody.trans hpath)

/-- From a block whose condition does not hold the job finds the alternative the program chooses. -/
theorem choose_alts (I : Interpreter L σ) (s : σ) {rest : Prog L String Bool} (hlabel : label ∉ opened frames)
    (hmatches : Matches file frames context) (hrest : rest.Nested (opened frames) (loops frames))
    (hframes : FramesNested frames) : (alts : Alts L String Bool) → {pos : Nat} → (top : ngc_stack_entry_t) →
    file.drop pos = alts.text label ++ (rest.text ++ after frames) →
    (top.operation = Op_If ∨ top.operation = Op_ElseIf) → top.o_label = label → top.handled = false →
    top.skip = true → top.brk = false → alts.Nested (label :: opened frames) (loops frames) → Untried I s alts →
    ∃ n r, Path (JobRun.step I) (n + 1) (JobRun.state file pos (top :: context) s) [] r ∧
      Follows file (I.meaning.choose label rest frames s alts) r
  | .endif note, pos, top, hdrop, hif, htop, hhandled, hskip, hbrk, hnested, huntried => by
    have hstep := step_endif I context s top hdrop (fun _ => huntried)
      (hif.imp_right .inl) htop
    exact ⟨0, _, Path.single hstep, pos + 1, context, rfl, (JobRun.drop_cons hdrop).2, hmatches, hrest, hframes⟩
  | .orelse note body note', pos, top, hdrop, hif, htop, hhandled, hskip, hbrk, hnested, huntried => by
    have hdrop' : file.drop pos =
        oline label "ELSE" "" note :: (body.text ++ after (.cond label (.endif note') rest :: frames)) := by
      rw [hdrop, Alts.text, List.cons_append, List.append_assoc]
      rfl
    have hstep := JobRun.step_quiet (I := I) (s := s) hdrop' (fun _ => huntried) rfl
      (FlowEnv.perform_else _ hif htop context hhandled)
    refine ⟨0, _, Path.single hstep, pos + 1, _, rfl, (JobRun.drop_cons hdrop').2, ?_, hnested, ?_⟩
    · exact ⟨htop, rfl, hbrk, .inr ⟨rfl, note', rfl⟩, hmatches⟩
    · exact ⟨hlabel, hrest, trivial, hframes⟩
  | .elseif test note body alts, pos, top, hdrop, hif, htop, hhandled, hskip, hbrk, hnested, huntried => by
    have hdrop' : file.drop pos =
        oline label "ELSEIF" test note :: (body.text ++ after (.cond label alts rest :: frames)) := by
      rw [hdrop, Alts.text, List.cons_append, List.append_assoc]
      rfl
    obtain ⟨hnote, huntried⟩ := huntried
    unfold Meaning.choose
    cases hvalue : I.expression test s with
    | error e =>
      rw [test_error hvalue]
      apply follows_failed hdrop' (fun _ => hnote) rfl ?_ (fun he => I.expression_ne_ok test s (he ▸ hvalue))
      exact FlowEnv.perform_elseif_error _ hif htop _ hvalue hhandled
    | ok value =>
      rw [test_ok hvalue] at huntried ⊢
      have hperform := FlowEnv.perform_elseif ((JobRun.state file pos (top :: context) s).env I) hif htop context
        hvalue hhandled
      by_cases hzero : value = 0
      · have hfalse : decide (value ≠ 0) = false := decide_eq_false (not_not.mpr hzero)
        rw [hfalse] at huntried ⊢
        rw [if_neg (not_not.mpr hzero)] at hperform
        obtain ⟨hread, huntried⟩ := huntried rfl
        have hstep := JobRun.step_quiet hdrop' (fun _ => hnote) rfl hperform
        have hdrop'' : file.drop (pos + 1) = body.text ++ (alts.text label ++ (rest.text ++ after frames)) :=
          (JobRun.drop_cons hdrop').2
        obtain ⟨hbody, hend⟩ := skip_body I context s { top with skip := true } hdrop''
          htop rfl hbrk hnested.1 hread
        obtain ⟨n, r, hpath, hfollows⟩ := choose_alts I s hlabel hmatches hrest hframes alts
          { top with skip := true } hend hif htop hhandled rfl hbrk hnested.2 huntried
        exact ⟨body.text.length + (n + 1), r, Path.silent hstep (hbody.trans hpath), hfollows⟩
      · have htrue : decide (value ≠ 0) = true := decide_eq_true hzero
        rw [htrue]
        rw [if_pos hzero] at hperform
        have hstep := JobRun.step_quiet hdrop' (fun _ => hnote) rfl hperform
        refine ⟨0, _, Path.single hstep, pos + 1, _, rfl, (JobRun.drop_cons hdrop').2, ?_, hnested.1, ?_⟩
        · exact ⟨htop, rfl, hbrk, .inl ⟨.inr rfl, rfl⟩, hmatches⟩
        · exact ⟨hlabel, hrest, hnested.2, hframes⟩

end Skipping

section Loops

variable {file : List (JobLine L)} {frame : Frame L String Bool} {frames : List (Frame L String Bool)}
  {context : Context} {pos : Nat} {s : σ} {top : ngc_stack_entry_t}

/-- A loop whose body has come to its end is entered again or left. -/
theorem close_loop (hdrop : file.drop pos = after (frame :: frames))
    (hloop : ∀ label alts rest, frame ≠ .cond label alts rest)
    (hmatches : Matches file (frame :: frames) (top :: context)) (hframes : FramesNested (frame :: frames)) :
    ∃ n r, Path (JobRun.step I) (n + 1) (JobRun.state file pos (top :: context) s) [] r ∧
      Follows file (I.meaning.close s frames frame) r := by
  have hall := hmatches
  obtain ⟨htop, hskip, hbrk, hentered, hrest⟩ := hmatches
  obtain ⟨hlabel, hnested, hbody, hframes'⟩ := hframes
  cases frame with
  | cond label alts rest => exact absurd rfl (hloop label alts rest)
  | doWhile label body test note' rest =>
    obtain ⟨hdo, hpos⟩ := hentered
    have hdrop' : file.drop pos = oline label "WHILE" test note' :: (rest.text ++ after frames) := hdrop
    unfold Meaning.close
    dsimp only
    cases hvalue : I.expression test s with
    | error e =>
      rw [test_error hvalue]
      apply follows_failed hdrop' hall.reads rfl ?_ (fun he => I.expression_ne_ok test s (he ▸ hvalue))
      exact FlowEnv.perform_error _ hvalue rfl hall.skipping (.inr (.inr rfl)) hall.brk
    | ok value =>
      rw [test_ok hvalue]
      have hperform := FlowEnv.perform_while_do ((JobRun.state file pos (top :: context) s).env I) context hvalue rfl
        hskip hbrk hdo htop
      by_cases hzero : value = 0
      · rw [if_neg (not_not.mpr hzero)] at hperform
        rw [decide_eq_false (not_not.mpr hzero)]
        have hstep := JobRun.step_quiet hdrop' hall.reads rfl hperform
        exact ⟨0, _, Path.single hstep, pos + 1, context, rfl, (JobRun.drop_cons hdrop').2, hrest, hnested, hframes'⟩
      · rw [if_pos hzero] at hperform
        rw [decide_eq_true hzero]
        have hstep := JobRun.step_jump hdrop' hall.reads rfl hperform
        exact ⟨0, _, Path.single hstep, top.file_pos, _, rfl, hpos, hall, hbody, hlabel, hnested, hbody, hframes'⟩
  | whileDo label test body note' rest =>
    obtain ⟨hwhile, hexpr, hpos⟩ := hentered
    have hdrop' : file.drop pos = oline label "ENDWHILE" "" note' :: (rest.text ++ after frames) := hdrop
    unfold Meaning.close
    dsimp only
    cases hvalue : I.expression test s with
    | error e =>
      rw [test_error hvalue]
      apply follows_failed hdrop' hall.reads rfl ?_ (fun he => I.expression_ne_ok test s (he ▸ hvalue))
      exact FlowEnv.perform_endwhile_error _ _ _ (hexpr ▸ hvalue) rfl hskip hwhile htop
    | ok value =>
      rw [test_ok hvalue]
      have hperform := FlowEnv.perform_endwhile ((JobRun.state file pos (top :: context) s).env I) "" context
        (hexpr ▸ hvalue) rfl hskip hwhile htop
      by_cases hzero : value = 0
      · rw [if_neg (not_not.mpr hzero)] at hperform
        rw [decide_eq_false (not_not.mpr hzero)]
        have hstep := JobRun.step_quiet hdrop' hall.reads rfl hperform
        exact ⟨0, _, Path.single hstep, pos + 1, context, rfl, (JobRun.drop_cons hdrop').2, hrest, hnested, hframes'⟩
      · rw [if_pos hzero] at hperform
        rw [decide_eq_true hzero]
        have hstep := JobRun.step_jump hdrop' hall.reads rfl hperform
        exact ⟨0, _, Path.single hstep, top.file_pos, _, rfl, hpos, hall, hbody, hlabel, hnested, hbody, hframes'⟩
  | loop label n body note' rest =>
    obtain ⟨hrepeat, hrepeats, hpos⟩ := hentered
    have hdrop' : file.drop pos = oline label "ENDREPEAT" "" note' :: (rest.text ++ after frames) := hdrop
    have hperform := FlowEnv.perform_endrepeat ((JobRun.state file pos (top :: context) s).env I) "" top context
      rfl hrepeat htop
    unfold FlowEnv.again_repeat at hperform
    rw [hrepeats] at hperform
    unfold Meaning.close
    dsimp only
    by_cases hmore : n > 1
    · rw [if_pos ⟨by omega, by omega⟩] at hperform
      rw [if_pos hmore]
      have hstep := JobRun.step_jump hdrop' hall.reads rfl hperform
      refine ⟨0, _, Path.single hstep, top.file_pos, _, rfl, hpos, ?_, hbody, hlabel, hnested, hbody, hframes'⟩
      exact ⟨htop, hskip, hbrk, ⟨hrepeat, rfl, hpos⟩, hrest⟩
    · rw [if_neg (by omega)] at hperform
      rw [if_neg hmore]
      have hstep := JobRun.step_quiet hdrop' hall.reads rfl hperform
      exact ⟨0, _, Path.single hstep, pos + 1, context, rfl, (JobRun.drop_cons hdrop').2, hrest, hnested, hframes'⟩

/-- The context stack is unwound with the blocks of the program. -/
theorem unwind {label : Nat} {frames frames' : List (Frame L String Bool)} {context : Context}
    (hmatches : Matches file frames context) (hframes : FramesNested frames)
    (hfind : frames.dropWhile (·.label ≠ label) = frame :: frames') :
    ∃ top context', context.unwind_to label = top :: context' ∧ Matches file (frame :: frames') (top :: context') ∧
      FramesNested (frame :: frames') := by
  induction frames generalizing context with
  | nil => cases hfind
  | cons next frames ih =>
    cases context with
    | nil => exact absurd hmatches id
    | cons top context =>
      have htop : top.o_label = next.label := hmatches.1
      by_cases hlabel : next.label = label
      · have hhere : List.dropWhile (fun frame : Frame L String Bool => frame.label ≠ label) (next :: frames) =
            next :: frames := List.dropWhile_cons_of_neg (by simp [hlabel])
        obtain ⟨rfl, rfl⟩ := List.cons.inj (hhere.symm.trans hfind)
        exact ⟨top, context, List.dropWhile_cons_of_neg (by simp [htop, hlabel]), hmatches, hframes⟩
      · have hlater : List.dropWhile (fun frame : Frame L String Bool => frame.label ≠ label) (next :: frames) =
            frames.dropWhile (·.label ≠ label) := List.dropWhile_cons_of_pos (by simp [hlabel])
        obtain ⟨top', context', hunwind, hrest⟩ :=
          ih hmatches.2.2.2.2 hframes.2.2.2 (hlater.symm.trans hfind)
        refine ⟨top', context', ?_, hrest⟩
        rw [← hunwind]
        exact List.dropWhile_cons_of_pos (by simp [htop, hlabel])

end Loops

end DuneWeaver
