import DuneWeaver.Gcode.Owords

open Structured Machine

namespace DuneWeaver

open ngc_cmd_t

variable {L σ : Type} {I : Interpreter L σ}

/-- The flow control does what the program says in its next step. It does not
- in a BREAK;
- in a CONTINUE that would end the loop, and in the CONTINUE of a DO block whatever its condition, unless it holds;
- in a WHILE whose condition does not hold at first, or that stands directly in a DO block;
- in a REPEAT with a count between 0 and 1, below 0 or from 2 ^ 32 on;
- where a part with a line that cannot be read, or up to an O-word with a comment, is to be skipped. -/
def Regular (I : Interpreter L σ) : Config L String Bool σ → Prop
  | .running (.cond _ test _ body alts _) _ s =>
    I.meaning.test test s = some false → Skippable I s body.text ∧ Untried I s alts
  | .running (.whileDo _ test _ _ _ _) frames s =>
    I.meaning.test test s ≠ some false ∧
      match frames with
      | .doWhile .. :: _ => False
      | _ => True
  | .running (.loop _ count _ body note' _) _ s =>
    match I.expression count s with
    | .error _ => True
    | .ok value => if value = 0 then Skippable I s body.text ∧ note' = false else 1 ≤ value ∧ value < 2 ^ 32
  | .running (.leave _ _ _) _ _ => False
  | .running (.next label _ _) frames s =>
    match frames.dropWhile (·.label ≠ label) with
    | .doWhile _ _ test _ _ :: _ => I.meaning.test test s = some true
    | .whileDo _ test _ _ _ :: _ => I.meaning.test test s = some true
    | .loop _ n _ _ _ :: _ => 1 < n
    | _ => False
  | .running .done (.cond _ alts _ :: _) s => Passed I s false alts
  | _ => True

instance decidableRegular (I : Interpreter L σ) : DecidablePred (Regular I) := fun config => by
  unfold Regular
  split
  · infer_instance
  · split <;> infer_instance
  · split <;> infer_instance
  · infer_instance
  · split <;> infer_instance
  · infer_instance
  · infer_instance

section Simulation

variable {file : List (JobLine L)} {frames : List (Frame L String Bool)} {context : Context} {pos : Nat} {s : σ}

/-- A block whose condition holds is entered; otherwise the job goes on to its alternatives. -/
theorem follow_cond {label : Nat} {test : String} {note : Bool} {body : Prog L String Bool}
    {alts : Alts L String Bool} {rest : Prog L String Bool}
    (hdrop : file.drop pos = (Prog.cond label test note body alts rest).text ++ after frames)
    (hmatches : Matches file frames context)
    (hnested : (Prog.cond label test note body alts rest).Nested (opened frames) (loops frames))
    (hframes : FramesNested frames)
    (hregular : I.meaning.test test s = some false → Skippable I s body.text ∧ Untried I s alts) :
    ∃ n r, Path (JobRun.step I) (n + 1) (JobRun.state file pos context s) [] r ∧
      Follows file (Meaning.branch (I.meaning.test test s) (.running body (.cond label alts rest :: frames) s)
        (I.meaning.choose label rest frames s alts)) r := by
  obtain ⟨hlabel, hbody, halts, hrest⟩ := hnested
  have hskip := hmatches.skipping
  have hdrop' : file.drop pos =
      oline label "IF" test note :: (body.text ++ after (.cond label alts rest :: frames)) := by
    rw [hdrop, Prog.text, List.cons_append, List.append_assoc, List.append_assoc]
    rfl
  cases hvalue : I.expression test s with
  | error e =>
    rw [test_error hvalue]
    apply follows_failed hdrop' hmatches.reads rfl ?_ (fun he => I.expression_ne_ok test s (he ▸ hvalue))
    exact FlowEnv.perform_error _ hvalue rfl hskip (.inl rfl) hmatches.brk
  | ok value =>
    rw [test_ok hvalue] at hregular ⊢
    have hstep := JobRun.step_quiet (I := I) hdrop' hmatches.reads rfl
      (FlowEnv.perform_if ((JobRun.state file pos context s).env I) hvalue hskip)
    by_cases hzero : value = 0
    · have hfalse : decide (value ≠ 0) = false := decide_eq_false (not_not.mpr hzero)
      rw [hfalse] at hregular ⊢
      obtain ⟨hread, huntried⟩ := hregular rfl
      obtain ⟨hpath, hend⟩ := skip_body I context s {
          o_label := label, operation := Op_If, file := some 0, skip := value = 0, handled := value ≠ 0 }
        (JobRun.drop_cons hdrop').2 rfl (decide_eq_true hzero) rfl hbody hread
      obtain ⟨n, r, hrun, hfollows⟩ := choose_alts I s hlabel hmatches hrest hframes alts {
          o_label := label, operation := Op_If, file := some 0, skip := value = 0, handled := value ≠ 0 }
        hend (.inl rfl) rfl hfalse (decide_eq_true hzero) rfl halts huntried
      exact ⟨body.text.length + (n + 1), r, Path.silent hstep (hpath.trans hrun), hfollows⟩
    · have htrue : decide (value ≠ 0) = true := decide_eq_true hzero
      rw [htrue]
      refine ⟨0, _, Path.single hstep, pos + 1, _, rfl, (JobRun.drop_cons hdrop').2, ?_, hbody, ?_⟩
      · exact ⟨rfl, decide_eq_false hzero, rfl, .inl ⟨.inl rfl, htrue⟩, hmatches⟩
      · exact ⟨hlabel, hrest, halts, hframes⟩

theorem follow_doWhile {label : Nat} {test : String} {note note' : Bool} {body rest : Prog L String Bool}
    (hdrop : file.drop pos = (Prog.doWhile label note body test note' rest).text ++ after frames)
    (hmatches : Matches file frames context)
    (hnested : (Prog.doWhile label note body test note' rest).Nested (opened frames) (loops frames))
    (hframes : FramesNested frames) :
    ∃ n r, Path (JobRun.step I) (n + 1) (JobRun.state file pos context s) [] r ∧
      Follows file (.running body (.doWhile label body test note' rest :: frames) s) r := by
  obtain ⟨hlabel, hbody, hrest⟩ := hnested
  have hskip := hmatches.skipping
  have hdrop' : file.drop pos =
      oline label "DO" "" note :: (body.text ++ after (.doWhile label body test note' rest :: frames)) := by
    rw [hdrop, Prog.text, List.cons_append, List.append_assoc]
    rfl
  have hstep := JobRun.step_quiet (I := I) hdrop' hmatches.reads rfl
    (FlowEnv.perform_do ((JobRun.state file pos context s).env I) rfl hskip)
  have hbegin := (JobRun.drop_cons hdrop').2
  refine ⟨0, _, Path.single hstep, pos + 1, _, rfl, hbegin, ?_, hbody, ?_⟩
  · exact ⟨rfl, rfl, rfl, ⟨rfl, hbegin⟩, hmatches⟩
  · exact ⟨hlabel, hrest, hbody, hframes⟩

/-- A WHILE that opens a block whose condition holds. -/
theorem follow_whileDo {label : Nat} {test : String} {note note' : Bool} {body rest : Prog L String Bool}
    (hdrop : file.drop pos = (Prog.whileDo label test note body note' rest).text ++ after frames)
    (hmatches : Matches file frames context)
    (hnested : (Prog.whileDo label test note body note' rest).Nested (opened frames) (loops frames))
    (hframes : FramesNested frames)
    (hregular : Regular I (.running (.whileDo label test note body note' rest) frames s)) :
    ∃ n r, Path (JobRun.step I) (n + 1) (JobRun.state file pos context s) [] r ∧
      Follows file (Meaning.branch (I.meaning.test test s)
        (.running body (.whileDo label test body note' rest :: frames) s) (.running rest frames s)) r := by
  obtain ⟨hlabel, hbody, hrest⟩ := hnested
  obtain ⟨htest, houter⟩ := hregular
  have hskip := hmatches.skipping
  have hdrop' : file.drop pos =
      oline label "WHILE" test note :: (body.text ++ after (.whileDo label test body note' rest :: frames)) := by
    rw [hdrop, Prog.text, List.cons_append, List.append_assoc]
    rfl
  have hdo : ∀ top ∈ context.head?, top.operation ≠ Op_Do := by
    apply hmatches.not_do
    rintro label' body' test' note'' rest' outer rfl
    exact houter
  cases hvalue : I.expression test s with
  | error e =>
    rw [test_error hvalue]
    apply follows_failed hdrop' hmatches.reads rfl ?_ (fun he => I.expression_ne_ok test s (he ▸ hvalue))
    exact FlowEnv.perform_error _ hvalue rfl hskip (.inr (.inr rfl)) hmatches.brk
  | ok value =>
    rw [test_ok hvalue] at htest ⊢
    have hnonzero : value ≠ 0 := by
      intro hzero
      exact htest (congrArg some (decide_eq_false (not_not.mpr hzero)))
    have hstep := JobRun.step_quiet (I := I) hdrop' hmatches.reads rfl
      (FlowEnv.perform_while ((JobRun.state file pos context s).env I) hvalue rfl hskip hmatches.brk hdo)
    unfold FlowEnv.do_while.push at hstep
    rw [if_pos hnonzero] at hstep
    rw [decide_eq_true hnonzero]
    have hbegin := (JobRun.drop_cons hdrop').2
    refine ⟨0, _, Path.single hstep, pos + 1, _, rfl, hbegin, ?_, hbody, ?_⟩
    · exact ⟨rfl, rfl, rfl, ⟨rfl, rfl, hbegin⟩, hmatches⟩
    · exact ⟨hlabel, hrest, hbody, hframes⟩

/-- The count of a REPEAT that makes at least one pass. -/
theorem count_pos {value : ℚ} (h : 1 ≤ value) (hlt : value < 2 ^ 32) :
    ∃ n, ⌊value⌋.toNat = n + 1 ∧ uint32_of value = n + 1 := by
  have hone : 1 ≤ ⌊value⌋ := Int.le_floor.mpr (by exact_mod_cast h)
  have htop : ⌊value⌋ < 2 ^ 32 := Int.floor_lt.mpr (by exact_mod_cast hlt)
  refine ⟨⌊value⌋.toNat - 1, by omega, ?_⟩
  unfold uint32_of
  omega

theorem follow_loop {label : Nat} {count : String} {note note' : Bool} {body rest : Prog L String Bool}
    (hdrop : file.drop pos = (Prog.loop label count note body note' rest).text ++ after frames)
    (hmatches : Matches file frames context)
    (hnested : (Prog.loop label count note body note' rest).Nested (opened frames) (loops frames))
    (hframes : FramesNested frames)
    (hregular : Regular I (.running (.loop label count note body note' rest) frames s)) :
    ∃ n r, Path (JobRun.step I) (n + 1) (JobRun.state file pos context s) [] r ∧
      Follows file (Meaning.counted (I.meaning.count count s)
        (fun n => .running body (.loop label n body note' rest :: frames) s) (.running rest frames s)) r := by
  obtain ⟨hlabel, hbody, hrest⟩ := hnested
  have hskip := hmatches.skipping
  have hdrop' : file.drop pos =
      oline label "REPEAT" count note :: (body.text ++
        (oline label "ENDREPEAT" "" note' :: (rest.text ++ after frames))) := by
    rw [hdrop, Prog.text, List.cons_append, List.append_assoc]
    rfl
  unfold Regular at hregular
  dsimp only at hregular
  cases hvalue : I.expression count s with
  | error e =>
    have hnone : I.meaning.count count s = none := by simp [Interpreter.meaning, hvalue, Except.toOption]
    rw [hnone]
    apply follows_failed hdrop' hmatches.reads rfl ?_ (fun he => I.expression_ne_ok count s (he ▸ hvalue))
    exact FlowEnv.perform_error _ hvalue rfl hskip (.inr (.inl rfl)) hmatches.brk
  | ok value =>
    have hcount : I.meaning.count count s = some ⌊value⌋.toNat := by
      simp [Interpreter.meaning, hvalue, Except.toOption]
    rw [hvalue] at hregular
    dsimp only at hregular
    rw [hcount]
    have hperform := FlowEnv.perform_repeat ((JobRun.state file pos context s).env I) label hvalue rfl hskip
    by_cases hzero : value = 0
    · rw [if_pos hzero] at hregular
      rw [if_neg (not_not.mpr hzero)] at hperform
      obtain ⟨hbodyread, hnote⟩ := hregular
      have hstep := JobRun.step_quiet (I := I) hdrop' hmatches.reads rfl hperform
      obtain ⟨hpath, hend⟩ := skip_body I context s {
          o_label := label, operation := Op_Repeat, file := some 0, skip := true }
        (JobRun.drop_cons hdrop').2 rfl rfl rfl hbody hbodyread
      have hstop := JobRun.step_quiet (I := I) (s := s) hend (fun _ => hnote) rfl
        (FlowEnv.perform_endrepeat _ "" {
          o_label := label, operation := Op_Repeat, file := some 0, skip := true } context rfl rfl rfl)
      have hpasses : ⌊value⌋.toNat = 0 := by
        rw [hzero]
        rfl
      rw [hpasses]
      refine ⟨body.text.length + 1, _, Path.silent hstep (hpath.trans (Path.single hstop)), _, context, rfl,
        (JobRun.drop_cons hend).2, hmatches, hrest, hframes⟩
    · rw [if_neg hzero] at hregular
      rw [if_pos hzero] at hperform
      obtain ⟨n, hpasses, hrepeats⟩ := count_pos hregular.1 hregular.2
      rw [hrepeats] at hperform
      rw [hpasses]
      have hstep := JobRun.step_quiet (I := I) hdrop' hmatches.reads rfl hperform
      have hbegin := (JobRun.drop_cons hdrop').2
      refine ⟨0, _, Path.single hstep, pos + 1, _, rfl, hbegin, ?_, hbody, ?_⟩
      · exact ⟨rfl, rfl, rfl, ⟨rfl, rfl, hbegin⟩, hmatches⟩
      · exact ⟨hlabel, hrest, hbody, hframes⟩

/-- A condition that holds in the program has a value other than 0 in the job. -/
theorem test_true {test : String} (h : I.meaning.test test s = some true) :
    ∃ value, I.expression test s = .ok value ∧ value ≠ 0 := by
  cases hvalue : I.expression test s with
  | error e =>
    rw [test_error hvalue] at h
    cases h
  | ok value =>
    rw [test_ok hvalue] at h
    exact ⟨value, rfl, of_decide_eq_true (Option.some.inj h)⟩

/-- CONTINUE of a loop that has another pass to make. -/
theorem follow_next {label : Nat} {note : Bool} {rest : Prog L String Bool}
    (hdrop : file.drop pos = (Prog.next label note rest).text ++ after frames)
    (hmatches : Matches file frames context) (hframes : FramesNested frames)
    (hregular : Regular I (.running (.next label note rest) frames s)) :
    ∃ n r, Path (JobRun.step I) (n + 1) (JobRun.state file pos context s) [] r ∧
      Follows file (Meaning.unwound label frames (I.meaning.close s)) r := by
  have hskip := hmatches.skipping
  have hdrop' : file.drop pos = oline label "CONTINUE" "" note :: (rest.text ++ after frames) := hdrop
  unfold Regular at hregular
  dsimp only at hregular
  unfold Meaning.unwound
  cases hfind : frames.dropWhile (·.label ≠ label) with
  | nil =>
    rw [hfind] at hregular
    exact absurd hregular id
  | cons frame frames' =>
    rw [hfind] at hregular
    dsimp only at hregular ⊢
    obtain ⟨top, context', hunwind, hall, hframes'⟩ := unwind hmatches hframes hfind
    have hperform := FlowEnv.perform_continue ((JobRun.state file pos context s).env I) "" rfl hskip hunwind
    obtain ⟨htop, hskip', hbrk, hentered, hrest⟩ := hall
    obtain ⟨hlabel, hnested, hbody, houter⟩ := hframes'
    unfold FlowEnv.again at hperform
    unfold Meaning.close
    cases frame with
    | cond label' alts rest' => exact absurd hregular id
    | doWhile label' body test note' rest' =>
      obtain ⟨hdo, hpos⟩ := hentered
      rw [hdo] at hperform
      dsimp only at hregular hperform ⊢
      rw [hregular]
      have hstep := JobRun.step_jump hdrop' hmatches.reads rfl hperform
      refine ⟨0, _, Path.single hstep, top.file_pos, _, rfl, hpos, ?_, hbody, hlabel, hnested, hbody, houter⟩
      exact ⟨htop, hskip', hbrk, ⟨hdo, hpos⟩, hrest⟩
    | whileDo label' test body note' rest' =>
      obtain ⟨hwhile, hexpr, hpos⟩ := hentered
      obtain ⟨value, hvalue, hnonzero⟩ := test_true (I := I) hregular
      rw [hwhile] at hperform
      dsimp only at hregular hperform ⊢
      rw [FlowEnv.again_while_on _ (hexpr ▸ hvalue) hskip' hnonzero] at hperform
      rw [hregular]
      have hstep := JobRun.step_jump hdrop' hmatches.reads rfl hperform
      refine ⟨0, _, Path.single hstep, top.file_pos, _, rfl, hpos, ?_, hbody, hlabel, hnested, hbody, houter⟩
      exact ⟨htop, hskip', hbrk, ⟨hwhile, hexpr, hpos⟩, hrest⟩
    | loop label' n body note' rest' =>
      obtain ⟨hrepeat, hrepeats, hpos⟩ := hentered
      rw [hrepeat] at hperform
      dsimp only at hregular hperform ⊢
      rw [FlowEnv.again_repeat, hrepeats, if_pos ⟨by omega, by omega⟩] at hperform
      rw [if_pos hregular]
      have hstep := JobRun.step_jump hdrop' hmatches.reads rfl hperform
      refine ⟨0, _, Path.single hstep, top.file_pos, _, rfl, hpos, ?_, hbody, hlabel, hnested, hbody, houter⟩
      exact ⟨htop, hskip', hbrk, ⟨hrepeat, rfl, hpos⟩, hrest⟩

/-- The body of a block has come to its end. -/
theorem follow_done {frame : Frame L String Bool} (hdrop : file.drop pos = after (frame :: frames))
    (hmatches : Matches file (frame :: frames) context) (hframes : FramesNested (frame :: frames))
    (hregular : Regular I (.running .done (frame :: frames) s)) :
    ∃ n r, Path (JobRun.step I) (n + 1) (JobRun.state file pos context s) [] r ∧
      Follows file (I.meaning.close s frames frame) r := by
  cases context with
  | nil => exact absurd hmatches id
  | cons top context =>
    cases frame with
    | cond label alts rest =>
      obtain ⟨htop, hskip, hbrk, hentered, hrest⟩ := hmatches
      obtain ⟨hlabel, hnested, halts, houter⟩ := hframes
      obtain ⟨hif, hhandled⟩ | ⟨helse, note, rfl⟩ := hentered
      · have hpassed : Passed I s top.skip alts := by
          rw [hskip]
          exact hregular
        obtain ⟨n, pos', hpath, hend⟩ := pass_alts I context s alts top hdrop hif htop hhandled
          hbrk halts hpassed
        exact ⟨n, _, hpath, pos', context, rfl, hend, hrest, hnested, houter⟩
      · have hread : top.skip = true → note = false := fun h => by rw [hskip] at h; cases h
        have hdrop' : file.drop pos = oline label "ENDIF" "" note :: (rest.text ++ after frames) := hdrop
        have hstep := step_endif I context s top hdrop' hread (.inr (.inr helse)) htop
        exact ⟨0, _, Path.single hstep, pos + 1, context, rfl, (JobRun.drop_cons hdrop').2, hrest, hnested, houter⟩
    | doWhile => exact close_loop hdrop (by rintro _ _ _ ⟨⟩) hmatches hframes
    | whileDo => exact close_loop hdrop (by rintro _ _ _ ⟨⟩) hmatches hframes
    | loop => exact close_loop hdrop (by rintro _ _ _ ⟨⟩) hmatches hframes

/-- Another line is executed by the job as by the program. -/
theorem follow_line {l : L} {rest : Prog L String Bool}
    (hdrop : file.drop pos = (Prog.line l rest).text ++ after frames) (hmatches : Matches file frames context)
    (hnested : (Prog.line l rest).Nested (opened frames) (loops frames)) (hframes : FramesNested frames) :
    ∃ n r, Path (JobRun.step I) (n + 1) (JobRun.state file pos context s) [l] r ∧
      Follows file (Meaning.proceed (I.meaning.exec l s) (.running rest frames)) r := by
  have hdrop' : file.drop pos = .words l :: (rest.text ++ after frames) := hdrop
  cases hexec : I.exec l s with
  | error e =>
    have hnone : I.meaning.exec l s = none := by simp [Interpreter.meaning, hexec, Except.toOption]
    rw [hnone]
    obtain ⟨r, hstep, hfailed⟩ := JobRun.step_words_error hdrop' hmatches.skipping hexec
    exact ⟨0, r, Path.single hstep, hfailed⟩
  | ok s' =>
    have hsome : I.meaning.exec l s = some s' := by simp [Interpreter.meaning, hexec, Except.toOption]
    rw [hsome]
    have hstep := JobRun.step_words hdrop' hmatches.skipping hexec
    exact ⟨0, _, Path.single hstep, pos + 1, context, rfl, (JobRun.drop_cons hdrop').2, hmatches, hnested, hframes⟩

/-- A regular step of the program is matched by the job. -/
theorem follows_step {config config' : Config L String Bool σ} {r : JobRun L σ} {out : List L}
    (hfollows : Follows file config r) (hregular : Regular I config)
    (hstep : I.meaning.step config = some (out, config')) :
    ∃ n r', Path (JobRun.step I) (n + 1) r out r' ∧ Follows file config' r' := by
  cases config with
  | failed => cases hstep
  | running todo frames s =>
    obtain ⟨pos, context, rfl, hdrop, hmatches, hnested, hframes⟩ := hfollows
    cases todo with
    | done =>
      cases frames with
      | nil => cases hstep
      | cons frame frames =>
        obtain ⟨rfl, rfl⟩ := Prod.mk.inj (Option.some.inj hstep)
        exact follow_done hdrop hmatches hframes hregular
    | line l rest =>
      obtain ⟨rfl, rfl⟩ := Prod.mk.inj (Option.some.inj hstep)
      exact follow_line hdrop hmatches hnested hframes
    | cond label test note body alts rest =>
      obtain ⟨rfl, rfl⟩ := Prod.mk.inj (Option.some.inj hstep)
      exact follow_cond hdrop hmatches hnested hframes hregular
    | doWhile label note body test note' rest =>
      obtain ⟨rfl, rfl⟩ := Prod.mk.inj (Option.some.inj hstep)
      exact follow_doWhile hdrop hmatches hnested hframes
    | whileDo label test note body note' rest =>
      obtain ⟨rfl, rfl⟩ := Prod.mk.inj (Option.some.inj hstep)
      exact follow_whileDo hdrop hmatches hnested hframes hregular
    | loop label count note body note' rest =>
      obtain ⟨rfl, rfl⟩ := Prod.mk.inj (Option.some.inj hstep)
      exact follow_loop hdrop hmatches hnested hframes hregular
    | leave label note rest => exact absurd hregular id
    | next label note rest =>
      obtain ⟨rfl, rfl⟩ := Prod.mk.inj (Option.some.inj hstep)
      exact follow_next hdrop hmatches hframes hregular

/-- The job stops where the program stops. -/
theorem follows_stop {config : Config L String Bool σ} {r : JobRun L σ} (hfollows : Follows file config r)
    (hstop : I.meaning.step config = none) : JobRun.step I r = none := by
  cases config with
  | failed =>
    have hfailed : r.failed = true := hfollows
    unfold JobRun.step
    rw [if_pos hfailed]
  | running todo frames s =>
    obtain ⟨pos, context, rfl, hdrop, hmatches, hnested, hframes⟩ := hfollows
    cases todo with
    | done =>
      cases frames with
      | nil => exact JobRun.step_end hdrop
      | cons frame frames => cases hstop
    | _ => cases hstop

end Simulation

/-- A job executes the lines that its text as a structured program executes, in every run of the
program that is regular. -/
theorem job_runs_as_structured (I : Interpreter L σ) (p : Prog L String Bool) (s : σ) (hnested : p.Nested [] [])
    (hregular : ∀ n, Regular I (advance I.meaning.step n (.running p [] s))) :
    Same I.meaning.step (JobRun.step I) (.running p [] s) { file := p.text, params := s } := by
  apply same_of_simulation (R := Follows p.text) (G := Regular I)
  · intro config r out config' hfollows hregular hstep
    exact follows_step hfollows hregular hstep
  · intro config r hfollows hstop
    exact follows_stop hfollows hstop
  · refine ⟨0, [], rfl, ?_, rfl, hnested, trivial⟩
    exact (List.append_nil _).symm
  · exact hregular

/-- Lines that are counted as they are executed. The condition holds for the first five lines. -/
def counting : Interpreter Nat Nat where
  exec _ s := .ok (s + 1)
  first_word _ _ := .ok ()
  expression expr s := .ok (if expr = "[#1LT5]" then if s < 5 then 1 else 0 else if expr = "[2]" then 2 else 0)
  error_of _ := .Ok
  expression_ne_ok := by
    intro expr s h
    cases h

/-- An IF with its alternatives, a REPEAT and a DO. -/
def sampler : Prog Nat String Bool :=
  .cond 1 "[0]" true (.line 0 .done) (.elseif "[#1LT5]" false (.line 1 .done) (.orelse true (.line 2 .done) false))
    (.loop 2 "[2]" false (.line 3 .done) true
      (.doWhile 3 false (.line 4 .done) "[#1LT5]" false (.line 5 .done)))

theorem sampler_runs_as_structured :
    Same counting.meaning.step (JobRun.step counting) (.running sampler [] 0)
      { file := sampler.text, params := 0 } := by
  apply job_runs_as_structured
  · simp [sampler, Prog.Nested, Alts.Nested]
  · apply forall_advance (P := Regular counting) (n := 22)
    · decide
    · decide

/-- A WHILE whose condition does not hold, and a line behind it. -/
def off_loop : Prog Nat String Bool := .whileDo 1 "[0]" false .done false (.line 0 .done)

/-- The line behind a WHILE loop that makes no pass is not executed: ENDWHILE leaves the entry of a
loop that is skipped on the context stack. -/
theorem while_without_pass_drops_the_rest :
    off_loop.Nested [] [] ∧
      ¬ Same counting.meaning.step (JobRun.step counting) (.running off_loop [] 0)
        { file := off_loop.text, params := 0 } := by
  constructor
  · simp [off_loop, Prog.Nested]
  · rintro ⟨hall, -⟩
    obtain ⟨m, hm⟩ := hall 2
    have hprogram : outputs counting.meaning.step 2 (.running off_loop [] 0) = [0] := by decide
    have hjob : outputs (JobRun.step counting) m { file := off_loop.text, params := 0 } <+: [] := by
      apply outputs_prefix_of_stopped (n := 3)
      · rfl
      · decide
    rw [List.prefix_nil.mp hjob, hprogram] at hm
    cases hm

end DuneWeaver
