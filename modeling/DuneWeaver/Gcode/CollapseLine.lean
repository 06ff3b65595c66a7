import DuneWeaver.Gcode.Messages

namespace DuneWeaver

variable {V : Type*} {env : CommentEnv V}

/-- A line without its comments: those in parentheses, and the one from a semicolon on. -/
def without_comments : Bool → Bytes → Bytes
  | _, [] => []
  | true, c :: line => without_comments (c ≠ 0x29) line
  | false, c :: line =>
    if c = 0x28 then without_comments true line
    else if c = 0x3b then []
    else c :: without_comments false line

/-- What is left of a line: upper case, and no white space, comment, `%` or stray closing parenthesis. -/
def collapsed (line : Bytes) : Bytes :=
  ((without_comments false line).filter fun c => !isspace c && c ≠ 0x29 && c ≠ 0x25).map toupper

/-- There is a semicolon in a comment in parentheses. -/
def semicolon_inside : Bool → Bytes → Bool
  | _, [] => false
  | true, c :: line => c = 0x3b || semicolon_inside (c ≠ 0x29) line
  | false, c :: line => if c = 0x28 then semicolon_inside true line else c ≠ 0x3b && semicolon_inside false line

/-- The comments in parentheses, each from its last opening parenthesis on, with the one that is
begun already. A semicolon ends the line. -/
def comments : Option Bytes → Bytes → List Bytes
  | body, [] => body.toList
  | body, c :: line =>
    if c = 0x29 then body.toList ++ comments none line
    else if c = 0x28 then comments (some []) line
    else if c = 0x3b then []
    else comments (body.map (· ++ [c])) line

/-- What `collapseGCode` makes of a line, inside a comment or not. -/
def scanned : Bool → Bytes → Bytes
  | _, [] => []
  | inside, c :: line =>
    if isspace c then scanned inside line
    else if c = 0x29 then scanned false line
    else if c = 0x28 then scanned true line
    else if c = 0x3b then []
    else if c = 0x25 then scanned inside line
    else if inside then scanned inside line
    else toupper c :: scanned inside line

theorem comments_none_of_notMem {line : Bytes} (h : 0x28 ∉ line) : comments none line = [] := by
  induction line with
  | nil => rfl
  | cons c line ih =>
    rw [List.mem_cons, not_or] at h
    rw [comments, if_neg (Ne.symm h.1), Option.map_none, ih h.2]
    split_ifs <;> rfl

theorem scanned_eq {inside : Bool} {line : Bytes} (h : semicolon_inside inside line = false) :
    scanned inside line =
      ((without_comments inside line).filter fun c => !isspace c && c ≠ 0x29 && c ≠ 0x25).map toupper := by
  induction line generalizing inside with
  | nil => cases inside <;> rfl
  | cons c line ih =>
    have hspace : isspace c = true → c ≠ 0x29 ∧ c ≠ 0x28 ∧ c ≠ 0x3b := by
      intro hc
      refine ⟨?_, ?_, ?_⟩
      all_goals
        rintro rfl
        exact absurd hc (by decide)
    cases inside with
    | true =>
      rw [semicolon_inside, Bool.or_eq_false_iff] at h
      obtain ⟨hsemi, hrest⟩ := h
      have hsemi : c ≠ 0x3b := by simpa using hsemi
      rw [without_comments, ← ih hrest, scanned]
      by_cases hc : c = 0x29
      · subst hc
        rfl
      · rw [if_neg hc, if_neg hsemi]
        simp only [ne_eq, hc, not_false_eq_true, decide_true, if_true, ite_self]
    | false =>
      rw [semicolon_inside] at h
      rw [without_comments, scanned]
      by_cases hopen : c = 0x28
      · subst hopen
        exact ih h
      · rw [if_neg hopen] at h ⊢
        by_cases hsemi : c = 0x3b
        · subst hsemi
          rfl
        · have hrest : semicolon_inside false line = false := by simpa [hsemi] using h
          rw [if_neg hsemi, ih hrest, if_neg hopen, if_neg hsemi]
          by_cases hblank : isspace c = true
          · simp [hblank]
          · by_cases hclose : c = 0x29
            · simp [hclose]
            · by_cases hpercent : c = 0x25
              · simp [hpercent]
              · simp [hblank, hclose, hpercent]

section InPlace

variable {s t : Collapse} {out junk text rest : Bytes} {body : Option Bytes}

theorem getD_middle (a b : Bytes) (c : UInt8) : (a ++ c :: b).getD a.length 0 = c := by
  rw [List.getD_eq_getElem?_getD, List.getElem?_append_right (Nat.le_refl _), Nat.sub_self]
  rfl

theorem toupper_ne_zero {c : UInt8} (h : c ≠ 0) : toupper c ≠ 0 := by
  unfold toupper
  split_ifs with hlower
  · intro hzero
    have hc : c - 0x20 + 0x20 = 0 + 0x20 := congrArg (· + 0x20) hzero
    rw [UInt8.sub_add_cancel, UInt8.zero_add] at hc
    rw [hc] at hlower
    exact absurd hlower (by decide)
  · exact h

/-- Between the output and the read position are characters that are done with; those of a comment
are its body. -/
inductive Between (out junk : Bytes) : Option Nat → Option Bytes → Prop where
  | outside : Between out junk none none
  | inside (before body : Bytes) (h : junk = before ++ body) :
      Between out junk (some (out ++ before).length) (some body)

theorem Between.snoc {parenPtr : Option Nat} (h : Between out junk parenPtr body) (c : UInt8) :
    Between out (junk ++ [c]) parenPtr (body.map (· ++ [c])) := by
  cases h with
  | outside => exact .outside
  | inside before body h => exact .inside before (body ++ [c]) (by rw [h, List.append_assoc])

theorem Between.isSome {parenPtr : Option Nat} (h : Between out junk parenPtr body) :
    parenPtr.isSome = body.isSome := by
  cases h with
  | outside => rfl
  | inside => rfl

/-- The message of the comment that ends here, its text still where it was. -/
theorem comment_msg_eq (hline : s.line = out ++ junk ++ 0 :: rest) (hbetween : Between out junk s.parenPtr body)
    (hbody : ∀ b ∈ body, 0 ∉ b ∧ env.Fits b) :
    ∃ log, s.comment_msg env = some { s with log := s.log ++ log } ∧
      (bytes "MSG" ∉ body.toList → log = body.toList.flatMap env.logged) := by
  obtain ⟨line, outPtr, parenPtr, log, percent⟩ := s
  unfold Collapse.comment_msg
  dsimp only at hline hbetween ⊢
  cases hbetween with
  | outside =>
    rw [Option.toList_none, List.flatMap_nil]
    exact ⟨[], by rw [List.append_nil], fun _ => rfl⟩
  | inside before b hjunk =>
    obtain ⟨hzero, hfits⟩ := hbody b rfl
    have hdrop : line.drop (out ++ before).length = b ++ 0 :: rest := by
      rw [hline, hjunk, ← List.append_assoc, List.append_assoc _ b, List.drop_left']
      rfl
    obtain ⟨logged, hlogged, hlog⟩ := gcode_comment_msg_fits rest hzero hfits
    rw [Option.toList_some, List.flatMap_singleton]
    refine ⟨logged, ?_, fun hne => hlog fun h => hne (h ▸ List.mem_singleton_self b)⟩
    dsimp only
    rw [hdrop, hlogged, Option.map_some]

/-- The end of the line is put behind the output. -/
theorem finish_eq {d : UInt8} (hline : s.line = out ++ junk ++ d :: rest) (hout : s.outPtr = out.length)
    (hzero : 0 ∉ out) :
    ∃ t, s.finish s.outPtr = some t ∧ c_str t.line = out ∧ t.log = s.log ∧ t.line.length = s.line.length := by
  obtain ⟨c, later, hlater⟩ : ∃ c later, junk ++ d :: rest = c :: later := by
    cases junk with
    | nil => exact ⟨d, rest, rfl⟩
    | cons c junk => exact ⟨c, junk ++ d :: rest, rfl⟩
  rw [List.append_assoc, hlater] at hline
  refine ⟨{ s with line := out ++ 0 :: later }, ?_, ?_, rfl, ?_⟩
  · rw [Collapse.finish, hline, hout, store_middle]
    rfl
  · rw [c_str_before_nul, c_str_eq_self hzero]
  · rw [hline, List.length_append, List.length_append, List.length_cons, List.length_cons]

/-- A character that is kept goes to the front of what is done with. -/
theorem store_out (out junk later : Bytes) (c d : UInt8) :
    ∃ junk', store (out ++ junk ++ c :: later) out.length d = some (out ++ [d] ++ junk' ++ later) ∧
      (out ++ [d] ++ junk').length = (out ++ junk).length + 1 := by
  obtain ⟨first, junk', hjunk⟩ : ∃ first junk', junk ++ [c] = first :: junk' := by
    cases junk with
    | nil => exact ⟨c, [], rfl⟩
    | cons first junk => exact ⟨first, junk ++ [c], rfl⟩
  have hline : out ++ junk ++ c :: later = out ++ first :: (junk' ++ later) := by
    rw [List.append_assoc, List.append_cons junk, hjunk, List.cons_append]
  have hlength : junk.length + 1 = junk'.length + 1 := by simpa using congrArg List.length hjunk
  refine ⟨junk', ?_, ?_⟩
  · rw [hline, store_middle]
    simp only [List.append_assoc, List.cons_append, List.nil_append]
  · simp only [List.length_append, List.length_singleton]
    omega

/-- The loop stands in front of `text`: what is put out, what is done with, and the body of a comment
that is begun. -/
structure Collapse.InFront (s : Collapse) (out junk : Bytes) (body : Option Bytes) (text rest : Bytes) : Prop where
  line : s.line = out ++ junk ++ text ++ 0 :: rest
  outPtr : s.outPtr = out.length
  between : Between out junk s.parenPtr body
  out_plain : 0 ∉ out
  text_plain : 0 ∉ text
  body_plain : ∀ b ∈ body, 0 ∉ b

/-- What the loop comes to: `left` on a line as long as before, and the comments logged. -/
def Collapse.Ends (env : CommentEnv V) (s : Collapse) (left : Bytes) (bodies : List Bytes)
    (result : Option Collapse) : Prop :=
  ∃ t, result = some t ∧ c_str t.line = left ∧
    (bytes "MSG" ∉ bodies → t.log = s.log ++ bodies.flatMap env.logged) ∧ t.line.length = s.line.length

namespace Collapse

theorem InFront.read {c : UInt8} (h : s.InFront out junk body (c :: text) rest) :
    s.line.getD (out ++ junk).length 0 = c := by
  rw [h.line, List.append_assoc, List.cons_append]
  exact getD_middle _ _ _

theorem InFront.ne_zero {c : UInt8} (h : s.InFront out junk body (c :: text) rest) : c ≠ 0 :=
  fun hc => h.text_plain (hc ▸ List.mem_cons_self)

theorem length_past (out junk : Bytes) (c : UInt8) : (out ++ junk).length + 1 = (out ++ (junk ++ [c])).length := by
  simp only [List.length_append, List.length_singleton]
  omega

/-- Most characters are only passed, those of a comment as a part of its body. -/
theorem InFront.past {c : UInt8} (h : s.InFront out junk body (c :: text) rest) (hline : t.line = s.line)
    (hout : t.outPtr = s.outPtr) (hparen : t.parenPtr = s.parenPtr) :
    t.InFront out (junk ++ [c]) (body.map (· ++ [c])) text rest where
  line := by
    rw [hline, h.line]
    simp only [List.append_assoc, List.singleton_append]
  outPtr := hout.trans h.outPtr
  between := hparen ▸ h.between.snoc c
  out_plain := h.out_plain
  text_plain hin := h.text_plain (List.mem_cons_of_mem c hin)
  body_plain b hb := by
    obtain ⟨before, hbefore, rfl⟩ := Option.map_eq_some_iff.mp hb
    rw [List.mem_append, List.mem_singleton]
    exact not_or.mpr ⟨h.body_plain before hbefore, h.ne_zero.symm⟩

/-- An opening parenthesis begins a comment anew. -/
theorem InFront.opened {c : UInt8} (h : s.InFront out junk body (c :: text) rest) :
    { s with parenPtr := some ((out ++ junk).length + 1) }.InFront out (junk ++ [c]) (some []) text rest where
  line := (h.past rfl rfl rfl).line
  outPtr := h.outPtr
  between := length_past out junk c ▸ .inside (junk ++ [c]) [] (List.append_nil _).symm
  out_plain := h.out_plain
  text_plain := (h.past rfl rfl rfl).text_plain
  body_plain _ hb := Option.some.inj hb ▸ List.not_mem_nil

/-- A comment is ended with a NUL in place of the parenthesis. -/
theorem InFront.closed {c : UInt8} {b : Bytes} (h : s.InFront out junk (some b) (c :: text) rest)
    (hfits : env.Fits b) :
    ∃ ended logged, s.finish (out ++ junk).length = some ended ∧
      ended.comment_msg env = some { ended with log := s.log ++ logged } ∧
      (bytes "MSG" ≠ b → logged = env.logged b) ∧ ended.line.length = s.line.length ∧
      { ended with log := s.log ++ logged, parenPtr := none }.InFront out (junk ++ [0]) none text rest := by
  have hfinish : s.finish (out ++ junk).length =
      some { s with line := out ++ junk ++ 0 :: (text ++ 0 :: rest) } := by
    rw [Collapse.finish, h.line, List.append_assoc, List.cons_append, store_middle]
    rfl
  obtain ⟨logged, hmsg, hlogged⟩ :=
    comment_msg_eq (s := { s with line := out ++ junk ++ 0 :: (text ++ 0 :: rest) }) rfl h.between fun b' hb' =>
      ⟨h.body_plain b' hb', Option.some.inj hb' ▸ hfits⟩
  refine ⟨_, logged, hfinish, hmsg, fun hne => ?_, ?_, ?_⟩
  · rw [hlogged fun hmem => hne (List.mem_singleton.mp hmem), Option.toList_some, List.flatMap_singleton]
  · rw [h.line]
    simp only [List.length_append, List.length_cons]
    omega
  · exact
      { line := by simp only [List.append_assoc, List.cons_append, List.nil_append]
        outPtr := h.outPtr
        between := .outside
        out_plain := h.out_plain
        text_plain := (h.past rfl rfl rfl).text_plain
        body_plain := nofun }

/-- Outside of a comment a character is put out in upper case. -/
theorem InFront.kept {c : UInt8} (h : s.InFront out junk none (c :: text) rest) :
    ∃ line junk', store s.line s.outPtr (toupper c) = some line ∧ line.length = s.line.length ∧
      (out ++ junk).length + 1 = (out ++ [toupper c] ++ junk').length ∧
      { s with line, outPtr := s.outPtr + 1 }.InFront (out ++ [toupper c]) junk' none text rest := by
  obtain ⟨junk', hstore, hposition⟩ := store_out out junk (text ++ 0 :: rest) c (toupper c)
  have hparen : s.parenPtr = none := Option.isNone_iff_eq_none.mp (Option.isSome_eq_false_iff.mp h.between.isSome)
  refine ⟨out ++ [toupper c] ++ junk' ++ (text ++ 0 :: rest), junk', ?_, ?_, hposition.symm, ?_⟩
  · rw [h.line, h.outPtr, List.append_assoc, List.cons_append]
    exact hstore
  · rw [h.line]
    simp only [List.length_append, List.length_cons] at hposition ⊢
    omega
  · exact
      { line := by rw [List.append_assoc _ text]
        outPtr := by rw [h.outPtr, List.length_append, List.length_singleton]
        between := hparen ▸ .outside
        out_plain := by
          rw [List.mem_append, List.mem_singleton]
          exact not_or.mpr ⟨h.out_plain, (toupper_ne_zero h.ne_zero).symm⟩
        text_plain := (h.past rfl rfl rfl).text_plain
        body_plain := nofun }

/-- At the end of the text the comment that is begun is logged. -/
theorem InFront.ends_text (h : s.InFront out junk body [] rest) (hfits : ∀ b ∈ body, env.Fits b) :
    s.Ends env out body.toList ((s.comment_msg env).bind fun s => s.finish s.outPtr) := by
  have hline : s.line = out ++ junk ++ 0 :: rest := by rw [h.line, List.append_nil]
  obtain ⟨log, hmsg, hlogged⟩ := comment_msg_eq hline h.between fun b hb => ⟨h.body_plain b hb, hfits b hb⟩
  obtain ⟨t, hfinish, hstr, hlog, hlength⟩ :=
    finish_eq (s := { s with log := s.log ++ log }) hline h.outPtr h.out_plain
  refine ⟨t, ?_, hstr, fun hne => ?_, hlength⟩
  · rw [hmsg]
    exact hfinish
  · rw [hlog, hlogged hne]

/-- A semicolon ends the line where it is. -/
theorem InFront.ends_line {c : UInt8} (h : s.InFront out junk body (c :: text) rest) :
    s.Ends env out [] (s.finish s.outPtr) := by
  have hline : s.line = out ++ junk ++ c :: (text ++ 0 :: rest) := by rw [h.line, List.append_assoc, List.cons_append]
  obtain ⟨t, hfinish, hstr, hlog, hlength⟩ := finish_eq hline h.outPtr h.out_plain
  exact ⟨t, hfinish, hstr, fun _ => by rw [hlog, List.flatMap_nil, List.append_nil], hlength⟩

/-- Where a character only moves the loop on, it comes to what the rest of the line comes to. -/
theorem Ends.of_next {left : Bytes} {bodies : List Bytes} {result : Option Collapse} (h : t.Ends env left bodies result)
    (hline : t.line.length = s.line.length) (hlog : t.log = s.log) : s.Ends env left bodies result := by
  obtain ⟨u, hresult, hstr, hlogged, hlength⟩ := h
  exact ⟨u, hresult, hstr, hlog ▸ hlogged, hlength.trans hline⟩

end Collapse

theorem separator_of_isspace {c : UInt8} (h : isspace c = true) : c ≠ 0x29 ∧ c ≠ 0x28 ∧ c ≠ 0x3b := by
  refine ⟨?_, ?_, ?_⟩
  all_goals
    rintro rfl
    exact absurd h (by decide)

/-- The loop of `collapseGCode`, where `skip_blocks` does not end it. -/
theorem collapse_loop_eq {skip_blocks : Bool} {turns : Nat} (hturns : text.length ≤ turns)
    (hskip : skip_blocks = true → 0x28 ∉ text ∧ 0x3b ∉ text) (h : s.InFront out junk body text rest)
    (hfits : ∀ b ∈ comments body text, env.Fits b) :
    s.Ends env (out ++ scanned body.isSome text) (comments body text)
      (collapse_loop env skip_blocks turns (out ++ junk).length s) := by
  induction text generalizing s out junk body turns with
  | nil =>
    unfold collapse_loop
    dsimp only
    rw [h.line, List.append_nil, getD_middle, if_pos rfl, scanned, List.append_nil, comments]
    exact h.ends_text fun b hb => hfits b (by simpa [comments] using hb)
  | cons c text ih =>
    obtain ⟨turns, rfl⟩ : ∃ n, turns = n + 1 := ⟨turns - 1, by rw [List.length_cons] at hturns; omega⟩
    rw [List.length_cons, Nat.add_le_add_iff_right] at hturns
    have hskip' : skip_blocks = true → 0x28 ∉ text ∧ 0x3b ∉ text := fun h =>
      ⟨fun hin => (hskip h).1 (List.mem_cons_of_mem c hin), fun hin => (hskip h).2 (List.mem_cons_of_mem c hin)⟩
    have hpass (t : Collapse) (hline : t.line = s.line) (hout : t.outPtr = s.outPtr) (hparen : t.parenPtr = s.parenPtr)
        (hlog : t.log = s.log) (htfits : ∀ b ∈ comments (body.map (· ++ [c])) text, env.Fits b) :
        s.Ends env (out ++ scanned body.isSome text) (comments (body.map (· ++ [c])) text)
          (collapse_loop env skip_blocks turns ((out ++ junk).length + 1) t) := by
      have hrest := ih hturns hskip' (h.past hline hout hparen) htfits
      rw [Option.isSome_map, ← Collapse.length_past] at hrest
      exact hrest.of_next (congrArg List.length hline) hlog
    have hparen := h.between.isSome
    unfold collapse_loop
    dsimp only
    rw [h.read, if_neg h.ne_zero, scanned]
    rw [comments] at hfits ⊢
    by_cases hspace : isspace c = true
    · obtain ⟨hclose, hopen, hsemi⟩ := separator_of_isspace hspace
      simp only [if_neg hclose, if_neg hopen, if_neg hsemi] at hfits ⊢
      rw [if_pos hspace, if_pos hspace]
      exact hpass s rfl rfl rfl rfl hfits
    rw [if_neg hspace, if_neg hspace]
    by_cases hclose : c = 0x29
    · simp only [if_pos hclose] at hfits ⊢
      cases body with
      | none =>
        rw [hparen, Option.isSome_none, if_neg Bool.false_ne_true]
        exact hpass s rfl rfl rfl rfl hfits
      | some b =>
        obtain ⟨ended, logged, hfinish, hmsg, hlogged, hlength, hnext⟩ := h.closed (hfits b List.mem_cons_self)
        obtain ⟨u, hloop, hstr, hlog, hlength'⟩ :=
          ih hturns hskip' hnext fun b' hb' => hfits b' (List.mem_cons_of_mem b hb')
        rw [hparen, Option.isSome_some, if_pos rfl, hfinish, Option.bind_some, hmsg, Option.bind_some]
        refine ⟨u, ?_, hstr, fun hne => ?_, hlength'.trans hlength⟩
        · rw [Collapse.length_past out junk 0]
          exact hloop
        · rw [Option.toList_some, List.singleton_append, List.mem_cons, not_or] at hne
          rw [hlog hne.2, hlogged hne.1, Option.toList_some, List.singleton_append, List.flatMap_cons,
            List.append_assoc]
    simp only [if_neg hclose] at hfits ⊢
    by_cases hopen : c = 0x28
    · simp only [if_pos hopen] at hfits ⊢
      have hrest := (ih hturns hskip' h.opened hfits).of_next (s := s) rfl rfl
      rw [← Collapse.length_past] at hrest
      rw [if_neg fun h => (hskip h).1 (hopen ▸ List.mem_cons_self)]
      exact hrest
    simp only [if_neg hopen] at hfits ⊢
    by_cases hsemi : c = 0x3b
    · simp only [if_pos hsemi]
      rw [if_neg fun h => (hskip h).2 (hsemi ▸ List.mem_cons_self), List.append_nil]
      exact h.ends_line
    simp only [if_neg hsemi] at hfits ⊢
    by_cases hpercent : c = 0x25
    · simp only [if_pos hpercent]
      exact hpass { s with percent := true } rfl rfl rfl rfl hfits
    simp only [if_neg hpercent]
    rw [← Option.not_isSome, hparen]
    cases body with
    | some b =>
      rw [Option.isSome_some, Bool.not_true, if_neg Bool.false_ne_true, if_pos rfl]
      exact hpass s rfl rfl rfl rfl hfits
    | none =>
      obtain ⟨line, junk', hstore, hlength, hposition, hnext⟩ := h.kept
      have hrest := (ih hturns hskip' hnext hfits).of_next (s := s) hlength rfl
      rw [Option.isSome_none, Bool.not_false, if_pos rfl, if_neg Bool.false_ne_true, hstore, Option.bind_some,
        hposition]
      rw [List.append_assoc, List.singleton_append] at hrest
      exact hrest

/-- With `skip_blocks` the first comment makes the line an empty one. -/
theorem collapse_loop_skip {turns : Nat} (hturns : text.length ≤ turns) (h : s.InFront out junk none text rest)
    (hany : 0x28 ∈ text ∨ 0x3b ∈ text) :
    ∃ t, collapse_loop env true turns (out ++ junk).length s = some t ∧ c_str t.line = [] ∧ t.log = s.log ∧
      t.line.length = s.line.length := by
  induction text generalizing s out junk turns with
  | nil => simp at hany
  | cons c text ih =>
    obtain ⟨turns, rfl⟩ : ∃ n, turns = n + 1 := ⟨turns - 1, by rw [List.length_cons] at hturns; omega⟩
    rw [List.length_cons, Nat.add_le_add_iff_right] at hturns
    have hempty : ∃ t, s.finish 0 = some t ∧ c_str t.line = [] ∧ t.log = s.log ∧ t.line.length = s.line.length := by
      obtain ⟨first, later, hfirst⟩ : ∃ first later, s.line = first :: later := by
        cases hs : s.line with
        | nil => simp [h.line] at hs
        | cons first later => exact ⟨first, later, rfl⟩
      refine ⟨{ s with line := 0 :: later }, ?_, rfl, rfl, ?_⟩
      · rw [Collapse.finish, hfirst]
        rfl
      · rw [hfirst, List.length_cons, List.length_cons]
    have hnone : s.parenPtr = none := Option.isNone_iff_eq_none.mp (Option.isSome_eq_false_iff.mp h.between.isSome)
    unfold collapse_loop
    dsimp only
    rw [h.read, if_neg h.ne_zero]
    simp only [hnone, Option.isSome_none, Bool.false_eq_true, if_false, if_true]
    by_cases hopen : c = 0x28
    · subst hopen
      exact hempty
    by_cases hsemi : c = 0x3b
    · subst hsemi
      exact hempty
    have hany' : 0x28 ∈ text ∨ 0x3b ∈ text := by
      simpa only [List.mem_cons, Ne.symm hopen, Ne.symm hsemi, false_or] using hany
    have hpass (t : Collapse) (hline : t.line = s.line) (hout : t.outPtr = s.outPtr) (hparen : t.parenPtr = s.parenPtr)
        (hlog : t.log = s.log) :
        ∃ u, collapse_loop env true turns ((out ++ junk).length + 1) t = some u ∧ c_str u.line = [] ∧
          u.log = s.log ∧ u.line.length = s.line.length := by
      rw [← hline, ← hlog, Collapse.length_past out junk c]
      exact ih hturns (h.past hline hout hparen) hany'
    simp only [if_neg hopen, if_neg hsemi]
    by_cases hspace : isspace c = true
    · rw [if_pos hspace]
      exact hpass s rfl rfl rfl rfl
    rw [if_neg hspace]
    by_cases hclose : c = 0x29
    · rw [if_pos hclose]
      exact hpass s rfl rfl rfl rfl
    rw [if_neg hclose]
    by_cases hpercent : c = 0x25
    · rw [if_pos hpercent]
      exact hpass { s with parenPtr := none, percent := true } rfl rfl hnone.symm rfl
    obtain ⟨line, junk', hstore, hlength, hposition, hnext⟩ := h.kept
    obtain ⟨u, hloop, hstr, hlog, hlength'⟩ := ih hturns hnext hany'
    rw [if_neg hpercent, Option.isNone_none, if_pos rfl, hstore, Option.bind_some, hposition]
    rw [hnone] at hloop
    exact ⟨u, hloop, hstr, hlog, hlength'.trans hlength⟩

end InPlace

/-- Every store is inside of the line, or of the message buffer where the messages fit it. What is left
is the line in upper case, without white space, comments, `%` and stray closing parentheses, or
an empty line where `skip_blocks` meets a comment. -/
theorem collapseGCode_fits (env : CommentEnv V) (skip_blocks : Bool) (text rest : Bytes) (htext : 0 ∉ text)
    (hfits : ∀ body ∈ comments none text, env.Fits body) :
    ∃ s, collapseGCode env skip_blocks (text ++ 0 :: rest) = some s ∧ s.line.length = (text ++ 0 :: rest).length ∧
      (skip_blocks = true → s.log = []) ∧
      (skip_blocks = false → bytes "MSG" ∉ comments none text → s.log = (comments none text).flatMap env.logged) ∧
      (semicolon_inside false text = false →
        c_str s.line = if skip_blocks = true ∧ (0x28 ∈ text ∨ 0x3b ∈ text) then [] else collapsed text) := by
  unfold collapseGCode
  have hturns : text.length ≤ (text ++ 0 :: rest).length := by
    rw [List.length_append]
    exact Nat.le_add_right _ _
  have hfront : ({ line := text ++ 0 :: rest } : Collapse).InFront [] [] none text rest :=
    { line := rfl
      outPtr := rfl
      between := .outside
      out_plain := List.not_mem_nil
      text_plain := htext
      body_plain := nofun }
  by_cases hskip : skip_blocks = true ∧ (0x28 ∈ text ∨ 0x3b ∈ text)
  · obtain ⟨rfl, hany⟩ := hskip
    obtain ⟨s, hloop, hstr, hlog, hlength⟩ : ∃ t, collapse_loop env true _ _ _ = some t ∧ _ :=
      collapse_loop_skip hturns hfront hany
    exact ⟨s, hloop, hlength, fun _ => hlog, nofun, fun _ => by rw [if_pos ⟨rfl, hany⟩, hstr]⟩
  · have hskip' : skip_blocks = true → 0x28 ∉ text ∧ 0x3b ∉ text := fun h => not_or.mp fun hany => hskip ⟨h, hany⟩
    obtain ⟨s, hloop, hstr, hlog, hlength⟩ := collapse_loop_eq hturns hskip' hfront hfits
    refine ⟨s, hloop, hlength, fun h => ?_, fun _ => hlog, fun hinside => ?_⟩
    · rw [comments_none_of_notMem (hskip' h).1] at hlog
      exact hlog List.not_mem_nil
    · rw [if_neg hskip, hstr]
      exact scanned_eq hinside

/-- Parameter five is 2.5, and the other ones are not there. -/
def parameter_five : CommentEnv Unit where
  read_number comment index := if comment.getD (index + 1) 0 = 0x35 then (some (), 1) else (none, 0)
  print format _ := if format = bytes "%.0f" then bytes "2" else bytes "2.500000"

theorem collapseGCode_fits_print :
    0 ∉ bytes "g1 x2 (print,at #5)" ∧
      (∀ body ∈ comments none (bytes "g1 x2 (print,at #5)"), parameter_five.Fits body) ∧
      ∃ s, collapseGCode parameter_five false (bytes "g1 x2 (print,at #5)" ++ [0]) = some s ∧
        s.log = [.print (bytes "at 2.500000")] ∧ c_str s.line = bytes "G1X2" := by
  have htext : 0 ∉ bytes "g1 x2 (print,at #5)" := by decide
  have hcomments : comments none (bytes "g1 x2 (print,at #5)") = [bytes "print,at #5"] := by decide
  have hfits : ∀ body ∈ comments none (bytes "g1 x2 (print,at #5)"), parameter_five.Fits body := by
    rw [hcomments]
    intro body hbody message hmessage
    rw [List.mem_singleton.mp hbody] at hmessage
    have : parameter_five.message (bytes "print,at #5") = some (bytes "at 2.500000") := by decide
    rw [this, Option.some.injEq] at hmessage
    rw [← hmessage]
    decide
  obtain ⟨s, hs, -, -, hlog, hline⟩ :=
    collapseGCode_fits parameter_five false (bytes "g1 x2 (print,at #5)") [] htext hfits
  refine ⟨htext, hfits, s, hs, ?_, ?_⟩
  · rw [hlog rfl (by decide), hcomments]
    decide
  · rw [hline (by decide)]
    decide

/-- The line is not only without its white space and comments: it is in upper case. -/
theorem collapsed_line_is_upper_case :
    ∃ s, collapseGCode parameter_five false (bytes "g1 x2" ++ [0]) = some s ∧ c_str s.line = bytes "G1X2" ∧
      c_str s.line ≠ (without_comments false (bytes "g1 x2")).filter fun c => !isspace c :=
  ⟨{ line := bytes "G1X2" ++ [0, 0], outPtr := 4 }, by decide, by decide, by decide⟩

end DuneWeaver
