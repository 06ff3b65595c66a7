import DuneWeaver.Lineedit.Completion

namespace DuneWeaver.Lineedit

/-- The line shows some text without a NUL. -/
def Line.Sound (maxaddr : Nat) (l : Line) : Prop := l.maxaddr = maxaddr ∧ ∃ t : Text, l.Shows t ∧ 0 ∉ t.text

/-- `theWord` ends with a NUL, whatever is in front of it. -/
def WordSound (theWord : Bytes) : Prop := theWord.length = 100 ∧ theWord[99]? = some 0

/-- What holds of an editor whatever keys it has had. -/
structure Editor.Sound (linelen : Nat) (e : Editor) : Prop where
  line : e.line.Sound linelen
  killbuf : e.killbuf.length = 100 ∧ 0 ∈ e.killbuf
  history : ∃ lines, e.history.Holds linelen lines
  theWord : WordSound e.theWord
  escaping : e.escaping < 256

section Sound

variable {linelen maxaddr : Nat} {l l' : Line} {e e' : Editor} {names : Names}

theorem Line.Sound.addchar (h : l.Sound maxaddr) {c : UInt8} (hc : c ≠ 0) (hrun : l.addchar c = some l') :
    l'.Sound maxaddr := by
  obtain ⟨hmax, t, hshows, hzero⟩ := h
  obtain ⟨next, hnext, hmax', hshows'⟩ := hshows.addchar c
  rw [hrun] at hnext
  rw [Option.some.inj hnext]
  refine ⟨hmax'.trans hmax, _, hshows', fun hmem => ?_⟩
  rcases Text.mem_insert hmem with h | h
  · exact hc h.symm
  · exact hzero h

theorem Line.Sound.addchars (h : l.Sound maxaddr) {s : Bytes} (hs : 0 ∉ s) (hrun : l.addchars s = some l') :
    l'.Sound maxaddr := by
  induction s generalizing l with
  | nil => exact Option.some.inj hrun ▸ h
  | cons c s ih =>
    rw [List.mem_cons, not_or] at hs
    obtain ⟨next, hnext, hrest⟩ := Option.bind_eq_some_iff.mp hrun
    exact ih (h.addchar (Ne.symm hs.1) hnext) hs.2 hrest

theorem Line.Sound.erase_while (h : l.Sound maxaddr) {q : UInt8 → Bool} {turns : Nat}
    (hrun : Line.erase_while q turns l = some l') : l'.Sound maxaddr := by
  induction turns generalizing l with
  | zero => exact Option.some.inj hrun ▸ h
  | succ turns ih =>
    rw [Line.erase_while] at hrun
    split_ifs at hrun with hinside
    · obtain ⟨c, -, hrun⟩ := Option.bind_eq_some_iff.mp hrun
      split_ifs at hrun
      · obtain ⟨next, hnext, hrest⟩ := Option.bind_eq_some_iff.mp hrun
        obtain ⟨hmax, t, hshows, hzero⟩ := h
        obtain ⟨other, hother, hmax', hshows'⟩ := hshows.erase_char
        rw [hnext] at hother
        rw [← Option.some.inj hother] at hmax' hshows'
        refine ih ⟨hmax'.trans hmax, _, hshows', fun hmem => hzero ?_⟩ hrest
        rcases List.mem_append.mp hmem with h | h
        · exact List.mem_append_left _ (List.dropLast_subset _ h)
        · exact List.mem_append_right _ h
      · exact Option.some.inj hrun ▸ h
    · exact Option.some.inj hrun ▸ h

theorem WordSound.store {theWord theWord' : Bytes} (h : WordSound theWord) {i : Nat} {c : UInt8} (hc : i < 99 ∨ c = 0)
    (hrun : store theWord i c = some theWord') : WordSound theWord' := by
  refine ⟨(store_length hrun).trans h.1, ?_⟩
  unfold DuneWeaver.store at hrun
  split_ifs at hrun with hinside
  rw [← Option.some.inj hrun, List.getElem?_set]
  split_ifs with hsame
  · rw [hc.resolve_left (by omega)]
  · exact h.2

theorem WordSound.c_str_length {theWord : Bytes} (h : WordSound theWord) : (c_str theWord).length ≤ 99 := by
  obtain ⟨first, later, hsplit, hfirst⟩ := List.eq_append_cons_of_mem (List.mem_of_getElem? h.2)
  have hlength := h.1
  rw [hsplit, List.length_append, List.length_cons] at hlength
  rw [hsplit, c_str_before_nul, c_str_eq_self hfirst]
  omega

theorem copy_before_sound {turns addr i : Nat} {theWord : Bytes} (h : WordSound theWord) {result : Nat × Bytes}
    (hrun : Editor.copy_before l turns addr i theWord = some result) : WordSound result.2 := by
  induction turns generalizing addr i theWord with
  | zero => exact Option.some.inj hrun ▸ h
  | succ turns ih =>
    rw [Editor.copy_before] at hrun
    split_ifs at hrun with hinside
    · obtain ⟨c, -, hrun⟩ := Option.bind_eq_some_iff.mp hrun
      obtain ⟨next, hnext, hrest⟩ := Option.bind_eq_some_iff.mp hrun
      exact ih (h.store (.inl hinside.2) hnext) hrest
    · exact Option.some.inj hrun ▸ h

theorem copy_behind_sound {turns i : Nat} {theWord : Bytes} (h : WordSound theWord) (hline : l.Sound maxaddr)
    {result : Nat × Bytes × Line} (hrun : Editor.copy_behind turns i theWord l = some result) :
    WordSound result.2.1 ∧ result.2.2.Sound maxaddr := by
  induction turns generalizing i theWord l with
  | zero => exact Option.some.inj hrun ▸ ⟨h, hline⟩
  | succ turns ih =>
    rw [Editor.copy_behind] at hrun
    split_ifs at hrun with hinside
    · obtain ⟨c, -, hrun⟩ := Option.bind_eq_some_iff.mp hrun
      split_ifs at hrun
      · obtain ⟨next, hnext, hrest⟩ := Option.bind_eq_some_iff.mp hrun
        obtain ⟨hmax, t, hshows, hzero⟩ := hline
        have hright := hshows.right.1
        rw [Line.forward_char, if_pos hinside.1] at hright
        have hsound : Line.Sound maxaddr { l with thisaddr := l.thisaddr + 1 } :=
          ⟨hmax, _, hright, by rwa [Text.right_text]⟩
        exact ih (h.store (.inl hinside.2) hnext) hsound hrest
      · exact Option.some.inj hrun ▸ ⟨h, hline⟩
    · exact Option.some.inj hrun ▸ ⟨h, hline⟩

theorem Editor.Sound.find_word (h : e.Sound linelen) {found : Bool}
    (hrun : e.find_word_under_cursor = some (found, e')) : e'.Sound linelen := by
  unfold Editor.find_word_under_cursor at hrun
  split_ifs at hrun with hline
  · obtain ⟨-, rfl⟩ := Prod.mk.inj (Option.some.inj hrun)
    exact h
  · obtain ⟨⟨i, theWord⟩, hbefore, hrun⟩ := Option.bind_eq_some_iff.mp hrun
    obtain ⟨⟨i', theWord', line⟩, hbehind, hrun⟩ := Option.bind_eq_some_iff.mp hrun
    obtain ⟨theWord'', hstore, heq⟩ := Option.map_eq_some_iff.mp hrun
    obtain ⟨hword, hline⟩ := copy_behind_sound (copy_before_sound h.theWord hbefore) h.line hbehind
    obtain ⟨-, rfl⟩ := Prod.mk.inj heq
    exact ⟨hline, h.killbuf, h.history, hword.store (.inr rfl) hstore, h.escaping⟩

theorem grow_sound {name : Bytes} {k turns len : Nat} {theWord : Bytes} (h : WordSound theWord)
    (hline : l.Sound maxaddr) (hname : 0 ∉ name) (hshort : len + turns ≤ 99) {result : Nat × Bytes × Line}
    (hrun : Editor.grow names name k turns len theWord l = some result) :
    WordSound result.2.1 ∧ result.2.2.Sound maxaddr := by
  induction turns generalizing len theWord l with
  | zero => exact Option.some.inj hrun ▸ ⟨h, hline⟩
  | succ turns ih =>
    rw [Editor.grow] at hrun
    obtain ⟨c, hread, hrun⟩ := Option.bind_eq_some_iff.mp hrun
    obtain ⟨next, hnext, hrun⟩ := Option.bind_eq_some_iff.mp hrun
    obtain ⟨found, -, hrun⟩ := Option.bind_eq_some_iff.mp hrun
    have hword := h.store (.inl (by omega)) hnext
    split_ifs at hrun
    · exact Option.some.inj hrun ▸ ⟨hword, hline⟩
    · obtain ⟨line, hadd, hrest⟩ := Option.bind_eq_some_iff.mp hrun
      have hc : c ≠ 0 := by
        rintro rfl
        exact hname (List.mem_of_getElem? hread)
      exact ih hword (hline.addchar hc hadd) (by omega) hrest

/-- What is copied is a candidate, or nothing. -/
theorem copied_sound {key : Bytes} {keylen i : Nat} {found : List Bytes} {name : Bytes}
    (hfound : num_initial_matches names key keylen = some found) (hrun : copied found i = some name) :
    0 ∉ name ∧ name.length < 100 := by
  have hstrings : ∀ candidate ∈ found, 0 ∉ candidate := by
    intro candidate hcandidate
    unfold num_initial_matches at hfound
    split_ifs at hfound
    · rw [← Option.some.inj hfound] at hcandidate
      exact candidates_strings hcandidate
    · rw [← Option.some.inj hfound] at hcandidate
      exact candidates_strings hcandidate
  unfold copied at hrun
  split at hrun
  · rename_i other hother
    split_ifs at hrun with hshort
    rw [← Option.some.inj hrun]
    exact ⟨hstrings other (List.mem_of_getElem? hother), hshort⟩
  · rw [← Option.some.inj hrun]
    exact ⟨List.not_mem_nil, by decide⟩

theorem Editor.Sound.complete_word (h : e.Sound linelen) (hrun : e.complete_word names = some e') :
    e'.Sound linelen := by
  obtain ⟨⟨found, e⟩, hfind, hrun⟩ := Option.bind_eq_some_iff.mp hrun
  replace h := h.find_word hfind
  dsimp only at hrun
  split_ifs at hrun
  · exact Option.some.inj hrun ▸ h
  · obtain ⟨candidates, hcandidates, hrun⟩ := Option.bind_eq_some_iff.mp hrun
    obtain ⟨name, hname, hrun⟩ := Option.bind_eq_some_iff.mp hrun
    obtain ⟨hzero, hshort⟩ := copied_sound hcandidates hname
    have hdrop : ∀ n, 0 ∉ name.drop n := fun n hmem => hzero (List.mem_of_mem_drop hmem)
    split_ifs at hrun
    · rw [← Option.some.inj hrun]
      exact ⟨h.line, h.killbuf, h.history, h.theWord, h.escaping⟩
    · obtain ⟨line, hadd, hrun⟩ := Option.map_eq_some_iff.mp hrun
      rw [← hrun]
      exact ⟨h.line.addchars (hdrop _) hadd, h.killbuf, h.history, h.theWord, h.escaping⟩
    · obtain ⟨⟨len, theWord, line⟩, hgrow, hrun⟩ := Option.bind_eq_some_iff.mp hrun
      obtain ⟨theWord', hstore, hrun⟩ := Option.bind_eq_some_iff.mp hrun
      obtain ⟨line', hadd, hrun⟩ := Option.map_eq_some_iff.mp hrun
      have hlen : (c_str e.theWord).length + (name.length - (c_str e.theWord).length) ≤ 99 := by
        have hword := h.theWord.c_str_length
        omega
      obtain ⟨hword, hline⟩ := grow_sound h.theWord h.line hzero hlen hgrow
      rw [← hrun]
      exact ⟨hline.addchars (hdrop _) hadd, h.killbuf, h.history, hword.store (.inr rfl) hstore, h.escaping⟩

theorem Editor.Sound.propose_word (h : e.Sound linelen) (hrun : e.propose_word names = some e') : e'.Sound linelen := by
  obtain ⟨found, hfound, hrun⟩ := Option.bind_eq_some_iff.mp hrun
  obtain ⟨name, hname, hrun⟩ := Option.bind_eq_some_iff.mp hrun
  obtain ⟨blank, hblank, hrun⟩ := Option.bind_eq_some_iff.mp hrun
  obtain ⟨line, hadd, hrun⟩ := Option.map_eq_some_iff.mp hrun
  have hzero := (copied_sound hfound hname).1
  rw [← hrun]
  exact ⟨(h.line.erase_while hblank).addchars (fun hmem => hzero (List.mem_of_mem_drop hmem)) hadd, h.killbuf,
    h.history, h.theWord, h.escaping⟩

/-- A command does not look at the completion. -/
theorem perform_frame (e : Editor) {cmd : Command} (hcmd : cmd ≠ .escape) (theWord : Bytes) (nmatches : Nat)
    (escaping : Int) :
    Editor.perform cmd { e with theWord, nmatches, escaping } =
      (e.perform cmd).map fun p => (p.1, { p.2 with theWord, nmatches, escaping }) := by
  have hline : ∀ line : Option Line, Editor.onLine { e with theWord, nmatches, escaping } line =
      (e.onLine line).map fun p => (p.1, { p.2 with theWord, nmatches, escaping }) := by
    intro line
    cases line <;> rfl
  have hrecall : ∀ way, Editor.recallLine way { e with theWord, nmatches, escaping } =
      (e.recallLine way).map fun p => (p.1, { p.2 with theWord, nmatches, escaping }) := by
    intro way
    unfold Editor.recallLine
    cases e.history.get_history (e.history_num + way) e.line <;> rfl
  cases cmd with
  | escape => exact absurd rfl hcmd
  | finish => rfl
  | eraseLeft =>
    unfold Editor.perform
    dsimp only
    rw [hline]
    split_ifs <;> rfl
  | eraseRight =>
    unfold Editor.perform
    dsimp only
    rw [hline]
    split_ifs <;> rfl
  | kill =>
    unfold Editor.perform
    dsimp only
    cases e.line.kill_forward e.killbuf <;> rfl
  | older => exact hrecall 1
  | newer => exact hrecall (-1)
  | _ => exact hline _

/-- Only a complete line ends it. -/
theorem perform_goes_on {cmd : Command} (hcmd : cmd ≠ .finish) {complete : Bool}
    (hrun : e.perform cmd = some (complete, e')) : complete = false := by
  have hline : ∀ line : Option Line, e.onLine line = some (complete, e') → complete = false := by
    intro line hline
    obtain ⟨l', -, heq⟩ := Option.map_eq_some_iff.mp hline
    exact (congrArg Prod.fst heq).symm
  cases cmd with
  | escape => exact (congrArg Prod.fst (Option.some.inj hrun)).symm
  | finish => exact absurd rfl hcmd
  | eraseLeft =>
    unfold Editor.perform at hrun
    dsimp only at hrun
    split_ifs at hrun
    · exact hline _ hrun
    · exact (congrArg Prod.fst (Option.some.inj hrun)).symm
  | eraseRight =>
    unfold Editor.perform at hrun
    dsimp only at hrun
    split_ifs at hrun
    · exact hline _ hrun
    · exact (congrArg Prod.fst (Option.some.inj hrun)).symm
  | kill =>
    obtain ⟨_, -, heq⟩ := Option.map_eq_some_iff.mp hrun
    exact (congrArg Prod.fst heq).symm
  | older =>
    obtain ⟨_, -, heq⟩ := Option.map_eq_some_iff.mp hrun
    exact (congrArg Prod.fst heq).symm
  | newer =>
    obtain ⟨_, -, heq⟩ := Option.map_eq_some_iff.mp hrun
    exact (congrArg Prod.fst heq).symm
  | _ => exact hline _ hrun

/-- The text of a sound editor and its lines are those of a reference. -/
theorem Editor.Sound.follows (h : e.Sound linelen) :
    ∃ r : Reference, Follows linelen { e with theWord := e.theWord, nmatches := 0, escaping := 0 } r := by
  obtain ⟨hmax, t, hshows, hzero⟩ := h.line
  obtain ⟨lines, hlines⟩ := h.history
  exact ⟨⟨t, c_str e.killbuf, lines, e.history_num, .none, e.editing⟩, hshows, hmax, hzero, rfl, h.killbuf, hlines, rfl,
    rfl, rfl, rfl⟩

theorem Editor.Sound.recallLine (h : e.Sound linelen) {way : Int} {complete : Bool}
    (hrun : e.recallLine way = some (complete, e')) : e'.Sound linelen := by
  obtain ⟨hmax, t, hshows, hzero⟩ := h.line
  obtain ⟨lines, hlines⟩ := h.history
  have hvalid := hlines.validate
  have hget := hlines.get_history hshows (e.history_num + way)
  unfold Editor.recallLine at hrun
  cases hentry : History.entry (valid lines) (e.history_num + way) with
  | none =>
    rw [hentry] at hget
    dsimp only at hget
    rw [hget] at hrun
    obtain ⟨-, rfl⟩ := Prod.mk.inj (Option.some.inj hrun)
    exact ⟨⟨hmax, t, hshows, hzero⟩, h.killbuf, ⟨_, hvalid⟩, h.theWord, h.escaping⟩
  | some line =>
    rw [hentry] at hget
    obtain ⟨l', hget, hmax', hshows'⟩ := hget
    rw [hget] at hrun
    obtain ⟨-, rfl⟩ := Prod.mk.inj (Option.some.inj hrun)
    refine ⟨⟨hmax'.trans hmax, _, hshows', ?_⟩, h.killbuf, ⟨_, hvalid⟩, h.theWord, h.escaping⟩
    unfold History.entry at hentry
    split_ifs at hentry
    obtain ⟨other, hother, hcut⟩ := mem_stored (List.mem_of_getElem? hentry)
    rw [Text.text, List.append_nil]
    exact fun hmem => hvalid.zero other hother (hcut.subset (List.mem_of_mem_take hmem))

theorem Editor.Sound.perform (h : e.Sound linelen) {cmd : Command} (hinsert : cmd ≠ .insert 0) {complete : Bool}
    (hrun : e.perform cmd = some (complete, e')) : e'.Sound linelen := by
  obtain ⟨r, hfollows⟩ := h.follows
  -- What the reference allows keeps the editor at its reference.
  have hallowed : cmd ≠ .escape → cmd ≠ .finish → r.Allows linelen cmd → e'.Sound linelen := by
    intro hescape hfinish hallows
    have hsame := perform_frame e hescape e.theWord e.nmatches e.escaping
    have hframe := perform_frame e hescape e.theWord 0 0
    rw [hrun, Option.map_some] at hsame hframe
    have hkept : e' = { e' with theWord := e.theWord, nmatches := e.nmatches, escaping := e.escaping } :=
      congrArg Prod.snd (Option.some.inj hsame)
    obtain ⟨e'', hsettles, hnext⟩ := hfollows.perform hallows hinsert
    rw [hframe, perform_goes_on hfinish hrun] at hsettles
    obtain rfl := Option.some.inj hsettles
    refine ⟨⟨hnext.maxaddr, _, hnext.line, hnext.text⟩, hnext.killbuf, ⟨_, hnext.history⟩, ?_, ?_⟩
    · rw [hkept]
      exact h.theWord
    · rw [hkept]
      exact h.escaping
  cases cmd with
  | escape =>
    obtain ⟨-, rfl⟩ := Prod.mk.inj (Option.some.inj hrun)
    exact ⟨h.line, h.killbuf, h.history, h.theWord, (by decide : (1 : Int) < 256)⟩
  | finish =>
    obtain ⟨-, rfl⟩ := Prod.mk.inj (Option.some.inj hrun)
    exact h
  | kill =>
    by_cases hroom : r.text.behind.length < 100
    · exact hallowed (by decide) (by decide) hroom
    · have hover : e.line.kill_forward e.killbuf = none := by
        rw [Line.kill_forward, hfollows.line.behind_length]
        exact hfollows.line.kill_loop_overflow (by rw [h.killbuf.1, Nat.zero_add]; exact Nat.le_of_not_lt hroom)
      rw [Editor.perform, hover] at hrun
      exact absurd hrun (Option.some_ne_none _).symm
  | older => exact h.recallLine hrun
  | newer => exact h.recallLine hrun
  | _ => exact hallowed (by rintro ⟨⟩) (by rintro ⟨⟩) trivial

theorem Editor.Sound.finish (h : e.Sound linelen) (hrun : e.finish = some e') : e'.Sound linelen := by
  obtain ⟨r, hfollows⟩ := h.follows
  obtain ⟨e'', hfinish, hnext⟩ := hfollows.finish
  have hframe : Editor.finish { e with theWord := e.theWord, nmatches := 0, escaping := 0 } =
      e.finish.map fun e => { e with nmatches := 0 } := by
    unfold Editor.finish
    dsimp only
    cases e.history.add_to_history e.line.line e.line.endaddr with
    | none => rfl
    | some history =>
      rw [Option.bind_some, Option.bind_some]
      cases DuneWeaver.store e.line.line e.line.endaddr 0 <;> rfl
  have hkept : e'.theWord = e.theWord ∧ e'.escaping = 0 := by
    obtain ⟨history, -, hrun⟩ := Option.bind_eq_some_iff.mp hrun
    obtain ⟨line, -, rfl⟩ := Option.map_eq_some_iff.mp hrun
    exact ⟨rfl, rfl⟩
  rw [hframe, hrun, Option.map_some] at hfinish
  obtain rfl := Option.some.inj hfinish
  refine ⟨⟨hnext.maxaddr, _, hnext.line, hnext.text⟩, hnext.killbuf, ⟨_, hnext.history⟩, ?_, ?_⟩
  · rw [hkept.1]
    exact h.theWord
  · rw [hkept.2]
    decide

/-- What is done with a key keeps the editor sound. -/
theorem Editor.Sound.command (h : e.Sound linelen) {c : Int} (hc : c < 256) {complete : Bool}
    (hrun : e.command names c = some (complete, e')) : e'.Sound linelen := by
  have hkeys : ∀ e : Editor, e.Sound linelen → e.keys c = some (complete, e') → e'.Sound linelen := by
    intro e h hrun
    unfold Editor.keys at hrun
    cases hlabel : label c with
    | none =>
      rw [hlabel] at hrun
      obtain ⟨-, rfl⟩ := Prod.mk.inj (Option.some.inj hrun)
      exact h
    | some cmd =>
      rw [hlabel] at hrun
      exact h.perform (fun hinsert => label_ne hc (hinsert ▸ hlabel)) hrun
  unfold Editor.command at hrun
  split_ifs at hrun
  · obtain ⟨next, hnext, heq⟩ := Option.map_eq_some_iff.mp hrun
    obtain ⟨-, rfl⟩ := Prod.mk.inj heq
    exact h.propose_word hnext
  · obtain ⟨next, hnext, heq⟩ := Option.map_eq_some_iff.mp hrun
    obtain ⟨-, rfl⟩ := Prod.mk.inj heq
    exact h.complete_word hnext
  · obtain ⟨next, hnext, hrun⟩ := Option.bind_eq_some_iff.mp hrun
    unfold Editor.accept_word at hnext
    split_ifs at hnext
    obtain rfl := Option.some.inj hnext
    exact hkeys { e with nmatches := 0 } ⟨h.line, h.killbuf, h.history, h.theWord, h.escaping⟩ hrun
  · exact hkeys e h hrun

theorem Editor.Sound.escapes (h : e.Sound linelen) {c : Int} (hc : c < 256) {complete : Bool}
    (hrun : e.escapes names c = some (complete, e')) : e'.Sound linelen := by
  have hset : ∀ escaping : Int, escaping < 256 → Editor.Sound linelen { e with escaping } :=
    fun escaping hescaping => ⟨h.line, h.killbuf, h.history, h.theWord, hescaping⟩
  -- What is only read for an escape sequence.
  have hread : ∀ escaping : Int, escaping < 256 → some (false, { e with escaping }) = some (complete, e') →
      e'.Sound linelen := by
    intro escaping hescaping heq
    obtain ⟨-, rfl⟩ := Prod.mk.inj (Option.some.inj heq)
    exact hset escaping hescaping
  have htranslate : translate c < 256 := by
    unfold translate
    split_ifs
    all_goals first
      | decide
      | exact hc
  unfold Editor.escapes at hrun
  dsimp only at hrun
  by_cases hescape : e.escaping = 1
  · rw [if_pos hescape] at hrun
    generalize (if 0x41 ≤ c ∧ c ≤ 0x5a then c + 0x20 else c) = d at hrun
    split_ifs at hrun
    · exact hread 2 (by decide) hrun
    · exact (hset 0 (by decide)).perform (by decide) hrun
    · exact (hset 0 (by decide)).perform (by decide) hrun
    · exact hread 0 (by decide) hrun
  · rw [if_neg hescape] at hrun
    split_ifs at hrun
    · exact hread SPECIAL_HOME (by decide) hrun
    · exact hread SPECIAL_END (by decide) hrun
    · exact hread SPECIAL_DELETE (by decide) hrun
    · exact (hset 0 (by decide)).command htranslate hrun
    · exact (hset 0 (by decide)).command h.escaping hrun
    · exact hread 0 (by decide) hrun
    · exact h.command hc hrun

/-- Every key keeps the editor sound, if it stays in its buffers at all. -/
theorem Editor.Sound.lineComplete (h : e.Sound linelen) {c : Int} (hc : c < 256)
    (hrun : e.lineComplete names c = some e') : e'.Sound linelen := by
  obtain ⟨⟨complete, next⟩, hstep, hrun⟩ := Option.bind_eq_some_iff.mp hrun
  have hedits : ∀ editing, Editor.Sound linelen { e with editing } :=
    fun editing => ⟨h.line, h.killbuf, h.history, h.theWord, h.escaping⟩
  have hnext : next.Sound linelen := by
    unfold Editor.step at hstep
    split_ifs at hstep with hlock hediting hlow hreturn
    · obtain ⟨-, rfl⟩ := Prod.mk.inj (Option.some.inj hstep)
      exact hedits false
    · obtain ⟨-, rfl⟩ := Prod.mk.inj (Option.some.inj hstep)
      exact h
    · exact (hedits true).escapes hc hstep
    · exact h.perform (fun hinsert => char_ne_zero (Int.not_lt.mp hlow) hc (Command.insert.inj hinsert)) hstep
    · exact h.escapes hc hstep
  dsimp only at hrun
  split_ifs at hrun
  · exact hnext.finish hrun
  · exact Option.some.inj hrun ▸ hnext

/-- The editor when it starts. -/
theorem sound_start (linelen : Nat) : (Editor.start linelen).Sound linelen where
  line := ⟨rfl, ⟨[], []⟩, (follows_start linelen).line, List.not_mem_nil⟩
  killbuf := (follows_start linelen).killbuf
  history := ⟨[], History.holds_nil linelen⟩
  theWord := ⟨List.length_replicate, rfl⟩
  escaping := (by decide : (0 : Int) < 256)

end Sound

/-- A key, as long as the editor has stayed in its buffers. -/
def typed (names : Names) (e : Option Editor) (c : Int) : Option Editor := e.bind (Editor.lineComplete names c)

/-- Any key but Tab does what it does to an editor that shows no candidate, and one key only ends the editing. -/
def Editor.Accepts (names : Names) (e : Editor) : Prop :=
  e.lineComplete names 12 = some { e with editing := false } ∧
    ∀ c, c ≠ 9 → c ≠ 12 → e.lineComplete names c = Editor.lineComplete names c { e with nmatches := 0 }

/-- What Tab is meant to do behind a word: nothing to the text without a candidate, put in the rest of the only one,
or make `theWord` as long as it can be, show the first one behind it and with every further Tab the next one. -/
def Completes (names : Names) (word after : Bytes) (e : Editor) : Prop :=
  match candidates names word with
  | [] => ∃ e', e.lineComplete names 9 = some e' ∧ ∃ t : Text, e'.line.Shows t ∧ t.text = 0x24 :: (word ++ after)
  | [name] => ∃ e', e.lineComplete names 9 = some e' ∧ e'.line.Shows ⟨0x24 :: (word ++ name.drop word.length), after⟩
  | first :: others =>
    let longest := word ++ (first.drop word.length).take (extension names word (first.drop word.length))
    ∀ i, ∃ e' name, Transition.run (typed names) (some e) (List.replicate (i + 1) 9) = some e' ∧
      (first :: others)[i % (first :: others).length]? = some name ∧ c_str e'.theWord = longest ∧
      e'.line.Shows ⟨0x24 :: (longest ++ name.drop longest.length), after⟩ ∧ e'.Accepts names

section Tab

variable {names : Names} {linelen : Nat} {e e' : Editor} {word after : Bytes} {found : List Bytes} {i : Nat}

/-- Whatever is typed, the editor is sound. -/
theorem sound_of_run {keys : List Int} (hkeys : ∀ c ∈ keys, c < 256)
    (hrun : Transition.run (typed names) (some (Editor.start linelen)) keys = some e) : e.Sound linelen := by
  have hstep : ∀ (s : Option Editor) (c : Int), (∀ e ∈ s, e.Sound linelen) → c < 256 →
      ∀ e ∈ typed names s c, e.Sound linelen := by
    intro s c hs hc e he
    obtain ⟨before, hbefore, hkey⟩ := Option.bind_eq_some_iff.mp he
    exact (hs before hbefore).lineComplete hc hkey
  have hstart : ∀ e ∈ some (Editor.start linelen), e.Sound linelen := by
    rintro e he
    rw [← Option.some.inj he]
    exact sound_start linelen
  have halways := Transition.always_of_invariant (Q := fun _ c => c < 256) hstep hstart
    (Transition.throughout_of_mem hkeys (some (Editor.start linelen)))
  exact halways.last e hrun

theorem lineComplete_tab (hescaping : e.escaping = 0 ∨ e.escaping = 2) :
    e.lineComplete names 9 =
      if e.nmatches ≠ 0 then Editor.propose_word names { e with editing := true, escaping := 0 }
      else Editor.complete_word names { e with editing := true, escaping := 0 } := by
  have hcommand : ∀ e : Editor, ((e.command names 9).bind fun r => if r.1 then r.2.finish else some r.2) =
      if e.nmatches ≠ 0 then e.propose_word names else e.complete_word names := by
    intro e
    rw [Editor.command, if_pos rfl, Option.bind_map]
    exact Option.bind_fun_some _
  have hescapes : ∀ e : Editor, (e.escaping = 0 ∨ e.escaping = 2) →
      e.escapes names 9 = Editor.command names 9 { e with escaping := 0 } := by
    rintro e (hnone | hbracket)
    · have hsame : { e with escaping := 0 } = e := by rw [← hnone]
      rw [Editor.escapes, if_neg (by rw [hnone]; decide), if_neg (by rw [hnone]; decide),
        if_neg (not_not_intro hnone), hsame]
    · rw [Editor.escapes, if_neg (by rw [hbracket]; decide), if_pos hbracket, if_neg (by decide), if_neg (by decide),
        if_neg (by decide)]
      rfl
  have hstep : e.step names 9 = Editor.command names 9 { e with editing := true, escaping := 0 } := by
    rw [Editor.step, if_neg (by decide)]
    by_cases hediting : e.editing = false
    · rw [if_pos hediting, if_pos (by decide), if_neg (by decide)]
      exact hescapes { e with editing := true } hescaping
    · rw [Bool.not_eq_false] at hediting
      have hsame : { e with editing := true, escaping := 0 } = { e with escaping := 0 } := by rw [← hediting]
      rw [if_neg (by rw [hediting]; decide), hescapes e hescaping, hsame]
  change ((e.step names 9).bind fun r => if r.1 then r.2.finish else some r.2) = _
  rw [hstep, hcommand]

/-- Every further Tab shows the next candidate, and after the last one the first. -/
theorem Offers.tabs {word after : Bytes} {found : List Bytes} (h : Offers word after found 0 e)
    (hescaping : e.escaping = 0) (hediting : e.editing = true) (hmany : 1 < found.length)
    (hfound : candidates names word = found) (hshort : word.length < 100) (hzero : 0 ∉ word)
    (hnames : ∀ name ∈ found, name.length < 100 ∧ word.length ≤ name.length ∧
      1 + name.length + after.length ≤ e.line.maxaddr) (i : Nat) :
    ∃ e', Transition.run (typed names) (some e) (List.replicate i 9) = some e' ∧
      Offers word after found (i % found.length) e' ∧ e'.line.maxaddr = e.line.maxaddr ∧ e'.escaping = 0 ∧
      e'.editing = true := by
  induction i with
  | zero =>
    rw [Nat.zero_mod]
    exact ⟨e, rfl, h, rfl, hescaping, hediting⟩
  | succ i ih =>
    obtain ⟨e', hrun, hoffers, hmax, hescaping', hediting'⟩ := ih
    have hsame : { e' with editing := true, escaping := 0 } = e' := by rw [← hediting', ← hescaping']
    obtain ⟨next, hnext, hoffers', hmax', hediting'', hescaping''⟩ := hoffers.propose_word hfound hshort hzero
      (by rw [hmax]; exact hnames)
    have htab : e'.lineComplete names 9 = some next := by
      rw [lineComplete_tab (.inl hescaping'), hsame, if_pos (by rw [hoffers.nmatches]; omega), hnext]
    have hcycle : (if i % found.length + 1 = found.length then 0 else i % found.length + 1) =
        (i + 1) % found.length := by
      have hinside := Nat.mod_lt i (by omega : 0 < found.length)
      split_ifs with hlast
      · rw [Nat.add_mod, Nat.mod_eq_of_lt hmany, hlast, Nat.mod_self]
      · rw [Nat.add_mod, Nat.mod_eq_of_lt hmany, Nat.mod_eq_of_lt (show i % found.length + 1 < found.length by omega)]
    rw [hcycle] at hoffers'
    refine ⟨next, ?_, hoffers', hmax'.trans hmax, hescaping''.trans hescaping', hediting''.trans hediting'⟩
    rw [List.replicate_succ', Transition.run_append, hrun]
    exact htab

/-- A key behind a candidate leaves it where it is. -/
theorem Offers.accepts {word after : Bytes} {found : List Bytes} {i : Nat} (h : Offers word after found i e)
    (hescaping : e.escaping = 0) (hediting : e.editing = true) (hfound : found ≠ []) (hzero : 0 ∉ word) :
    e.Accepts names := by
  obtain ⟨name, hname, hmatchlen, hshows⟩ := h.shown
  obtain ⟨later, hlater⟩ := h.theWord
  have hnmatches : e.nmatches ≠ 0 := by
    rw [h.nmatches]
    exact mt List.length_eq_zero_iff.mp hfound
  have haccept : e.accept_word = some e := by
    have hlen : (c_str e.theWord).length = word.length := by
      rw [hlater, c_str_before_nul, c_str_eq_self hzero]
    have hthis := hshows.before_length
    rw [List.length_cons, List.length_append, List.length_drop] at hthis
    rw [Editor.accept_word, hlen, hmatchlen, if_pos (by omega)]
  refine ⟨rfl, fun c htab hlock => ?_⟩
  have hstep : ∀ e : Editor, e.editing = true → e.escaping = 0 → e.step names c = e.command names c := by
    intro e hediting hescaping
    rw [Editor.step, if_neg hlock, if_neg (by rw [hediting]; decide), Editor.escapes,
      if_neg (by rw [hescaping]; decide), if_neg (by rw [hescaping]; decide), if_neg (not_not_intro hescaping)]
  rw [Editor.lineComplete, Editor.lineComplete, hstep e hediting hescaping,
    hstep { e with nmatches := 0 } hediting hescaping, Editor.command, if_neg htab, if_pos hnmatches, haccept,
    Option.bind_some, Editor.command, if_neg htab,
    if_neg (not_not_intro rfl)]

end Tab

/-- Whatever keys the editor has had, a Tab behind a word completes it, if no candidate is shown or left over from an
earlier word and the word can grow steadily. -/
theorem complete_word_completes (names : Names) (hnames : names.Short) {linelen : Nat} {keys : List Int}
    (hkeys : ∀ c ∈ keys, c < 256) {e : Editor}
    (hrun : Transition.run (typed names) (some (Editor.start linelen)) keys = some e) {front behind after : Bytes}
    (hline : e.line.Shows ⟨0x24 :: front, behind ++ after⟩) (hname : 0x3d ∉ behind)
    (hafter : after = [] ∨ after.head? = some 0x3d)
    (hroom : ∀ name ∈ candidates names (front ++ behind), 1 + name.length + after.length ≤ linelen)
    (hescaping : e.escaping = 0 ∨ e.escaping = 2) (hfresh : e.nmatches = 0)
    (hsteady : ∀ first second others, candidates names (front ++ behind) = first :: second :: others →
      Steady names e.theWord (front ++ behind) (first.drop (front ++ behind).length)) :
    Completes names (front ++ behind) after e := by
  have hsound := sound_of_run hkeys hrun
  obtain ⟨hmax, t, hshows, hnul⟩ := hsound.line
  rw [hshows.unique hline, Text.text, List.cons_append, ← List.append_assoc, List.mem_cons, List.mem_append,
    not_or, not_or] at hnul
  have hzero := hnul.2.1
  obtain ⟨hword, hlast⟩ := hsound.theWord
  obtain ⟨fresh, hfresh'⟩ : ∃ fresh : Editor, fresh = { e with editing := true, escaping := 0 } := ⟨_, rfl⟩
  have htab : e.lineComplete names 9 = fresh.complete_word names := by
    rw [lineComplete_tab hescaping, if_neg (not_not_intro hfresh), hfresh']
  have hline' : fresh.line.Shows ⟨0x24 :: front, behind ++ after⟩ := by rwa [hfresh']
  have hword' : fresh.theWord.length = 100 := by rwa [hfresh']
  obtain ⟨word, hfront⟩ : ∃ word, front ++ behind = word := ⟨_, rfl⟩
  rw [hfront] at hroom hsteady hzero ⊢
  have hmax' : fresh.line.maxaddr = linelen := by rw [hfresh', ← hmax]
  rw [← hmax'] at hroom
  by_cases hshort : word.length < 100
  · unfold Completes
    split
    · rename_i hfound
      obtain ⟨e', hcomplete, hlast⟩ := complete_word_none hline' hname hafter hzero hword' hfront hshort hfound
      exact ⟨e', htab.trans hcomplete, _, hlast, rfl⟩
    · rename_i name hfound
      have hmem : name ∈ candidates names word := by rw [hfound]; exact List.mem_singleton_self name
      obtain ⟨e', hcomplete, hlast⟩ := complete_word_one hline' hname hafter hzero hword' hfront hshort hfound
        (hnames word name hmem) (hroom name hmem)
      exact ⟨e', htab.trans hcomplete, hlast⟩
    · rename_i first others hone hfound
      obtain ⟨second, others, rfl⟩ : ∃ second rest, others = second :: rest := by
        cases others with
        | nil => exact absurd rfl hone
        | cons second rest => exact ⟨second, rest, rfl⟩
      have hgrows := hsteady first second others hfound
      have hfirst : (candidates names word)[0]? = some first := by rw [hfound]; rfl
      have hmany : 1 < (candidates names word).length := by
        rw [hfound, List.length_cons, List.length_cons]
        omega
      have hmem := List.mem_of_getElem? hfirst
      obtain ⟨next, hcomplete, hmaxn, hediting, hescaping', hoffers⟩ := complete_word_many hline' hname hafter hzero
        hword' hfront hshort (by rwa [hfresh']) hfirst hmany ⟨candidates_strings hmem, hnames word first hmem⟩
        (hroom first hmem) (by rwa [hfresh'])
      rw [hfresh'] at hediting hescaping'
      have hsame := hgrows.candidates_eq
      dsimp only
      obtain ⟨longest, hlongest⟩ : ∃ longest, word ++ (first.drop word.length).take
          (extension names word (first.drop word.length)) = longest := ⟨_, rfl⟩
      rw [hlongest] at hoffers hsame ⊢
      have hshorter : ∀ name ∈ candidates names word, longest.length ≤ name.length := by
        intro name hname
        rw [← hsame] at hname
        exact candidates_length hname
      have hfits := hnames word first hmem
      have hlonger := hshorter first hmem
      have hstring : 0 ∉ longest := by
        rw [← hlongest, List.mem_append, not_or]
        exact ⟨hzero, fun h => candidates_strings hmem (List.mem_of_mem_drop (List.mem_of_mem_take h))⟩
      intro i
      obtain ⟨e', hruns, hoffers', -, hescaping'', hediting'⟩ := hoffers.tabs hescaping' hediting hmany hsame
        (by omega) hstring (fun name hname =>
          ⟨hnames word name hname, hshorter name hname, by rw [hmaxn]; exact hroom name hname⟩) i
      obtain ⟨name, hshown, -, hlast⟩ := hoffers'.shown
      obtain ⟨later, hlater⟩ := hoffers'.theWord
      refine ⟨e', name, ?_, by rwa [← hfound], by rw [hlater, c_str_before_nul, c_str_eq_self hstring], hlast,
        hoffers'.accepts hescaping'' hediting' (List.ne_nil_of_mem hmem) hstring⟩
      rw [List.replicate_succ, Transition.run_cons, typed, Option.bind_some, htab, hcomplete, hruns]
  · have hnone : candidates names word = [] := by
      refine List.eq_nil_iff_forall_not_mem.mpr fun name hmem => ?_
      have hlong := candidates_length hmem
      have hfits := hnames word name hmem
      omega
    obtain ⟨e', hcomplete, t', hshows', htext⟩ := complete_word_long hnames hline' hname hafter (by rwa [hfront]) hword'
      (by rw [hfront]; omega)
    unfold Completes
    rw [hnone]
    exact ⟨e', htab.trans hcomplete, t', hshows', by rw [htext, hfront]⟩

/-- Two settings whose names begin alike. -/
def alike : Names where
  settings := [[0x61, 0x62, 0x63, 0x31], [0x61, 0x62, 0x63, 0x32]]
  config := .done
  strings := ⟨by decide, trivial⟩

theorem alike_short : alike.Short := by
  intro word name hmem
  unfold candidates at hmem
  split_ifs at hmem
  · exact absurd hmem List.not_mem_nil
  · have hall : ∀ name ∈ alike.settings, name.length < 100 := by decide
    exact hall name (List.mem_filter.mp hmem).1

/-- Their names are completed behind an `a`. -/
theorem complete_word_completes_alike :
    ∃ e, Transition.run (typed alike) (some (Editor.start 10)) [0x24, 0x61] = some e ∧ Completes alike [0x61] [] e := by
  obtain ⟨e, hrun⟩ : ∃ e, Transition.run (typed alike) (some (Editor.start 10)) [0x24, 0x61] = some e :=
    Option.isSome_iff_exists.mp (by decide)
  have hstate : (Transition.run (typed alike) (some (Editor.start 10)) [0x24, 0x61]).map
      (fun e => (e.line, e.escaping, e.nmatches, e.theWord)) =
        some (⟨0x24 :: 0x61 :: List.replicate 9 0, 2, 2, 10⟩, 0, 0, List.replicate 100 0) := rfl
  rw [hrun, Option.map_some] at hstate
  obtain ⟨hline, hstate⟩ := Prod.mk.inj (Option.some.inj hstate)
  obtain ⟨hescaping, hstate⟩ := Prod.mk.inj hstate
  obtain ⟨hfresh, hword⟩ := Prod.mk.inj hstate
  refine ⟨e, hrun, ?_⟩
  have hshows : e.line.Shows ⟨0x24 :: [0x61], [] ++ []⟩ := by
    rw [hline]
    exact ⟨List.replicate 9 0, List.cons_ne_nil _ _, rfl, rfl, rfl, rfl⟩
  have hroom : ∀ name ∈ candidates alike ([0x61] ++ []), 1 + name.length + ([] : Bytes).length ≤ 10 := by decide
  have hsteady : ∀ first second others, candidates alike ([0x61] ++ []) = first :: second :: others →
      Steady alike e.theWord ([0x61] ++ []) (first.drop ([0x61] ++ []).length) := by
    intro first second others hfound
    have hfirst : first = [0x61, 0x62, 0x63, 0x31] := (List.cons.inj hfound).1.symm
    rw [hfirst, hword]
    unfold Steady
    rw [if_neg (by decide)]
    have hgrows : extension alike ([0x61] ++ []) [0x62, 0x63, 0x31] = 2 := by decide
    refine ⟨by decide, fun m hpos hle => ?_⟩
    obtain rfl | rfl : m = 1 ∨ m = 2 := by
      have hbound : m ≤ 2 := hgrows ▸ hle
      omega
    · decide
    · decide
  exact complete_word_completes alike alike_short (by decide) hrun hshows (by decide) (.inl rfl) hroom (.inl hescaping)
    hfresh hsteady

/-- A word is completed, the line is erased, and the next word does not grow over what is left of the first. -/
theorem longer_word_is_left :
    ¬∀ (names : Names), names.Short → ∀ (linelen : Nat) (keys : List Int), (∀ c ∈ keys, c < 256) →
      ∀ e, Transition.run (typed names) (some (Editor.start linelen)) keys = some e →
        ∀ front behind after : Bytes, e.line.Shows ⟨0x24 :: front, behind ++ after⟩ → 0x3d ∉ behind →
          (after = [] ∨ after.head? = some 0x3d) →
          (∀ name ∈ candidates names (front ++ behind), 1 + name.length + after.length ≤ linelen) →
          (e.escaping = 0 ∨ e.escaping = 2) → e.nmatches = 0 → Completes names (front ++ behind) after e := by
  intro hclaim
  obtain ⟨keys, hkeys⟩ : ∃ keys : List Int, keys = [0x24, 0x7a, 0x7a, 0x7a, 0x7a, 9, 21, 0x24, 0x61] := ⟨_, rfl⟩
  obtain ⟨e, hrun⟩ : ∃ e, Transition.run (typed alike) (some (Editor.start 10)) keys = some e :=
    Option.isSome_iff_exists.mp (by rw [hkeys]; decide)
  have hstate : (Transition.run (typed alike) (some (Editor.start 10)) keys).map
      (fun e => (e.line, e.escaping, e.nmatches)) =
        some (⟨0x24 :: 0x61 :: 0x7a :: 0x7a :: 0x7a :: List.replicate 6 0, 2, 2, 10⟩, 0, 0) := by
    rw [hkeys]
    rfl
  have htab : ((Transition.run (typed alike) (some (Editor.start 10)) keys).bind (Editor.lineComplete alike 9)).map
      (fun e => c_str e.theWord) = some [0x61] := by
    rw [hkeys]
    rfl
  rw [hrun, Option.map_some] at hstate
  obtain ⟨hline, hstate⟩ := Prod.mk.inj (Option.some.inj hstate)
  obtain ⟨hescaping, hfresh⟩ := Prod.mk.inj hstate
  have hshows : e.line.Shows ⟨0x24 :: [0x61], [] ++ []⟩ := by
    rw [hline]
    exact ⟨0x7a :: 0x7a :: 0x7a :: List.replicate 6 0, List.cons_ne_nil _ _, rfl, rfl, rfl, rfl⟩
  have hcompletes := hclaim alike alike_short 10 keys (by rw [hkeys]; decide) e hrun [0x61] [] [] hshows (by decide)
    (.inl rfl) (by decide) (.inl hescaping) hfresh
  obtain ⟨e', name, htabs, -, hword, -, -⟩ := hcompletes 0
  have hnext : e.lineComplete alike 9 = some e' := htabs
  rw [hrun, Option.bind_some, hnext, Option.map_some, hword] at htab
  exact absurd htab (by decide)

end DuneWeaver.Lineedit
