import DuneWeaver.Lineedit.Editor
import Mathlib.Data.Nat.Find

namespace DuneWeaver.Lineedit

/-- A word of the line is the beginning of a path of the configuration, or else of the name of a setting. -/
def IsPath (word : Bytes) : Prop := word.head? = some 0x2f

instance (word : Bytes) : Decidable (IsPath word) := inferInstanceAs (Decidable (_ = _))

/-- How much of `rest` the word can be extended by and still have as many candidates. -/
def extension (names : Names) (word rest : Bytes) : Nat :=
  Nat.findGreatest (fun n => (candidates names (word ++ rest.take n)).length = (candidates names word).length)
    rest.length

/-- Nothing leads the growing word away from its candidates. A path does not become that of a whole section with as
many candidates inside. The name of a setting is read on up to the first NUL behind it, and what an earlier word has
left there goes on as all the candidates do. -/
def Steady (names : Names) (theWord word rest : Bytes) : Prop :=
  if IsPath word then
    ∀ m ≤ extension names word rest, candidates names (word ++ rest.take m) = candidates names word
  else
    ¬IsPath (word ++ rest) ∧ ∀ m, 0 < m → m ≤ extension names word rest → ∀ candidate ∈ candidates names word,
      isInitialSubstringCI (word ++ rest.take m ++ c_str (theWord.drop (word.length + m))) candidate = true

/-- The names of the settings and the paths fit into a buffer of their own. -/
def Names.Short (names : Names) : Prop := ∀ word, ∀ name ∈ candidates names word, name.length < 100

section Candidates

variable {names : Names} {word longer rest candidate : Bytes}

theorem isInitialSubstringCI_append (h : isInitialSubstringCI (word ++ longer) candidate = true) :
    isInitialSubstringCI word candidate = true := by
  induction word generalizing candidate with
  | nil => rfl
  | cons c word ih =>
    cases candidate with
    | nil => exact h
    | cons d candidate =>
      rw [List.cons_append, isInitialSubstringCI, Bool.and_eq_true] at h
      rw [isInitialSubstringCI, Bool.and_eq_true]
      exact ⟨h.1, ih h.2⟩

theorem isInitialSubstringCI_length (h : isInitialSubstringCI word candidate = true) :
    word.length ≤ candidate.length := by
  induction word generalizing candidate with
  | nil => exact Nat.zero_le _
  | cons c word ih =>
    cases candidate with
    | nil => exact absurd h Bool.false_ne_true
    | cons d candidate =>
      rw [isInitialSubstringCI, Bool.and_eq_true] at h
      exact Nat.succ_le_succ (ih h.2)

/-- The candidates of a setting's name are those that it begins. -/
theorem candidates_setting (hsetting : ¬IsPath word) :
    candidates names word = names.settings.filter fun name => isInitialSubstringCI word name := if_neg hsetting

theorem begins_of_candidate (hcandidate : candidate ∈ candidates names word) (hsetting : ¬IsPath word) :
    isInitialSubstringCI word candidate = true := by
  rw [candidates_setting hsetting] at hcandidate
  exact (List.mem_filter.mp hcandidate).2

/-- A longer word has the candidates of the word that it begins. -/
theorem candidates_append (hsetting : ¬IsPath word) (hlonger : ¬IsPath (word ++ longer)) :
    candidates names (word ++ longer) =
      (candidates names word).filter fun name => isInitialSubstringCI (word ++ longer) name := by
  rw [candidates_setting hsetting, candidates_setting hlonger, List.filter_filter]
  refine List.filter_congr fun name _ => ?_
  cases h : isInitialSubstringCI (word ++ longer) name with
  | false => rfl
  | true => rw [isInitialSubstringCI_append h]; rfl

theorem Completer.mem_candidates {_key _currentPath : Bytes} {value : Group}
    (hcandidate : candidate ∈ Completer.candidates _key _currentPath value) : _key <+: candidate := by
  induction value generalizing _currentPath with
  | done => exact absurd hcandidate List.not_mem_nil
  | item name rest ih =>
    rw [Completer.candidates, List.mem_append] at hcandidate
    rcases hcandidate with hcandidate | hcandidate
    · split_ifs at hcandidate with hprefix
      · rw [List.mem_singleton.mp hcandidate]
        exact List.isPrefixOf_iff_prefix.mp hprefix
      · exact absurd hcandidate List.not_mem_nil
    · exact ih hcandidate
  | enterSection name value rest ihvalue ihrest =>
    rw [Completer.candidates, List.mem_append] at hcandidate
    rcases hcandidate with hcandidate | hcandidate
    · split_ifs at hcandidate with hinside hprefix
      · exact ihvalue hcandidate
      · rw [List.mem_singleton.mp hcandidate]
        exact List.isPrefixOf_iff_prefix.mp hprefix
      · exact absurd hcandidate List.not_mem_nil
    · exact ihrest hcandidate

theorem Completer.candidates_strings {_key _currentPath : Bytes} {value : Group} (hvalue : value.Strings)
    (hpath : 0 ∉ _currentPath) (hcandidate : candidate ∈ Completer.candidates _key _currentPath value) :
    0 ∉ candidate := by
  induction value generalizing _currentPath with
  | done => exact absurd hcandidate List.not_mem_nil
  | item name rest ih =>
    rw [Completer.candidates, List.mem_append] at hcandidate
    rcases hcandidate with hcandidate | hcandidate
    · split_ifs at hcandidate
      · rw [List.mem_singleton.mp hcandidate, List.mem_append, not_or]
        exact ⟨hpath, hvalue.1⟩
      · exact absurd hcandidate List.not_mem_nil
    · exact ih hvalue.2 hpath hcandidate
  | enterSection name value rest ihvalue ihrest =>
    have hnext : 0 ∉ _currentPath ++ name ++ [0x2f] := by
      rw [List.mem_append, List.mem_append, not_or, not_or]
      exact ⟨⟨hpath, hvalue.1⟩, by decide⟩
    rw [Completer.candidates, List.mem_append] at hcandidate
    rcases hcandidate with hcandidate | hcandidate
    · split_ifs at hcandidate
      · exact ihvalue hvalue.2.1 hnext hcandidate
      · rwa [List.mem_singleton.mp hcandidate]
      · exact absurd hcandidate List.not_mem_nil
    · exact ihrest hvalue.2.2 hpath hcandidate

/-- The candidates are strings. -/
theorem candidates_strings (hcandidate : candidate ∈ candidates names word) : 0 ∉ candidate := by
  unfold candidates at hcandidate
  split_ifs at hcandidate
  · exact Completer.candidates_strings names.strings.2 (by decide) hcandidate
  · exact names.strings.1 candidate (List.mem_filter.mp hcandidate).1

theorem candidates_length (hcandidate : candidate ∈ candidates names word) : word.length ≤ candidate.length := by
  by_cases hpath : IsPath word
  · have hconfig : candidates names word = Completer.candidates word [0x2f] names.config := if_pos hpath
    rw [hconfig] at hcandidate
    exact (Completer.mem_candidates hcandidate).length_le
  · exact isInitialSubstringCI_length (begins_of_candidate hcandidate hpath)

theorem extension_le (names : Names) (word rest : Bytes) : extension names word rest ≤ rest.length :=
  Nat.findGreatest_le _

/-- The longest extension has as many candidates. -/
theorem extension_candidates (names : Names) (word rest : Bytes) :
    (candidates names (word ++ rest.take (extension names word rest))).length = (candidates names word).length := by
  refine Nat.findGreatest_spec (P := fun n => (candidates names (word ++ rest.take n)).length =
    (candidates names word).length) (Nat.zero_le rest.length) ?_
  rw [List.take_zero, List.append_nil]

/-- No longer one has. -/
theorem extension_longest {n : Nat} (hmore : extension names word rest < n) (hle : n ≤ rest.length) :
    (candidates names (word ++ rest.take n)).length ≠ (candidates names word).length :=
  Nat.findGreatest_is_greatest (P := fun n => (candidates names (word ++ rest.take n)).length =
    (candidates names word).length) hmore hle

theorem not_isPath_append (hsetting : ¬IsPath (word ++ rest)) (longer : Bytes) {n : Nat} (hn : 0 < n)
    (hrest : n ≤ rest.length) :
    ¬IsPath (word ++ rest.take n ++ longer) := by
  cases word with
  | nil =>
    cases rest with
    | nil => exact absurd hrest (Nat.not_le_of_lt hn)
    | cons c rest =>
      obtain ⟨n, rfl⟩ : ∃ m, n = m + 1 := ⟨n - 1, by omega⟩
      exact hsetting
  | cons c word => exact hsetting

/-- As many candidates are all of them. -/
theorem candidates_longer (names : Names) (hsetting : ¬IsPath word) (hlonger : ¬IsPath (word ++ longer)) :
    (candidates names (word ++ longer)).length = (candidates names word).length ↔
      ∀ candidate ∈ candidates names word, isInitialSubstringCI (word ++ longer) candidate = true := by
  rw [candidates_append hsetting hlonger, List.length_filter_eq_length_iff]

end Candidates

section Words

variable {l : Line} {names : Names}

/-- Characters are put in where there is room for them. -/
theorem Text.inserts_room {before behind s : Bytes} {room : Nat}
    (hroom : before.length + s.length + behind.length ≤ room) :
    Text.inserts room s ⟨before, behind⟩ = ⟨before ++ s, behind⟩ := by
  induction s generalizing before with
  | nil => rw [List.append_nil]; rfl
  | cons c s ih =>
    rw [List.length_cons] at hroom
    have hinsert : Text.insert room c ⟨before, behind⟩ = ⟨before ++ [c], behind⟩ := by
      have hinside : before.length < room := by omega
      have hkept : behind.take (room - before.length - 1) = behind := List.take_of_length_le (by omega)
      rw [Text.insert, if_pos hinside, hkept]
    show Text.inserts room s (Text.insert room c ⟨before, behind⟩) = _
    rw [hinsert, ih (by rw [List.length_append, List.length_singleton]; omega), List.append_assoc,
      List.singleton_append]

theorem Line.Shows.addchars_room {before behind : Bytes} (h : l.Shows ⟨before, behind⟩) (s : Bytes)
    (hroom : before.length + s.length + behind.length ≤ l.maxaddr) :
    ∃ l', l.addchars s = some l' ∧ l'.maxaddr = l.maxaddr ∧ l'.Shows ⟨before ++ s, behind⟩ := by
  have hadd := h.addchars s
  rwa [Text.inserts_room hroom] at hadd

/-- So many characters in front of the cursor go. -/
theorem Line.Shows.erase_last (before last : Bytes) {behind : Bytes} (h : l.Shows ⟨before ++ last, behind⟩) :
    ∃ l', Line.erase_while (fun _ => true) last.length l = some l' ∧ l'.maxaddr = l.maxaddr ∧
      l'.Shows ⟨before, behind⟩ := by
  induction last using List.reverseRecOn generalizing l with
  | nil => exact ⟨l, rfl, rfl, by rwa [List.append_nil] at h⟩
  | append_singleton last c ih =>
    rw [← List.append_assoc] at h
    obtain ⟨hread, hinside⟩ := h.inFront rfl
    obtain ⟨next, hnext, hmax, hshows⟩ := h.erase_char
    rw [Text.eraseLeft, List.dropLast_concat] at hshows
    obtain ⟨l', hrun, hmax', hlast⟩ := ih hshows
    refine ⟨l', ?_, hmax'.trans hmax, hlast⟩
    rw [List.length_append, List.length_singleton, Line.erase_while, if_pos hinside, hread, Option.bind_some,
      if_pos rfl, hnext, Option.bind_some, hrun]

/-- The word is copied up to the cursor, or as far as there is room. -/
theorem copy_before_eq {first : UInt8} (done : Bytes) {todo beyond behind : Bytes} (old : Bytes) (turns : Nat)
    (h : l.Shows ⟨first :: (done ++ todo ++ beyond), behind⟩) (hend : beyond = [] ∨ done.length + todo.length = 99)
    (hturns : todo.length ≤ turns) (hlength : done.length + old.length = 100)
    (hshort : done.length + todo.length ≤ 99) :
    Editor.copy_before l turns (done.length + 1) done.length (done ++ old) =
      some (done.length + todo.length, done ++ todo ++ old.drop todo.length) := by
  induction todo generalizing done old turns with
  | nil =>
    have hstop : ¬(done.length + 1 < l.thisaddr ∧ done.length < 99) := by
      have hcount := h.before_length
      rw [List.length_cons, List.length_append, List.append_nil] at hcount
      rcases hend with rfl | hend
      · rw [List.length_nil] at hcount
        omega
      · rw [List.length_nil] at hend
        omega
    rw [List.append_nil, List.length_nil, Nat.add_zero, List.drop_zero]
    cases turns with
    | zero => rfl
    | succ turns => exact if_neg hstop
  | cons c todo ih =>
    obtain ⟨turns, rfl⟩ : ∃ fewer, turns = fewer + 1 := by
      rw [List.length_cons] at hturns
      exact ⟨turns - 1, by omega⟩
    rw [List.length_cons] at hturns hshort hend
    have hread : l.line[done.length + 1]? = some c := by
      obtain ⟨rest, -, hline, -, -, -⟩ := h
      have hsplit : l.line = (first :: done) ++ c :: (todo ++ beyond ++ behind ++ rest) := by
        rw [hline]
        simp only [List.append_assoc, List.cons_append]
      rw [hsplit]
      exact getElem?_middle (first :: done) _ c
    have hinside : done.length + 1 < l.thisaddr ∧ done.length < 99 := by
      have hcount := h.before_length
      rw [List.length_cons, List.length_append, List.length_append, List.length_cons] at hcount
      omega
    obtain ⟨d, old, rfl⟩ := List.exists_cons_of_length_pos (by omega : 0 < old.length)
    rw [List.length_cons] at hlength
    have hmore : (done ++ [c]).length = done.length + 1 := by rw [List.length_append, List.length_singleton]
    have hnext := ih (done ++ [c]) old turns (by rwa [List.append_assoc done])
      (hend.imp_right fun hfull => by omega) (by omega) (by omega) (by omega)
    have hcount : done.length + 1 + todo.length = done.length + (todo.length + 1) := by omega
    rw [List.length_append, List.length_singleton, hcount] at hnext
    rw [Editor.copy_before, if_pos hinside, hread, Option.bind_some, store_middle, Option.bind_some, List.append_cons,
      hnext, List.length_cons, List.drop_succ_cons]
    simp only [List.append_assoc, List.cons_append, List.nil_append]

/-- The rest of the name is copied, or what there is room for, and the cursor goes behind it. -/
theorem copy_behind_eq (before done : Bytes) {todo after : Bytes} (old : Bytes) (turns : Nat)
    (h : l.Shows ⟨before, todo ++ after⟩) (hturns : todo.length ≤ turns) (hname : 0x3d ∉ todo)
    (hafter : (after = [] ∨ after.head? = some 0x3d) ∨ done.length + todo.length = 99)
    (hlength : done.length + old.length = 100) (hshort : done.length + todo.length ≤ 99) :
    ∃ l', Editor.copy_behind turns done.length (done ++ old) l =
        some (done.length + todo.length, done ++ todo ++ old.drop todo.length, l') ∧
      l'.maxaddr = l.maxaddr ∧ l'.Shows ⟨before ++ todo, after⟩ := by
  induction todo generalizing l before done old turns with
  | nil =>
    rw [List.append_nil, List.append_nil, List.length_nil, Nat.add_zero, List.drop_zero]
    refine ⟨l, ?_, rfl, h⟩
    cases turns with
    | zero => rfl
    | succ turns =>
      rw [Editor.copy_behind]
      by_cases hinside : l.thisaddr < l.endaddr ∧ done.length < 99
      · rw [if_pos hinside]
        cases after with
        | nil =>
          have hcount := h.behind_length
          rw [List.append_nil, List.length_nil] at hcount
          omega
        | cons c after =>
          have hend := hafter.resolve_right (by rw [List.length_nil]; omega)
          have hc : c = 0x3d := Option.some.inj (hend.resolve_left (List.cons_ne_nil c after))
          rw [(h.under rfl).1, Option.bind_some, if_neg (not_not_intro hc)]
      · rw [if_neg hinside]
  | cons c todo ih =>
    obtain ⟨turns, rfl⟩ : ∃ fewer, turns = fewer + 1 := by
      rw [List.length_cons] at hturns
      exact ⟨turns - 1, by omega⟩
    rw [List.length_cons] at hturns hshort hafter
    rw [List.mem_cons, not_or] at hname
    obtain ⟨hread, hinside⟩ := h.under rfl
    obtain ⟨hright, hmax⟩ := h.right
    rw [Line.forward_char, if_pos hinside] at hright hmax
    obtain ⟨d, old, rfl⟩ := List.exists_cons_of_length_pos (by omega : 0 < old.length)
    rw [List.length_cons] at hlength
    have hmore : (done ++ [c]).length = done.length + 1 := by rw [List.length_append, List.length_singleton]
    obtain ⟨l', hrun, hmax', hshows⟩ := ih (before ++ [c]) (done ++ [c]) old turns hright (by omega) hname.2
      (hafter.imp_right fun hend => by omega) (by omega) (by omega)
    refine ⟨l', ?_, hmax', ?_⟩
    · have hcount : done.length + 1 + todo.length = done.length + (todo.length + 1) := by omega
      rw [List.length_append, List.length_singleton, hcount] at hrun
      rw [Editor.copy_behind, if_pos ⟨hinside, by omega⟩, hread, Option.bind_some, if_pos (Ne.symm hname.1),
        store_middle, Option.bind_some, List.append_cons, hrun, List.length_cons, List.drop_succ_cons]
      simp only [List.append_assoc, List.cons_append, List.nil_append]
    · rw [List.append_cons before c]
      exact hshows

/-- The loop of `complete_word` stops at the first longer word that has not as many candidates. -/
theorem grow_eq (before after : Bytes) {word rest name tail : Bytes} {k n : Nat} (turns m : Nat)
    (h : l.Shows ⟨before ++ rest.take m, after⟩) (hroom : before.length + rest.length + after.length ≤ l.maxaddr)
    (hname : name.drop word.length = rest) (hlength : word.length + tail.length = 100)
    (hshort : word.length + rest.length < 100) (hn : n ≤ rest.length) (hm : m ≤ n) (hturns : m + turns = rest.length)
    (htests : ∀ j < rest.length, j ≤ n → ∃ found,
      num_initial_matches names (word ++ rest.take (j + 1) ++ tail.drop (j + 1)) (word.length + j + 1) = some found ∧
        (k = found.length ↔ j + 1 ≤ n)) :
    ∃ theWord l', Editor.grow names name k turns (word.length + m) (word ++ rest.take m ++ tail.drop m) l =
        some (word.length + n, theWord, l') ∧
      l'.maxaddr = l.maxaddr ∧ l'.Shows ⟨before ++ rest.take n, after⟩ ∧ theWord.length = 100 ∧
      theWord.take (word.length + n) = word ++ rest.take n := by
  have hlengths : ∀ j ≤ rest.length, (word ++ rest.take j ++ tail.drop j).length = 100 := by
    intro j hj
    rw [List.length_append, List.length_append, List.length_take, List.length_drop]
    omega
  have htakes : ∀ j ≤ rest.length, (word ++ rest.take j).length = word.length + j := by
    intro j hj
    rw [List.length_append, List.length_take]
    omega
  induction turns generalizing m l with
  | zero =>
    have hlast : m = n := by omega
    subst hlast
    exact ⟨_, l, rfl, rfl, h, hlengths m hn, by rw [← htakes m hn, List.take_left]⟩
  | succ turns ih =>
    have hinside : m < rest.length := by omega
    obtain ⟨c, hc⟩ : ∃ c, rest[m]? = some c := ⟨_, List.getElem?_eq_getElem hinside⟩
    have hread : name[word.length + m]? = some c := by
      rw [← List.getElem?_drop, hname, hc]
    have hgrown : rest.take (m + 1) = rest.take m ++ [c] := by
      rw [List.take_add_one, hc]
      rfl
    have hstore : store (word ++ rest.take m ++ tail.drop m) (word.length + m) c =
        some (word ++ rest.take (m + 1) ++ tail.drop (m + 1)) := by
      obtain ⟨d, later, hlater⟩ := List.exists_cons_of_length_pos (l := tail.drop m) (by rw [List.length_drop]; omega)
      have hnext : tail.drop (m + 1) = later := by
        rw [← List.drop_drop, hlater]
        rfl
      rw [hlater, hnext, hgrown, ← htakes m hinside.le, store_middle]
      simp only [List.append_assoc, List.cons_append, List.nil_append]
    obtain ⟨found, hfound, hiff⟩ := htests m hinside hm
    rw [Editor.grow, hread, Option.bind_some, hstore, Option.bind_some, hfound, Option.bind_some]
    by_cases hmore : m + 1 ≤ n
    · rw [if_neg (not_not_intro (hiff.mpr hmore))]
      obtain ⟨next, hnext, hmax, hshows⟩ := h.addchars_room [c] (by
        rw [List.length_append, List.length_take, List.length_singleton]
        omega)
      rw [List.append_assoc, ← hgrown] at hshows
      obtain ⟨theWord, l', hrun, hmax', hshows', hword⟩ :=
        ih (m + 1) hshows (by rw [hmax]; exact hroom) hmore (by omega)
      have hadd : l.addchar c = some next := by
        rw [Line.addchars] at hnext
        cases hstep : l.addchar c with
        | none =>
          rw [hstep] at hnext
          exact absurd hnext (Option.some_ne_none _).symm
        | some other =>
          rw [hstep] at hnext
          exact hnext
      rw [hadd, Option.bind_some]
      exact ⟨theWord, l', hrun, hmax'.trans hmax, hshows', hword⟩
    · have hlast : m = n := by omega
      subst hlast
      rw [if_pos (mt hiff.mp hmore)]
      refine ⟨_, l, rfl, rfl, h, hlengths (m + 1) hinside, ?_⟩
      rw [hgrown, ← htakes m hinside.le, ← List.append_assoc, List.append_assoc, List.take_left]

/-- The word is in `theWord`, and the cursor behind the name, where there is room for so much. -/
theorem find_word_eq {e : Editor} {front behind after : Bytes} (h : e.line.Shows ⟨0x24 :: front, behind ++ after⟩)
    (hname : 0x3d ∉ behind) (hafter : after = [] ∨ after.head? = some 0x3d) (hword : e.theWord.length = 100) :
    ∃ l', e.find_word_under_cursor = some (true, { e with
        theWord := (front ++ behind).take 99 ++ 0 :: e.theWord.drop (((front ++ behind).take 99).length + 1),
        line := l' }) ∧
      l'.maxaddr = e.line.maxaddr ∧
      l'.Shows ⟨0x24 :: (front ++ behind.take (99 - front.length)), behind.drop (99 - front.length) ++ after⟩ := by
  have hthis : e.line.thisaddr = front.length + 1 := h.before_length
  have hcount : e.line.endaddr - e.line.thisaddr = behind.length + after.length := by
    rw [h.behind_length, List.length_append]
  have hordered := h.ordered
  have hline : ¬(e.line.endaddr = 0 ∨ e.line.line.head? ≠ some 0x24) := by
    rintro (hnone | hother)
    · omega
    · obtain ⟨rest, -, hline, -, -, -⟩ := h
      rw [hline] at hother
      exact hother rfl
  obtain ⟨first, hfirst⟩ : ∃ first, first = front.take 99 := ⟨_, rfl⟩
  have hlength : first.length = min 99 front.length := by rw [hfirst, List.length_take]
  have hfront : e.line.Shows ⟨0x24 :: ([] ++ first ++ front.drop 99), behind ++ after⟩ := by
    rwa [List.nil_append, hfirst, List.take_append_drop]
  have hend : front.drop 99 = [] ∨ ([] : Bytes).length + first.length = 99 := by
    rw [List.drop_eq_nil_iff, List.length_nil]
    omega
  have hbefore := copy_before_eq [] e.theWord e.line.thisaddr hfront hend (by omega)
    (by rw [List.length_nil, Nat.zero_add]; exact hword) (by rw [List.length_nil]; omega)
  rw [List.length_nil, Nat.zero_add, Nat.zero_add, List.nil_append, List.nil_append] at hbefore
  obtain ⟨second, hsecond⟩ : ∃ second, second = behind.take (99 - front.length) := ⟨_, rfl⟩
  have hlength' : second.length = min (99 - front.length) behind.length := by rw [hsecond, List.length_take]
  have hshows : e.line.Shows ⟨0x24 :: front, second ++ (behind.drop (99 - front.length) ++ after)⟩ := by
    rwa [hsecond, ← List.append_assoc, List.take_append_drop]
  have hstop : (behind.drop (99 - front.length) ++ after = [] ∨
      (behind.drop (99 - front.length) ++ after).head? = some 0x3d) ∨ first.length + second.length = 99 := by
    by_cases hfits : behind.length ≤ 99 - front.length
    · rw [List.drop_eq_nil_of_le hfits, List.nil_append]
      exact .inl hafter
    · exact .inr (by omega)
  have hsign : 0x3d ∉ second := by
    rw [hsecond]
    exact fun hmem => hname (List.mem_of_mem_take hmem)
  obtain ⟨l', hbehind, hmax, hshows'⟩ := copy_behind_eq (0x24 :: front) first (e.theWord.drop first.length)
    (e.line.endaddr - e.line.thisaddr) hshows (by omega) hsign hstop (by rw [List.length_drop]; omega) (by omega)
  have hcut : (front ++ behind).take 99 = first ++ second := by rw [List.take_append, hfirst, hsecond]
  obtain ⟨d, later, hlater⟩ := List.exists_cons_of_length_pos
    (by rw [List.length_drop, List.length_append]; omega : 0 < (e.theWord.drop (first ++ second).length).length)
  have hrest : e.theWord.drop ((first ++ second).length + 1) = later := by
    rw [← List.drop_drop, hlater]
    rfl
  refine ⟨l', ?_, hmax, by rw [← hsecond]; exact hshows'⟩
  rw [Editor.find_word_under_cursor, if_neg hline, hbefore, Option.bind_some]
  dsimp only
  rw [hbehind, Option.bind_some, List.drop_drop, ← List.length_append, hlater, hcut, hrest]
  dsimp only
  rw [store_middle, Option.map_some]

theorem num_initial_matches_path {word tail : Bytes} (hpath : IsPath word) (hshort : word.length < 100)
    (hzero : 0 ∉ word) :
    num_initial_matches names (word ++ tail) word.length = some (candidates names word) := by
  have hhead : (word ++ tail).head? = some 0x2f := by
    cases word with
    | nil => exact absurd hpath (Option.some_ne_none _).symm
    | cons c word => exact hpath
  rw [num_initial_matches, if_pos hhead, if_pos hshort, List.take_left, c_str_eq_self hzero]

/-- A word with its NUL. -/
theorem num_initial_matches_eq {word tail : Bytes} (hshort : word.length < 100) (hzero : 0 ∉ word) :
    num_initial_matches names (word ++ 0 :: tail) word.length = some (candidates names word) := by
  by_cases hpath : IsPath word
  · exact num_initial_matches_path hpath hshort hzero
  · have hhead : ¬(word ++ 0 :: tail).head? = some 0x2f := by
      cases word with
      | nil => exact fun h => absurd (Option.some.inj h) (by decide)
      | cons c word => exact hpath
    rw [num_initial_matches, if_neg hhead, if_pos (List.mem_append_right _ List.mem_cons_self), c_str_before_nul,
      c_str_eq_self hzero]

/-- Where growing is steady, a longer word has as many candidates exactly as far as it is meant to grow. -/
theorem Steady.tests {theWord word rest tail : Bytes} (hsteady : Steady names theWord word rest)
    (htail : tail = 0 :: theWord.drop (word.length + 1))
    (hlast : theWord[99]? = some 0) (hshort : word.length + rest.length < 100) (hword : 0 ∉ word) (hrest : 0 ∉ rest) :
    ∀ j < rest.length, j ≤ extension names word rest → ∃ found,
      num_initial_matches names (word ++ rest.take (j + 1) ++ tail.drop (j + 1)) (word.length + j + 1) = some found ∧
        ((candidates names word).length = found.length ↔ j + 1 ≤ extension names word rest) := by
  intro j hj hn
  have hcount : (word ++ rest.take (j + 1)).length = word.length + j + 1 := by
    rw [List.length_append, List.length_take]
    omega
  have hzero : 0 ∉ word ++ rest.take (j + 1) := by
    rw [List.mem_append, not_or]
    exact ⟨hword, fun h => hrest (List.mem_of_mem_take h)⟩
  have hdrop : tail.drop (j + 1) = theWord.drop (word.length + (j + 1)) := by
    rw [htail, List.drop_succ_cons, List.drop_drop]
    congr 1
    omega
  unfold Steady at hsteady
  by_cases hpath : IsPath word
  · rw [if_pos hpath] at hsteady
    have hlonger : IsPath (word ++ rest.take (j + 1)) := by
      cases word with
      | nil => exact absurd hpath (Option.some_ne_none _).symm
      | cons c word => exact hpath
    refine ⟨candidates names (word ++ rest.take (j + 1)), ?_, ?_⟩
    · rw [← hcount]
      exact num_initial_matches_path hlonger (by omega) hzero
    · constructor
      · intro hsame
        by_contra hmore
        exact extension_longest (Nat.lt_of_not_le hmore) hj hsame.symm
      · intro hmore
        rw [hsteady (j + 1) hmore]
  · rw [if_neg hpath] at hsteady
    obtain ⟨hsetting, hleft⟩ := hsteady
    -- What an earlier word has left behind is read on up to its NUL.
    have hnul : 0 ∈ theWord.drop (word.length + (j + 1)) := by
      refine List.mem_of_getElem? (i := 99 - (word.length + (j + 1))) ?_
      rw [List.getElem?_drop, ← hlast]
      congr 1
      omega
    obtain ⟨more, later, hsplit, hmore⟩ := List.eq_append_cons_of_mem hnul
    have hstring : c_str (theWord.drop (word.length + (j + 1))) = more := by
      rw [hsplit, c_str_before_nul, c_str_eq_self hmore]
    have hkey : c_str (word ++ rest.take (j + 1) ++ theWord.drop (word.length + (j + 1))) =
        word ++ rest.take (j + 1) ++ more := by
      rw [hsplit, ← List.append_assoc, c_str_before_nul, c_str_eq_self]
      rw [List.mem_append, not_or]
      exact ⟨hzero, hmore⟩
    have hgrown := not_isPath_append hsetting [] (Nat.succ_pos j) hj
    have hlonger := not_isPath_append hsetting more (Nat.succ_pos j) hj
    have hhead : ¬(word ++ rest.take (j + 1) ++ theWord.drop (word.length + (j + 1))).head? = some 0x2f :=
      not_isPath_append hsetting _ (Nat.succ_pos j) hj
    refine ⟨candidates names (word ++ rest.take (j + 1) ++ more), ?_, ?_⟩
    · rw [hdrop, num_initial_matches, if_neg hhead, if_pos (List.mem_append_right _ hnul), hkey]
    · rw [List.append_nil] at hgrown
      have hall := candidates_longer names hpath hgrown
      rw [List.append_assoc] at hlonger ⊢
      rw [eq_comm, candidates_longer names hpath hlonger]
      constructor
      · intro hbegins
        by_contra hstop
        refine extension_longest (Nat.lt_of_not_le hstop) hj (hall.mpr fun candidate hcandidate => ?_)
        have hcandidates := hbegins candidate hcandidate
        rw [← List.append_assoc] at hcandidates
        exact isInitialSubstringCI_append hcandidates
      · intro hinside candidate hcandidate
        have hbegins := hleft (j + 1) (Nat.succ_pos j) hinside candidate hcandidate
        rwa [hstring, List.append_assoc] at hbegins

/-- The longest extension has the candidates of the word. -/
theorem Steady.candidates_eq {theWord word rest : Bytes} (hsteady : Steady names theWord word rest) :
    candidates names (word ++ rest.take (extension names word rest)) = candidates names word := by
  unfold Steady at hsteady
  by_cases hpath : IsPath word
  · rw [if_pos hpath] at hsteady
    exact hsteady _ le_rfl
  · rw [if_neg hpath] at hsteady
    by_cases hzero : extension names word rest = 0
    · rw [hzero, List.take_zero, List.append_nil]
    · have hlonger := not_isPath_append hsteady.1 [] (Nat.pos_of_ne_zero hzero) (extension_le names word rest)
      rw [List.append_nil] at hlonger
      rw [candidates_append hpath hlonger, List.filter_eq_self]
      exact (candidates_longer names hpath hlonger).mp (extension_candidates names word rest)

/-- The editor shows the candidate with this number behind the word that the candidates have in common. -/
structure Offers (word after : Bytes) (found : List Bytes) (i : Nat) (e : Editor) : Prop where
  shown : ∃ name, found[i]? = some name ∧ e.matchlen = name.length ∧
    e.line.Shows ⟨0x24 :: (word ++ name.drop word.length), after⟩
  theWord : ∃ later, e.theWord = word ++ 0 :: later
  nmatches : e.nmatches = found.length
  thismatch : e.thismatch = i

/-- A further Tab replaces the candidate by the next one, and the last one by the first. -/
theorem Offers.propose_word {e : Editor} {word after : Bytes} {found : List Bytes} {i : Nat}
    (h : Offers word after found i e) (hfound : candidates names word = found) (hshort : word.length < 100)
    (hzero : 0 ∉ word)
    (hnames : ∀ name ∈ found, name.length < 100 ∧ word.length ≤ name.length ∧
      1 + name.length + after.length ≤ e.line.maxaddr) :
    ∃ e', e.propose_word names = some e' ∧ Offers word after found (if i + 1 = found.length then 0 else i + 1) e' ∧
      e'.line.maxaddr = e.line.maxaddr ∧ e'.editing = e.editing ∧ e'.escaping = e.escaping := by
  obtain ⟨name, hname, hmatchlen, hshows⟩ := h.shown
  obtain ⟨later, hlater⟩ := h.theWord
  have hinside : i < found.length := (List.getElem?_eq_some_iff.mp hname).1
  obtain ⟨j, hj⟩ : ∃ j, j = if i + 1 = found.length then 0 else i + 1 := ⟨_, rfl⟩
  obtain ⟨next, hnext⟩ : ∃ next, found[j]? = some next :=
    ⟨_, List.getElem?_eq_getElem (by rw [hj]; split_ifs <;> omega)⟩
  obtain ⟨hnextshort, hnextlong, hnextroom⟩ := hnames next (List.mem_of_getElem? hnext)
  obtain ⟨-, hlong, -⟩ := hnames name (List.mem_of_getElem? hname)
  have hlen : (c_str e.theWord).length = word.length := by
    rw [hlater, c_str_before_nul, c_str_eq_self hzero]
  have hmatches : num_initial_matches names e.theWord word.length = some found := by
    rw [hlater, num_initial_matches_eq hshort hzero, hfound]
  have hcount : name.length - word.length = (name.drop word.length).length := by rw [List.length_drop]
  obtain ⟨blank, hblank, hmax, hshows'⟩ := Line.Shows.erase_last (0x24 :: word) (name.drop word.length) hshows
  obtain ⟨l', hadd, hmax', hlast⟩ := hshows'.addchars_room (next.drop word.length) (by
    rw [hmax, List.length_cons, List.length_drop]
    omega)
  have hcopied : copied found j = some next := by
    rw [copied, hnext]
    exact if_pos hnextshort
  refine ⟨{ e with line := l', nmatches := found.length, thismatch := j, matchlen := next.length }, ?_, ?_,
    hmax'.trans hmax, rfl, rfl⟩
  · have hthismatch : (if e.thismatch + 1 = e.nmatches then 0 else e.thismatch + 1) = j := by
      rw [h.thismatch, h.nmatches, hj]
    unfold Editor.propose_word
    dsimp only
    rw [hthismatch, hlen, hmatches, Option.bind_some, hcopied, Option.bind_some, hmatchlen, hcount, hblank,
      Option.bind_some, Nat.min_eq_right hlong, hadd, Option.map_some, Nat.max_eq_right hnextlong]
  · rw [← hj]
    exact ⟨⟨next, hnext, rfl, hlast⟩, ⟨later, hlater⟩, rfl, rfl⟩

section Complete

variable {e : Editor} {front behind after : Bytes}

/-- Up to the candidates it is the same for all numbers of them: the word is found, and its candidates are counted. -/
theorem complete_word_eq (names : Names) {word : Bytes} (h : e.line.Shows ⟨0x24 :: front, behind ++ after⟩)
    (hname : 0x3d ∉ behind)
    (hafter : after = [] ∨ after.head? = some 0x3d) (hzero : 0 ∉ front ++ behind) (hword : e.theWord.length = 100)
    (hcut : (front ++ behind).take 99 = word) :
    ∃ l', l'.maxaddr = e.line.maxaddr ∧
      l'.Shows ⟨0x24 :: (front ++ behind.take (99 - front.length)), behind.drop (99 - front.length) ++ after⟩ ∧
      e.complete_word names =
        let theWord := word ++ 0 :: e.theWord.drop (word.length + 1)
        let found := candidates names word
        (copied found 0).bind fun name =>
          if found.length = 0 then some { e with theWord, line := l', nmatches := 0 }
          else if found.length = 1 then
            (l'.addchars (name.drop word.length)).map fun line =>
              { e with theWord, line, nmatches := 0, matchlen := name.length }
          else
            (Editor.grow names name found.length (name.length - word.length) word.length theWord l').bind
              fun (len, theWord, line) => (store theWord len 0).bind fun theWord =>
                (line.addchars (name.drop len)).map fun line =>
                  { e with theWord, line, nmatches := found.length, matchlen := name.length, thismatch := 0 } := by
  obtain ⟨l', hfind, hmax, hshows⟩ := find_word_eq h hname hafter hword
  refine ⟨l', hmax, hshows, ?_⟩
  rw [hcut] at hfind
  have hstring : 0 ∉ word := by
    rw [← hcut]
    exact fun hmem => hzero (List.mem_of_mem_take hmem)
  have hshort : word.length < 100 := by
    rw [← hcut, List.length_take]
    omega
  have hlen : (c_str (word ++ 0 :: e.theWord.drop (word.length + 1))).length = word.length := by
    rw [c_str_before_nul, c_str_eq_self hstring]
  rw [Editor.complete_word, hfind, Option.bind_some]
  dsimp only
  rw [Bool.not_true, if_neg Bool.false_ne_true, hlen, num_initial_matches_eq hshort hstring, Option.bind_some]
  refine congrArg (Option.bind _) (funext fun name => ?_)
  split_ifs with hnone hone
  · rw [hnone]
  · rfl
  · rfl

theorem copied_eq {found : List Bytes} {i : Nat} {name : Bytes} (hname : found[i]? = some name)
    (hshort : name.length < 100) :
    copied found i = some name := by
  rw [copied, hname]
  exact if_pos hshort

/-- A word that does not fit into `theWord` has no candidates, and the text stays as it is. -/
theorem complete_word_long (hnames : names.Short) (h : e.line.Shows ⟨0x24 :: front, behind ++ after⟩)
    (hname : 0x3d ∉ behind) (hafter : after = [] ∨ after.head? = some 0x3d) (hzero : 0 ∉ front ++ behind)
    (hword : e.theWord.length = 100) (hlong : 99 < (front ++ behind).length) :
    ∃ e', e.complete_word names = some e' ∧
      ∃ t : Text, e'.line.Shows t ∧ t.text = 0x24 :: (front ++ behind ++ after) := by
  obtain ⟨word, hcut⟩ : ∃ word, (front ++ behind).take 99 = word := ⟨_, rfl⟩
  have hlength : word.length = 99 := by
    rw [← hcut, List.length_take]
    omega
  obtain ⟨l', -, hshows, hrun⟩ := complete_word_eq names h hname hafter hzero hword hcut
  have htext : (Text.mk (0x24 :: (front ++ behind.take (99 - front.length)))
      (behind.drop (99 - front.length) ++ after)).text = 0x24 :: (front ++ behind ++ after) := by
    rw [Text.text, List.cons_append, List.append_assoc, ← List.append_assoc (behind.take _), List.take_append_drop,
      ← List.append_assoc]
  obtain ⟨name, hcopied, hshort⟩ : ∃ name, copied (candidates names word) 0 = some name ∧ name.length < 100 := by
    cases hfirst : (candidates names word)[0]? with
    | none => exact ⟨[], by rw [copied, hfirst], by decide⟩
    | some name =>
      have hshort := hnames word name (List.mem_of_getElem? hfirst)
      exact ⟨name, copied_eq hfirst hshort, hshort⟩
  have hnothing : name.drop 99 = [] := List.drop_eq_nil_of_le (by omega)
  have hturns : name.length - 99 = 0 := by omega
  dsimp only at hrun
  rw [hcopied, Option.bind_some, hlength, hnothing, hturns] at hrun
  split_ifs at hrun
  · exact ⟨_, hrun, _, hshows, htext⟩
  · exact ⟨_, hrun, _, hshows, htext⟩
  · rw [Editor.grow, Option.bind_some] at hrun
    dsimp only at hrun
    rw [← hlength, store_middle, Option.bind_some, hlength, hnothing] at hrun
    exact ⟨_, hrun, _, hshows, htext⟩

section Short

variable {word : Bytes} (h : e.line.Shows ⟨0x24 :: front, behind ++ after⟩) (hname : 0x3d ∉ behind)
  (hafter : after = [] ∨ after.head? = some 0x3d) (hzero : 0 ∉ word) (hword : e.theWord.length = 100)
  (hfront : front ++ behind = word) (hshort : word.length < 100)

include h hname hafter hzero hword hfront hshort

/-- Without a candidate only the cursor moves. -/
theorem complete_word_none (hfound : candidates names word = []) :
    ∃ e', e.complete_word names = some e' ∧ e'.line.Shows ⟨0x24 :: word, after⟩ := by
  subst hfront
  rw [List.length_append] at hshort
  obtain ⟨l', -, hshows, hrun⟩ := complete_word_eq names h hname hafter hzero hword
    (List.take_of_length_le (by rw [List.length_append]; omega))
  rw [List.take_of_length_le (by omega), List.drop_eq_nil_of_le (by omega), List.nil_append] at hshows
  dsimp only at hrun
  rw [hfound] at hrun
  exact ⟨_, hrun, hshows⟩

/-- A single candidate takes the place of the word. -/
theorem complete_word_one {name : Bytes} (hfound : candidates names word = [name]) (hfits : name.length < 100)
    (hroom : 1 + name.length + after.length ≤ e.line.maxaddr) :
    ∃ e', e.complete_word names = some e' ∧ e'.line.Shows ⟨0x24 :: (word ++ name.drop word.length), after⟩ := by
  subst hfront
  have hlong :=
    candidates_length (by rw [hfound]; exact List.mem_singleton_self name : name ∈ candidates names (front ++ behind))
  rw [List.length_append] at hshort hlong
  obtain ⟨l', hmax, hshows, hrun⟩ := complete_word_eq names h hname hafter hzero hword
    (List.take_of_length_le (by rw [List.length_append]; omega))
  rw [List.take_of_length_le (by omega), List.drop_eq_nil_of_le (by omega), List.nil_append] at hshows
  obtain ⟨line, hadd, -, hlast⟩ := hshows.addchars_room (name.drop (front ++ behind).length) (by
    rw [hmax, List.length_cons, List.length_drop, List.length_append]
    omega)
  dsimp only at hrun
  have hsome : ¬[name].length = 0 := Nat.succ_ne_zero 0
  rw [hfound, copied_eq rfl hfits, Option.bind_some, if_neg hsome, if_pos List.length_singleton, hadd,
    Option.map_some] at hrun
  exact ⟨_, hrun, hlast⟩

/-- Of several candidates the first one is shown behind what they have in common. -/
theorem complete_word_many {name : Bytes} (hsound : e.theWord[99]? = some 0)
    (hfirst : (candidates names word)[0]? = some name) (hmany : 1 < (candidates names word).length)
    (hnames : 0 ∉ name ∧ name.length < 100) (hroom : 1 + name.length + after.length ≤ e.line.maxaddr)
    (hsteady : Steady names e.theWord word (name.drop word.length)) :
    ∃ e', e.complete_word names = some e' ∧ e'.line.maxaddr = e.line.maxaddr ∧ e'.editing = e.editing ∧
      e'.escaping = e.escaping ∧
      Offers (word ++ (name.drop word.length).take (extension names word (name.drop word.length))) after
        (candidates names word) 0 e' := by
  subst hfront
  obtain ⟨hnul, hfits⟩ := hnames
  have hlong := candidates_length (List.mem_of_getElem? hfirst)
  obtain ⟨word, hfront⟩ : ∃ word, word = front ++ behind := ⟨_, rfl⟩
  rw [← hfront] at hzero hshort hfirst hmany hsteady hlong ⊢
  have hlength := congrArg List.length hfront
  rw [List.length_append] at hlength
  obtain ⟨l', hmax, hshows, hrun⟩ := complete_word_eq names h hname hafter (by rwa [← hfront]) hword
    (List.take_of_length_le (by rw [← hfront]; omega))
  rw [List.take_of_length_le (by omega), List.drop_eq_nil_of_le (by omega), List.nil_append, ← hfront] at hshows
  rw [← hfront] at hrun
  obtain ⟨rest, hrest⟩ : ∃ rest, rest = name.drop word.length := ⟨_, rfl⟩
  have hcount : name.length - word.length = rest.length := by rw [hrest, List.length_drop]
  rw [← hrest] at hsteady ⊢
  have hbounded := extension_le names word rest
  have htests := hsteady.tests rfl hsound (by omega) hzero (by
    rw [hrest]
    exact fun hmem => hnul (List.mem_of_mem_drop hmem))
  obtain ⟨theWord, grown, hgrow, hmax', hshows', hsame, htake⟩ := grow_eq (0x24 :: word) after
    (k := (candidates names word).length) (n := extension names word rest) rest.length 0
    (by rwa [List.take_zero, List.append_nil]) (by rw [hmax, List.length_cons]; omega) hrest.symm
    (by rw [List.length_cons, List.length_drop]; omega) (by omega) hbounded (Nat.zero_le _) (Nat.zero_add _) htests
  rw [List.take_zero, List.append_nil, List.drop_zero, Nat.add_zero] at hgrow
  obtain ⟨ext, hext⟩ : ∃ ext, ext = word ++ rest.take (extension names word rest) := ⟨_, rfl⟩
  have hextlength : word.length + extension names word rest = ext.length := by
    rw [hext, List.length_append, List.length_take]
    omega
  rw [← hext, hextlength] at htake
  obtain ⟨d, later, hlater⟩ :=
    List.exists_cons_of_length_pos (l := theWord.drop ext.length) (by rw [List.length_drop]; omega)
  have hsplit : theWord = ext ++ d :: later := by
    conv_lhs => rw [← List.take_append_drop ext.length theWord, htake, hlater]
  have hshows'' : grown.Shows ⟨0x24 :: ext, after⟩ := by
    rw [hext]
    exact hshows'
  obtain ⟨line, hadd, hmax'', hlast⟩ := hshows''.addchars_room (name.drop ext.length) (by
    rw [hmax', hmax, List.length_cons, List.length_drop]
    omega)
  dsimp only at hrun
  rw [copied_eq hfirst hfits, Option.bind_some, if_neg (by omega), if_neg (by omega), hcount, hgrow,
    Option.bind_some] at hrun
  dsimp only at hrun
  rw [hextlength, hsplit, store_middle, Option.bind_some, hadd, Option.map_some] at hrun
  rw [← hext]
  exact ⟨_, hrun, hmax''.trans (hmax'.trans hmax), rfl, rfl, ⟨name, hfirst, rfl, hlast⟩, ⟨later, rfl⟩, rfl, rfl⟩

end Short

end Complete

end Words

end DuneWeaver.Lineedit
