import DuneWeaver.PlaylistParse

namespace DuneWeaver.PlaylistParse

/-- The characters of `" \t"`, which end a token. -/
def separates (c : UInt8) : Bool := c = 32 || c = 9

/-- Split the value of `$Sand/Run` into the path and the clear mode. The result is `false`
when no path is left. -/
def parse_run_args (value : Bytes) : Bool × Bytes × Bytes :=
  let text := (value.rdropWhile isBlank).dropWhile isBlank
  let front := text.rdropWhile (! separates ·)
  let token := text.rtakeWhile (! separates ·)
  if text = [] then (false, [], [])
  else if bytes "clear=" <+: token then
    let clear_mode := token.drop 6
    -- `clear=<mode>` with no path
    if front = [] then (false, [], clear_mode) else (true, front.rdropWhile isBlank, clear_mode)
  else (true, text, [])

/-- No blank stands at either end of the text. -/
structure Trimmed (text : Bytes) : Prop where
  head : ∀ c, text.head? = some c → isBlank c = false
  last : ∀ c, text.getLast? = some c → isBlank c = false

/-- The text is cut where its last token begins. -/
structure LastToken (front token : Bytes) : Prop where
  unbroken : ∀ c ∈ token, separates c = false
  behind : front = [] ∨ ∃ before c, front = before ++ [c] ∧ separates c = true

variable {text front token p m : Bytes}

theorem rdropWhile_blanks (hlast : ∀ c, text.getLast? = some c → isBlank c = false) :
    text.rdropWhile isBlank = text := by
  rw [List.rdropWhile_eq_self_iff]
  intro hne
  rw [hlast _ (List.getLast?_eq_some_getLast hne)]
  decide

theorem dropWhile_blanks (hhead : ∀ c, text.head? = some c → isBlank c = false) : text.dropWhile isBlank = text := by
  cases text with
  | nil => rfl
  | cons c rest => rw [List.dropWhile_cons_of_neg (by simp [hhead c rfl])]

theorem LastToken.rdropWhile_eq (h : LastToken front token) : (front ++ token).rdropWhile (! separates ·) = front := by
  have hpassed : (front ++ token).rdropWhile (! separates ·) = front.rdropWhile (! separates ·) := by
    obtain ⟨hunbroken, -⟩ := h
    induction token using List.reverseRecOn with
    | nil => rw [List.append_nil]
    | append_singleton token c ih =>
      have hc : separates c = false := hunbroken c (by simp)
      rw [← List.append_assoc, List.rdropWhile_concat_pos _ _ _ (by simp [hc])]
      exact ih fun d hd => hunbroken d (List.mem_append_left [c] hd)
  rw [hpassed]
  obtain rfl | ⟨before, c, rfl, hc⟩ := h.behind
  · rfl
  · rw [List.rdropWhile_concat_neg _ _ _ (by simp [hc])]

theorem LastToken.rtakeWhile_eq (h : LastToken front token) : (front ++ token).rtakeWhile (! separates ·) = token := by
  have hsplit : (front ++ token).rdropWhile (! separates ·) ++ (front ++ token).rtakeWhile (! separates ·) =
      front ++ token := List.rdropWhile_append_rtakeWhile
  rw [h.rdropWhile_eq] at hsplit
  exact List.append_cancel_left hsplit

/-- Every text has a last token. -/
theorem exists_lastToken (text : Bytes) : ∃ front token, text = front ++ token ∧ LastToken front token := by
  induction text using List.reverseRecOn with
  | nil => exact ⟨[], [], rfl, fun _ hc => absurd hc List.not_mem_nil, .inl rfl⟩
  | append_singleton text c ih =>
    by_cases hc : separates c = true
    · exact ⟨text ++ [c], [], (List.append_nil _).symm, fun _ hd => absurd hd List.not_mem_nil, .inr ⟨text, c, rfl, hc⟩⟩
    · obtain ⟨front, token, rfl, hlast⟩ := ih
      refine ⟨front, token ++ [c], List.append_assoc _ _ _, fun d hd => ?_, hlast.behind⟩
      rcases List.mem_append.mp hd with hd | hd
      · exact hlast.unbroken d hd
      · rw [List.mem_singleton.mp hd]
        exact eq_false_of_ne_true hc

/-- A text without blanks at its ends is split before its last token. -/
theorem parse_run_args_token (hlast : LastToken front token) (htrimmed : Trimmed (front ++ token))
    (hne : front ++ token ≠ []) :
    parse_run_args (front ++ token) =
      if bytes "clear=" <+: token then
        if front = [] then (false, [], token.drop 6) else (true, front.rdropWhile isBlank, token.drop 6)
      else (true, front ++ token, []) := by
  unfold parse_run_args
  dsimp only
  rw [rdropWhile_blanks htrimmed.last, dropWhile_blanks htrimmed.head, if_neg hne, hlast.rdropWhile_eq,
    hlast.rtakeWhile_eq]

/-- A blank in front of it changes nothing. -/
theorem parse_run_args_blank (htrimmed : Trimmed text) (hne : text ≠ []) :
    parse_run_args (32 :: text) = parse_run_args text := by
  have hlast : ∀ c, (32 :: text).getLast? = some c → isBlank c = false := by
    intro c hc
    rw [← List.singleton_append, List.getLast?_append_of_ne_nil _ hne] at hc
    exact htrimmed.last c hc
  unfold parse_run_args
  dsimp only
  rw [rdropWhile_blanks hlast, rdropWhile_blanks htrimmed.last, List.dropWhile_cons_of_pos rfl]

/-- A path followed by its clear mode is split again, whatever the path contains. -/
theorem parse_run_args_clear (hp : Trimmed p) (hm : Trimmed m) (hne : m ≠ [])
    (hunbroken : ∀ c ∈ m, separates c = false) :
    parse_run_args (p ++ bytes " clear=" ++ m) = (decide (p ≠ []), p, m) := by
  have hword : ∀ c ∈ bytes "clear=" ++ m, separates c = false := by
    intro c hc
    rcases List.mem_append.mp hc with hc | hc
    · have hletters : ∀ c ∈ bytes "clear=", separates c = false := by decide +kernel
      exact hletters c hc
    · exact hunbroken c hc
  have hend : ∀ front, (front ++ (bytes "clear=" ++ m)).getLast? = m.getLast? := by
    intro front
    rw [← List.append_assoc, List.getLast?_append_of_ne_nil _ hne]
  have hfound : bytes "clear=" <+: bytes "clear=" ++ m := List.prefix_append _ _
  have hmode : (bytes "clear=" ++ m).drop 6 = m := rfl
  by_cases hpath : p = []
  · subst hpath
    have htoken : LastToken [] (bytes "clear=" ++ m) := ⟨hword, .inl rfl⟩
    have htrimmed : Trimmed (bytes "clear=" ++ m) := by
      refine ⟨fun c hc => ?_, fun c hc => hm.last c (hend [] ▸ hc)⟩
      cases hc
      rfl
    have hblank : parse_run_args ([] ++ bytes " clear=" ++ m) = parse_run_args (bytes "clear=" ++ m) :=
      parse_run_args_blank htrimmed (List.cons_ne_nil _ _)
    have hsplit := parse_run_args_token htoken htrimmed (List.cons_ne_nil _ _)
    rw [List.nil_append, if_pos hfound, if_pos rfl, hmode] at hsplit
    rw [hblank, hsplit]
    rfl
  · have htoken : LastToken (p ++ [32]) (bytes "clear=" ++ m) := ⟨hword, .inr ⟨p, 32, rfl, rfl⟩⟩
    have hvalue : p ++ bytes " clear=" ++ m = (p ++ [32]) ++ (bytes "clear=" ++ m) := by
      rw [List.append_assoc, List.append_assoc]
      rfl
    have hhead : (p ++ [32] ++ (bytes "clear=" ++ m)).head? = p.head? := by
      cases p with
      | nil => exact absurd rfl hpath
      | cons c rest => rfl
    have htrimmed : Trimmed (p ++ [32] ++ (bytes "clear=" ++ m)) :=
      ⟨fun c hc => hp.head c (hhead ▸ hc), fun c hc => hm.last c (hend _ ▸ hc)⟩
    have hback : (p ++ [32]).rdropWhile isBlank = p := by
      rw [List.rdropWhile_concat_pos _ _ _ rfl, rdropWhile_blanks hp.last]
    rw [hvalue, parse_run_args_token htoken htrimmed (by simp), if_pos hfound, if_neg (by simp), hback, hmode,
      decide_eq_true hpath]

/-- The split of `$Sand/Run` gives back what was put together, and leaves a path alone that
does not end in a clear mode. -/
theorem parse_run_args_splits :
    (∀ p m, Trimmed p → Trimmed m → m ≠ [] → (∀ c ∈ m, separates c = false) →
      parse_run_args (p ++ bytes " clear=" ++ m) = (decide (p ≠ []), p, m)) ∧
    ∀ p, Trimmed p → (∀ front token, p = front ++ token → LastToken front token → ¬ bytes "clear=" <+: token) →
      parse_run_args p = (decide (p ≠ []), p, []) := by
  constructor
  · intro p m hp hm hne hunbroken
    exact parse_run_args_clear hp hm hne hunbroken
  · intro p htrimmed hclear
    obtain ⟨front, token, rfl, hlast⟩ := exists_lastToken p
    have hother := hclear front token rfl hlast
    by_cases hpath : front ++ token = []
    · rw [hpath]
      rfl
    · rw [parse_run_args_token hlast htrimmed hpath, if_neg hother, decide_eq_true hpath]

/-- A file name with a `clear=` in it, with and without another one behind it. -/
theorem parse_run_args_splits_twice :
    parse_run_args (bytes "/a clear=in b.thr" ++ bytes " clear=" ++ bytes "out") =
        (true, bytes "/a clear=in b.thr", bytes "out") ∧
      parse_run_args (bytes "/a clear=in b.thr") = (true, bytes "/a clear=in b.thr", []) := by
  have hname : Trimmed (bytes "/a clear=in b.thr") := ⟨fun _ hc => by cases hc; rfl, fun _ hc => by cases hc; rfl⟩
  have hmode : Trimmed (bytes "out") := ⟨fun _ hc => by cases hc; rfl, fun _ hc => by cases hc; rfl⟩
  have hlast : LastToken (bytes "/a clear=in ") (bytes "b.thr") :=
    ⟨by decide +kernel, .inr ⟨bytes "/a clear=in", 32, rfl, rfl⟩⟩
  refine ⟨parse_run_args_splits.1 _ _ hname hmode (by decide +kernel) (by decide +kernel),
    parse_run_args_splits.2 _ hname fun front token htext hother => ?_⟩
  have htoken : bytes "b.thr" = token := by
    rw [← hlast.rtakeWhile_eq, ← hother.rtakeWhile_eq, ← htext]
    rfl
  rw [← htoken]
  decide +kernel

end DuneWeaver.PlaylistParse
