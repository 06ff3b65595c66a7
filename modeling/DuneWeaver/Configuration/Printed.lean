import DuneWeaver.Configuration.ParserHandler
import DuneWeaver.Outline.Lines

open Outline

namespace DuneWeaver.Configuration

structure KeyText (key : Bytes) : Prop where
  head : key.head?.any isIdentifierChar
  colon : 0x3a ∉ key
  last : ∀ c, key.getLast? = some c → isWhiteSpace c = false

/-- How a value may be written: not at all, as it is, or between quotes with
anything behind them. -/
inductive ValueText : Bytes → Bytes → Prop where
  | empty : ValueText [] []
  | plain {c : UInt8} (value : Bytes) (hspace : isWhiteSpace c = false) (hquote : ¬ (c = 0x22 ∨ c = 0x27)) :
    ValueText (c :: value) (c :: value)
  | quoted {delimiter : UInt8} {value : Bytes} (tail : Bytes) (hdelimiter : delimiter = 0x22 ∨ delimiter = 0x27)
    (hinside : delimiter ∉ value) : ValueText value (delimiter :: value ++ delimiter :: tail)

/-- A line of the tree as text, with any space around its colon. -/
inductive LineText : Nat × Bytes × Bytes → Bytes → Prop where
  | line {key value text gap lead : Bytes} (indent : Nat) (hkey : KeyText key) (hgap : ∀ c ∈ gap, isWhiteSpace c)
    (hlead : ∀ c ∈ lead, isWhiteSpace c) (hvalue : ValueText value text) :
    LineText (indent, key, value) (List.replicate indent 0x20 ++ (key ++ gap ++ 0x3a :: (lead ++ text)))

/-- A blank line, or a comment at any indent. -/
inductive Filler : Bytes → Prop where
  | blank (indent : Nat) : Filler (List.replicate indent 0x20)
  | comment (indent : Nat) (text : Bytes) : Filler (List.replicate indent 0x20 ++ 0x23 :: text)

/-- The line with or without a carriage return behind it. -/
def Ends (body line : Bytes) : Prop :=
  0x0a ∉ line ∧ (line = body ++ [0x0d] ∨ line = body ∧ body.getLast? ≠ some 0x0d)

/-- A text that has these lines and fillers between them. The last line need
not have a line end. -/
inductive Prints : List (Nat × Bytes × Bytes) → Bytes → Prop where
  | nothing : Prints [] []
  | filler {body line text : Bytes} {lines : List (Nat × Bytes × Bytes)} (hfiller : Filler body)
    (hends : Ends body line) (hmore : Prints lines text) : Prints lines (line ++ 0x0a :: text)
  | lastFiller {body line : Bytes} (hfiller : Filler body) (hends : Ends body line) : Prints [] line
  | line {l : Nat × Bytes × Bytes} {body line text : Bytes} {lines : List (Nat × Bytes × Bytes)}
    (hline : LineText l body) (hends : Ends body line) (hmore : Prints lines text) :
    Prints (l :: lines) (line ++ 0x0a :: text)
  | lastLine {l : Nat × Bytes × Bytes} {body line : Bytes} (hline : LineText l body) (hends : Ends body line) :
    Prints [l] line

variable {t : Tokenizer} {body line text : Bytes} {lines : List (Nat × Bytes × Bytes)}

theorem chomp_of_ends (hends : Ends body line) : chomp line = body := by
  obtain ⟨-, rfl | ⟨rfl, hlast⟩⟩ := hends
  · simp [chomp]
  · rw [chomp, if_neg hlast]

/-- The text up to a character that occurs in it. -/
theorem takeWhile_ne_append {c : UInt8} (hc : c ∉ line) (rest : Bytes) :
    (line ++ c :: rest).takeWhile (· ≠ c) = line ∧ ((line ++ c :: rest).dropWhile (· ≠ c)).drop 1 = rest := by
  induction line with
  | nil => simp
  | cons b line ih =>
    simp only [List.mem_cons, not_or] at hc
    have hne : b ≠ c := fun heq => hc.1 heq.symm
    obtain ⟨htake, hdrop⟩ := ih hc.2
    simp only [List.cons_append, List.takeWhile_cons, List.dropWhile_cons, hne, ne_eq, not_false_eq_true, decide_true,
      if_true]
    exact ⟨congrArg (b :: ·) htake, hdrop⟩

theorem takeWhile_ne_self {c : UInt8} (hc : c ∉ line) :
    line.takeWhile (· ≠ c) = line ∧ (line.dropWhile (· ≠ c)).drop 1 = [] := by
  have hall : ∀ b ∈ line, decide (b ≠ c) = true := by
    intro b hb
    exact decide_eq_true fun heq => hc (heq ▸ hb)
  refine ⟨List.takeWhile_eq_self_iff.mpr hall, ?_⟩
  rw [List.dropWhile_eq_nil_iff.mpr hall, List.drop_nil]

theorem dropWhile_spaces (indent : Nat) (content : Bytes) (hhead : content.head? ≠ some 0x20) :
    (List.replicate indent 0x20 ++ content).dropWhile (· = (0x20 : UInt8)) = content := by
  induction indent with
  | zero =>
    cases content with
    | nil => rfl
    | cons c content =>
      have hne : c ≠ 0x20 := fun heq => hhead (congrArg some heq)
      simp [hne]
  | succ indent ih => simpa [List.replicate_succ] using ih

/-- The content of a filler is nothing, or a comment. -/
theorem Filler.content (hfiller : Filler body) :
    body.dropWhile (· = (0x20 : UInt8)) = [] ∨ (body.dropWhile (· = (0x20 : UInt8))).head? = some 0x23 := by
  cases hfiller with
  | blank indent =>
    left
    have hdrop := dropWhile_spaces indent [] (by simp)
    rwa [List.append_nil] at hdrop
  | comment indent text =>
    right
    rw [dropWhile_spaces indent _ (by simp)]
    rfl

/-- The tokenizer behind its next line. -/
def Tokenizer.behindLine (t : Tokenizer) : Tokenizer :=
  { t with
    _remainder := (t._remainder.dropWhile (· ≠ 0x0a)).drop 1
    _linenum := t._linenum + 1 }

/-- A filler is passed over. -/
theorem nextLine_filler (hfiller : Filler body) (hends : Ends body line) (hremainder : t._remainder ≠ [])
    (hline : t._remainder.takeWhile (· ≠ 0x0a) = line) (more : Nat) :
    t.nextLine (more + 1) = t.behindLine.nextLine more := by
  rw [Tokenizer.nextLine]
  simp only [hremainder, if_false, hline, chomp_of_ends hends]
  obtain hnil | hcomment := hfiller.content
  · rw [if_pos hnil]
    rfl
  · have hne : body.dropWhile (· = (0x20 : UInt8)) ≠ [] := fun hnil => by simp [hnil] at hcomment
    rw [if_neg hne, if_neg (by simp [hcomment]), if_pos hcomment]
    rfl

theorem KeyText.ne_nil {key : Bytes} (hkey : KeyText key) : ∃ c rest, key = c :: rest ∧ isIdentifierChar c := by
  cases key with
  | nil => cases hkey.head
  | cons c rest => exact ⟨c, rest, rfl, hkey.head⟩

theorem not_identifier {c : UInt8} (hc : isIdentifierChar c) : c ≠ 0x20 ∧ c ≠ 0x09 ∧ c ≠ 0x23 := by
  refine ⟨?_, ?_, ?_⟩ <;> rintro rfl <;> cases hc

/-- A line of the tree is found with its indent. -/
theorem nextLine_line {indent : Nat} {content : Bytes} (hhead : content.head?.any isIdentifierChar)
    (hends : Ends (List.replicate indent 0x20 ++ content) line) (hremainder : t._remainder ≠ [])
    (hline : t._remainder.takeWhile (· ≠ 0x0a) = line) (more : Nat) :
    t.nextLine (more + 1) = .ok (some (indent, content), t.behindLine) := by
  obtain ⟨c, rest, rfl, hc⟩ : ∃ c rest, content = c :: rest ∧ isIdentifierChar c := by
    cases content with
    | nil => cases hhead
    | cons c rest => exact ⟨c, rest, rfl, hhead⟩
  obtain ⟨hspace, htab, hhash⟩ := not_identifier hc
  have hdrop := dropWhile_spaces indent (c :: rest) (by simpa using hspace)
  rw [Tokenizer.nextLine]
  simp only [hremainder, if_false, hline, chomp_of_ends hends, hdrop]
  rw [if_neg (by simp), if_neg (by simpa using htab), if_neg (by simpa using hhash)]
  simp [Tokenizer.behindLine]

theorem parseKey_line {key gap : Bytes} (hkey : KeyText key) (hgap : ∀ c ∈ gap, isWhiteSpace c) (rest : Bytes)
    (t : Tokenizer) : t.parseKey (key ++ gap ++ 0x3a :: rest) = .ok (key, rest) := by
  have hcolon : 0x3a ∉ key ++ gap := by
    rw [List.mem_append, not_or]
    exact ⟨hkey.colon, fun hmem => absurd (hgap _ hmem) (by decide)⟩
  have hhead : (key ++ gap ++ 0x3a :: rest).head?.any isIdentifierChar := by
    obtain ⟨c, rest', rfl, hc⟩ := hkey.ne_nil
    exact hc
  obtain ⟨htake, hdrop⟩ := takeWhile_ne_append hcolon rest
  have htrim : (key ++ gap).rdropWhile isWhiteSpace = key := by
    rw [List.rdropWhile, List.reverse_append, List.dropWhile_append_of_pos]
    · cases hlast : key.reverse with
      | nil =>
        have hnil : key = [] := List.reverse_eq_nil_iff.mp hlast
        rw [hnil]
        rfl
      | cons c rest' =>
        have hget : key.getLast? = some c := by rw [List.getLast?_eq_head?_reverse, hlast, List.head?_cons]
        rw [List.dropWhile_cons, hkey.last c hget, if_neg Bool.false_ne_true, ← hlast, List.reverse_reverse]
    · intro c hc
      exact hgap c (List.mem_reverse.mp hc)
  rw [Tokenizer.parseKey, if_pos hhead]
  simp only [htake, hdrop, htrim]
  rw [if_pos (by simp)]

theorem parseValue_line {value text lead : Bytes} (hlead : ∀ c ∈ lead, isWhiteSpace c) (hvalue : ValueText value text)
    (t : Tokenizer) : t.parseValue (lead ++ text) = .ok value := by
  have hdrop : (lead ++ text).dropWhile isWhiteSpace = text.dropWhile isWhiteSpace :=
    List.dropWhile_append_of_pos hlead
  rw [Tokenizer.parseValue, hdrop]
  cases hvalue with
  | empty => rfl
  | plain value hspace hquote =>
    simp only [List.dropWhile_cons, hspace, Bool.false_eq_true, if_false, hquote]
  | quoted tail hdelimiter hinside =>
    rename_i delimiter
    have hspace : isWhiteSpace delimiter = false := by
      rcases hdelimiter with rfl | rfl <;> rfl
    have hmem : delimiter ∈ value ++ delimiter :: tail := by simp
    simp only [List.cons_append, List.dropWhile_cons, hspace, Bool.false_eq_true, if_false, hdelimiter, if_true, hmem,
      (takeWhile_ne_append hinside tail).1]

/-- What the tokenizer makes of the content of a line. -/
def Content (l : Nat × Bytes × Bytes) (content : Bytes) : Prop :=
  ∀ t : Tokenizer, ∃ rest, t.parseKey content = .ok (l.2.1, rest) ∧ t.parseValue rest = .ok l.2.2

theorem LineText.content {l : Nat × Bytes × Bytes} (hline : LineText l body) :
    ∃ content, body = List.replicate l.1 0x20 ++ content ∧ content.head?.any isIdentifierChar ∧ Content l content := by
  cases hline with
  | @line key value text gap lead indent hkey hgap hlead hvalue =>
    refine ⟨_, rfl, ?_, fun t => ⟨_, parseKey_line hkey hgap _ t, parseValue_line hlead hvalue t⟩⟩
    obtain ⟨c, rest, rfl, hc⟩ := hkey.ne_nil
    exact hc

/-- The token for a line of the tree. -/
def lineToken (l : Nat × Bytes × Bytes) : TokenData where
  _key := l.2.1
  _value := l.2.2
  _indent := l.1
  _state := .Matching

/-- The end of the text, behind fillers only. -/
theorem nextLine_end (hprints : Prints lines text) (hlines : lines = []) (hremainder : t._remainder = text) {fuel : Nat}
    (hfuel : text.length ≤ fuel) : ∃ t', t.nextLine fuel = .ok (none, t') ∧ t'._remainder = [] ∧
    t'._token = t._token := by
  have hnone {t : Tokenizer} (fuel : Nat) (hnil : t._remainder = []) :
      t.nextLine fuel = .ok (none, { t with _linenum := t._linenum + 1 }) := by
    cases fuel with
    | zero => rfl
    | succ fuel => simp [Tokenizer.nextLine, hnil]
  induction hprints generalizing t fuel with
  | nothing => exact ⟨_, hnone fuel hremainder, hremainder, rfl⟩
  | @filler body line text lines hfiller hends hmore ih =>
    obtain ⟨htake, hdrop⟩ := takeWhile_ne_append hends.1 text
    cases fuel with
    | zero => simp at hfuel
    | succ fuel =>
      rw [nextLine_filler hfiller hends (by simp [hremainder]) (hremainder ▸ htake)]
      have hbehind : t.behindLine._remainder = text := by rw [Tokenizer.behindLine, hremainder, hdrop]
      apply ih hlines hbehind
      simp only [List.length_append, List.length_cons] at hfuel
      omega
  | @lastFiller body line hfiller hends =>
    obtain ⟨htake, hdrop⟩ := takeWhile_ne_self hends.1
    cases line with
    | nil => exact ⟨_, hnone fuel hremainder, hremainder, rfl⟩
    | cons c line =>
      cases fuel with
      | zero => simp at hfuel
      | succ fuel =>
        have hbehind : t.behindLine._remainder = [] := by rw [Tokenizer.behindLine, hremainder, hdrop]
        rw [nextLine_filler hfiller hends (by simp [hremainder]) (hremainder ▸ htake)]
        exact ⟨_, hnone fuel hbehind, hbehind, rfl⟩
  | line => cases hlines
  | lastLine => cases hlines

/-- The next line of the tree, behind fillers, and the text behind it. -/
theorem nextLine_prints {l : Nat × Bytes × Bytes} {rest : List (Nat × Bytes × Bytes)} (hprints : Prints lines text)
    (hlines : lines = l :: rest) (hremainder : t._remainder = text) {fuel : Nat} (hfuel : text.length ≤ fuel) :
    ∃ content t', t.nextLine fuel = .ok (some (l.1, content), t') ∧ Content l content ∧
      Prints rest t'._remainder := by
  induction hprints generalizing t fuel with
  | nothing => cases hlines
  | @filler body line text lines hfiller hends hmore ih =>
    obtain ⟨htake, hdrop⟩ := takeWhile_ne_append hends.1 text
    cases fuel with
    | zero => simp at hfuel
    | succ fuel =>
      rw [nextLine_filler hfiller hends (by simp [hremainder]) (hremainder ▸ htake)]
      have hbehind : t.behindLine._remainder = text := by rw [Tokenizer.behindLine, hremainder, hdrop]
      apply ih hlines hbehind
      simp only [List.length_append, List.length_cons] at hfuel
      omega
  | lastFiller => cases hlines
  | @line l' body line text lines hline hends hmore ih =>
    obtain ⟨rfl, rfl⟩ := List.cons.inj hlines
    obtain ⟨htake, hdrop⟩ := takeWhile_ne_append hends.1 text
    obtain ⟨content, rfl, hhead, hcontent⟩ := hline.content
    cases fuel with
    | zero => simp at hfuel
    | succ fuel =>
      have hbehind : t.behindLine._remainder = text := by rw [Tokenizer.behindLine, hremainder, hdrop]
      rw [nextLine_line hhead hends (by simp [hremainder]) (hremainder ▸ htake)]
      exact ⟨content, _, rfl, hcontent, hbehind ▸ hmore⟩
  | @lastLine l' body line hline hends =>
    obtain ⟨rfl, rfl⟩ := List.cons.inj hlines
    obtain ⟨htake, hdrop⟩ := takeWhile_ne_self hends.1
    obtain ⟨content, rfl, hhead, hcontent⟩ := hline.content
    have hne : line ≠ [] := by
      rintro rfl
      obtain ⟨-, hnil | ⟨hnil, -⟩⟩ := hends
      · simp at hnil
      · have hempty := congrArg List.length hnil
        cases content with
        | nil => cases hhead
        | cons c content => simp at hempty
    cases fuel with
    | zero =>
      apply absurd _ hne
      simpa using hfuel
    | succ fuel =>
      have hbehind : t.behindLine._remainder = [] := by rw [Tokenizer.behindLine, hremainder, hdrop]
      rw [nextLine_line hhead hends (hremainder ▸ hne) (hremainder ▸ htake)]
      exact ⟨content, _, rfl, hcontent, hbehind ▸ .nothing⟩

/-- A token not held is left for the one of the next line. -/
theorem Tokenize_line {l : Nat × Bytes × Bytes} {rest : List (Nat × Bytes × Bytes)}
    (hprints : Prints (l :: rest) t._remainder) (hheld : t._token._state ≠ .Held) :
    ∃ t', t.Tokenize = .ok t' ∧ t'._token = lineToken l ∧ Prints rest t'._remainder := by
  obtain ⟨content, t', hnext, hcontent, hrest⟩ := nextLine_prints hprints rfl rfl (Nat.le_refl _)
  obtain ⟨_line, hkey, hvalue⟩ := hcontent t'
  refine ⟨{ t' with _token := lineToken l }, ?_, rfl, hrest⟩
  rw [Tokenizer.Tokenize, if_neg hheld, hnext]
  simp only [hkey, hvalue, bind, Except.bind]
  rfl

/-- At the end the token is one that is left of everything. -/
theorem Tokenize_end (hprints : Prints [] t._remainder) (hheld : t._token._state ≠ .Held) :
    ∃ t', t.Tokenize = .ok t' ∧ t'._token._indent = -1 ∧ t'._token._state = .Eof ∧ t'._remainder = [] := by
  obtain ⟨t', hnext, hremainder, -⟩ := nextLine_end hprints rfl rfl (Nat.le_refl _)
  refine ⟨{ t' with _token := { t'._token with _state := .Eof, _indent := -1, _key := [] } }, ?_, rfl, rfl,
    hremainder⟩
  rw [Tokenizer.Tokenize, if_neg hheld, hnext]

/-- Every line takes a character at least. -/
theorem Prints.length_le (hprints : Prints lines text) : lines.length ≤ text.length := by
  induction hprints with
  | nothing => exact Nat.le_refl _
  | filler _ _ _ ih =>
    rw [List.length_append, List.length_cons]
    omega
  | lastFiller => exact Nat.zero_le _
  | line _ _ _ ih =>
    rw [List.length_cons, List.length_append, List.length_cons]
    omega
  | @lastLine l body line hline hends =>
    obtain ⟨content, rfl, hhead, -⟩ := hline.content
    cases content with
    | nil => cases hhead
    | cons c content =>
      obtain ⟨-, rfl | ⟨rfl, -⟩⟩ := hends <;> simp <;> omega

end DuneWeaver.Configuration
