import DuneWeaver.JSONEncoder.Reading

open Json

namespace DuneWeaver

open Output (spelled byteWidth width)

/-- Whether a piece can be read back from a line that `column` characters stand
in, on a channel that cuts lines, or that takes lines through `log_stream`. -/
def Piece.fits (cuts plain : Bool) (column : Nat) : Piece → Prop
  | .string s => (∀ c ∈ s, spelled c) ∧ (cuts → column + width s ≤ 100)
  | .mark _ => True
  | .bracket _ => plain → column ≠ 0
  | .line _ => True

/-- How many characters of the line stand behind the piece. -/
def Piece.column (plain : Bool) (column : Nat) : Piece → Nat
  | .string s => (column + width s) % 100
  | .mark _ => (column + 1) % 100
  | .bracket level => if plain then (2 * level).toNat % 100 else (column + 1) % 100
  | .line level => if plain then (2 * level).toNat % 100 else column

/-- Every piece fits where it comes to stand. -/
def AllFit (cuts plain : Bool) : Nat → List Piece → Prop
  | _, [] => True
  | column, piece :: rest => piece.fits cuts plain column ∧ AllFit cuts plain (piece.column plain column) rest

namespace Output

variable {o : Output} {l : Lexer} {T : List Token} {c : UInt8} {s : Bytes}

@[simp] theorem escape_channel (o : Output) (c : UInt8) : (o.escape c)._channel = o._channel := by
  cases hescapes : escapes c with
  | true =>
    obtain ⟨letter, -, -, heq⟩ := escape_of_escapes hescapes o
    rw [heq, add_channel, add_channel]
  | false => rw [escape_of_not_escapes hescapes, add_channel]

@[simp] theorem escape_encapsulate (o : Output) (c : UInt8) : (o.escape c)._encapsulate = o._encapsulate := by
  cases hescapes : escapes c with
  | true =>
    obtain ⟨letter, -, -, heq⟩ := escape_of_escapes hescapes o
    rw [heq, add_encapsulate, add_encapsulate]
  | false => rw [escape_of_not_escapes hescapes, add_encapsulate]

theorem lexer_escape_none (hnone : o.lexer = none) (c : UInt8) : (o.escape c).lexer = none := by
  cases hescapes : escapes c with
  | true =>
    obtain ⟨letter, -, -, heq⟩ := escape_of_escapes hescapes o
    rw [heq]
    exact lexer_add_none (lexer_add_none hnone)
  | false =>
    rw [escape_of_not_escapes hescapes]
    exact lexer_add_none hnone

theorem foldl_channel (f : Output → UInt8 → Output) (hf : ∀ o c, (f o c)._channel = o._channel) (s : Bytes)
    (o : Output) : (s.foldl f o)._channel = o._channel := by
  induction s generalizing o with
  | nil => rfl
  | cons c s ih => rw [List.foldl_cons, ih, hf]

theorem foldl_encapsulate (f : Output → UInt8 → Output) (hf : ∀ o c, (f o c)._encapsulate = o._encapsulate)
    (s : Bytes) (o : Output) : (s.foldl f o)._encapsulate = o._encapsulate := by
  induction s generalizing o with
  | nil => rfl
  | cons c s ih => rw [List.foldl_cons, ih, hf]

theorem foldl_none (f : Output → UInt8 → Output) (hf : ∀ o c, o.lexer = none → (f o c).lexer = none) (s : Bytes)
    (hnone : o.lexer = none) : (s.foldl f o).lexer = none := by
  induction s generalizing o with
  | nil => exact hnone
  | cons c s ih => exact ih (hf o c hnone)

theorem escape_cuts (o : Output) (c : UInt8) : (o.escape c).cuts = o.cuts := by
  simp only [cuts, plain, escape_channel, escape_encapsulate]

/-- The inside of a string that fits in the line. -/
theorem At.escapes {acc : Bytes} (hat : o.At ⟨T, .inside acc⟩) (hopen : o.cuts → 0 < o._str.length)
    (hspelled : ∀ c ∈ s, spelled c) (hroom : o.cuts → o._str.length + (s.map byteWidth).sum < 100) :
    (s.foldl Output.escape o).At ⟨T, .inside (acc ++ s)⟩ ∧
      (o.cuts → (s.foldl Output.escape o)._str.length = o._str.length + (s.map byteWidth).sum) := by
  induction s generalizing o acc with
  | nil => exact ⟨by simpa using hat, fun _ => rfl⟩
  | cons c s ih =>
    simp only [List.map_cons, List.sum_cons] at hroom ⊢
    obtain ⟨hchar, hlength⟩ := hat.escape hopen (hspelled c List.mem_cons_self) fun hcuts => by
      have := hroom hcuts
      omega
    have hsame := escape_cuts o c
    have hopen' : (o.escape c).cuts → 0 < (o.escape c)._str.length := by
      intro hcuts
      rw [hsame] at hcuts
      rw [hlength hcuts]
      have hpos := hopen hcuts
      omega
    have hroom' : (o.escape c).cuts → (o.escape c)._str.length + (s.map byteWidth).sum < 100 := by
      intro hcuts
      rw [hsame] at hcuts
      rw [hlength hcuts]
      have hlt := hroom hcuts
      omega
    obtain ⟨hrest, hlength'⟩ := ih hchar hopen' (fun b hb => hspelled b (List.mem_cons_of_mem c hb)) hroom'
    rw [List.append_assoc, List.singleton_append] at hrest
    refine ⟨hrest, fun hcuts => ?_⟩
    rw [List.foldl_cons, hlength' (hsame.trans hcuts), hlength hcuts]
    omega

/-- The inside of a string that does not. -/
theorem At.escapes_none {acc : Bytes} (hat : o.At ⟨T, .inside acc⟩) (hopen : o.cuts → 0 < o._str.length)
    (hmisfit : ¬ ((∀ c ∈ s, spelled c) ∧ (o.cuts → o._str.length + (s.map byteWidth).sum < 100))) :
    (s.foldl Output.escape o).lexer = none := by
  induction s generalizing o acc with
  | nil =>
    apply absurd _ hmisfit
    refine ⟨by simp, fun hcuts => ?_⟩
    exact hat.short hcuts
  | cons c s ih =>
    simp only [List.map_cons, List.sum_cons] at hmisfit
    by_cases hfits : spelled c ∧ (o.cuts → o._str.length + byteWidth c < 100)
    · obtain ⟨hchar, hlength⟩ := hat.escape hopen hfits.1 hfits.2
      have hsame := escape_cuts o c
      apply ih hchar
      · intro hcuts
        rw [hsame] at hcuts
        rw [hlength hcuts]
        have hpos := hopen hcuts
        omega
      · rintro ⟨hspelled, hroom⟩
        apply hmisfit
        refine ⟨?_, fun hcuts => ?_⟩
        · simp only [List.mem_cons, forall_eq_or_imp]
          exact ⟨hfits.1, hspelled⟩
        · have hlt := hroom (hsame.trans hcuts)
          rw [hlength hcuts] at hlt
          omega
    · exact foldl_none Output.escape (fun o c hnone => lexer_escape_none hnone c) s (hat.escape_none hopen hfits)

theorem quoted_cuts (o : Output) (s : Bytes) : (o.quoted s).cuts = o.cuts ∧ (o.quoted s).plain = o.plain := by
  have hchannel : (o.quoted s)._channel = o._channel := by
    rw [quoted, add_channel, foldl_channel Output.escape escape_channel, add_channel]
  have hencapsulate : (o.quoted s)._encapsulate = o._encapsulate := by
    rw [quoted, add_encapsulate, foldl_encapsulate Output.escape escape_encapsulate, add_encapsulate]
  simp only [cuts, plain, hchannel, hencapsulate, and_self]

/-- The opening quote, where it does not end the line. -/
theorem At.open (hat : o.At ⟨T, .outside⟩) (hroom : o.cuts → o._str.length + 1 < 100) :
    (o.add 0x22).At ⟨T, .inside []⟩ ∧ (o.cuts → (o.add 0x22)._str.length = o._str.length + 1) := by
  refine ⟨hat.add rfl (by simp) fun hcuts => .inl (hroom hcuts), fun hcuts => ?_⟩
  have hlt := hroom hcuts
  rw [length_add hcuts (by omega), Nat.mod_eq_of_lt hlt]

/-- A quoted string is read back up to its first NUL, where the line has room
for all that is written of it. -/
theorem At.quoted (hat : o.At ⟨T, .outside⟩) (hspelled : ∀ c ∈ c_str s, spelled c)
    (hroom : o.cuts → o._str.length + width (c_str s) ≤ 100) :
    (o.quoted s).At ⟨T ++ [.string (c_str s)], .outside⟩ ∧
      (o.cuts → (o.quoted s)._str.length = (o._str.length + width (c_str s)) % 100) := by
  simp only [width] at hroom ⊢
  obtain ⟨hopen, hlength⟩ := hat.open fun hcuts => by
    have hle := hroom hcuts
    omega
  have hroom' : (o.add 0x22).cuts → (o.add 0x22)._str.length + ((c_str s).map byteWidth).sum < 100 := by
    intro hcuts
    rw [add_cuts] at hcuts
    rw [hlength hcuts]
    have hle := hroom hcuts
    omega
  have hpos : (o.add 0x22).cuts → 0 < (o.add 0x22)._str.length := by
    intro hcuts
    rw [add_cuts] at hcuts
    rw [hlength hcuts]
    omega
  obtain ⟨hinside, hlength'⟩ := hopen.escapes hpos hspelled hroom'
  have hsame : ((c_str s).foldl Output.escape (o.add 0x22)).cuts = o.cuts := by
    simp only [cuts, plain, foldl_channel Output.escape escape_channel,
      foldl_encapsulate Output.escape escape_encapsulate, add_channel, add_encapsulate]
  refine ⟨hinside.add rfl (by simp) fun _ => .inr rfl, fun hcuts => ?_⟩
  have hle := hroom hcuts
  have hinner : ((c_str s).foldl Output.escape (o.add 0x22))._str.length =
      o._str.length + 1 + ((c_str s).map byteWidth).sum := by
    rw [hlength' ((add_cuts o _).trans hcuts), hlength hcuts]
  rw [Output.quoted, length_add (hsame.trans hcuts) (by omega), hinner]
  congr 1
  omega

theorem At.quoted_none (hat : o.At ⟨T, .outside⟩)
    (hmisfit : ¬ ((∀ c ∈ c_str s, spelled c) ∧ (o.cuts → o._str.length + width (c_str s) ≤ 100))) :
    (o.quoted s).lexer = none := by
  rw [Output.quoted]
  apply lexer_add_none
  by_cases hroom : o.cuts → o._str.length + 1 < 100
  · obtain ⟨hopen, hlength⟩ := hat.open hroom
    apply hopen.escapes_none
    · intro hcuts
      rw [add_cuts] at hcuts
      rw [hlength hcuts]
      omega
    · rintro ⟨hspelled, hfits⟩
      apply hmisfit
      refine ⟨hspelled, fun hcuts => ?_⟩
      have hlt := hfits ((add_cuts o _).trans hcuts)
      rw [hlength hcuts] at hlt
      rw [width]
      omega
  · simp only [Classical.not_imp, not_lt] at hroom
    apply foldl_none Output.escape fun o c hnone => lexer_escape_none hnone c
    have hstep : Lexer.step ⟨T, .outside⟩ 0x22 = some ⟨T, .inside []⟩ := rfl
    exact hat.add_cut hstep (by simp) hroom.1 (by omega) (by simp)

theorem At.mark (hat : o.At ⟨T, .outside⟩) {t : Token} (hmark : mark c = some t) (hc : c ≠ 0x5b) :
    (o.add c).At ⟨T ++ [t], .outside⟩ ∧ (o.cuts → (o.add c)._str.length = (o._str.length + 1) % 100) :=
  ⟨hat.add (step_mark rfl hmark) (fun _ heq => absurd heq hc) fun _ => .inr rfl,
    fun hcuts => length_add hcuts (hat.short hcuts)⟩

theorem indent_cuts (o : Output) (level : Int) :
    (o.indent level)._channel = o._channel ∧ (o.indent level)._encapsulate = o._encapsulate :=
  ⟨foldl_channel add add_channel _ o, foldl_encapsulate add add_encapsulate _ o⟩

theorem line_cuts (o : Output) (level : Int) : (o.line level).cuts = o.cuts ∧ (o.line level).plain = o.plain := by
  have hsame : (o.line level)._channel = o._channel ∧ (o.line level)._encapsulate = o._encapsulate := by
    rw [line]
    split
    · split
      · exact ⟨rfl, rfl⟩
      · exact indent_cuts _ _
    · obtain ⟨hchannel, hencapsulate⟩ := indent_cuts (o.add 0x0a) level
      rw [hchannel, hencapsulate, add_channel, add_encapsulate]
      exact ⟨rfl, rfl⟩
  simp only [cuts, plain, hsame.1, hsame.2, and_self]

/-- Spaces between tokens change nothing, wherever the line is cut. -/
theorem At.indent (hat : o.At l) (houtside : l.mode = .outside) (level : Int) :
    (o.indent level).At l ∧ (o.cuts → (o.indent level)._str.length = (o._str.length + (2 * level).toNat) % 100) := by
  rw [Output.indent]
  generalize (2 * level).toNat = n
  induction n generalizing o with
  | zero => exact ⟨hat, fun hcuts => (Nat.mod_eq_of_lt (hat.short hcuts)).symm⟩
  | succ n ih =>
    have hspace : (o.add 0x20).At l := hat.add (step_space houtside rfl) (by simp) fun _ => .inr houtside
    obtain ⟨hrest, hlength⟩ := ih hspace
    refine ⟨hrest, fun hcuts => ?_⟩
    rw [List.replicate_succ, List.foldl_cons, hlength ((add_cuts o _).trans hcuts),
      length_add hcuts (hat.short hcuts)]
    omega

/-- A line end between tokens, where the line begun with no bracket. -/
theorem At.line (hat : o.At l) (houtside : l.mode = .outside) (level : Int) :
    (o.line level).At l ∧
      (o.cuts → (o.line level)._str.length = if o.plain then (2 * level).toNat % 100 else o._str.length) := by
  rw [Output.line]
  split
  · rename_i hchannel
    split
    · rename_i hencapsulate
      have hplain : o.plain = false := by simp [plain, hencapsulate]
      rw [hplain]
      exact ⟨hat, fun _ => rfl⟩
    · rename_i hencapsulate
      have hplain : o.plain := by simp [plain, hchannel, hencapsulate]
      have hline : ({ o with sent := o.sent ++ [log_stream o._str], _str := [] } : Output).At l := by
        constructor
        · have hseen : ({ o with sent := o.sent ++ [log_stream o._str], _str := [] } : Output).seen =
              o.seen ++ [0x0a] := by
            simp [seen, log_stream, hat.head hplain, Sent.text]
          rw [Output.lexer, hseen, read_concat, show read o.seen = some l from hat.lexer]
          exact step_space houtside rfl
        · exact fun _ => by simp
        · exact fun _ => by simp
      obtain ⟨hindent, hlength⟩ := hline.indent houtside level
      refine ⟨hindent, fun hcuts => ?_⟩
      rw [hlength hcuts, hplain, if_pos rfl, List.length_nil, Nat.zero_add]
  · rename_i hchannel
    have hcuts : o.cuts = false := by
      cases hnone : o._channel with
      | none => simp [cuts, plain, hnone]
      | some channel => simp [hnone] at hchannel
    have hline : (o.add 0x0a).At l := hat.add (step_space houtside rfl) (by simp) fun _ => .inr houtside
    exact ⟨(hline.indent houtside level).1, fun htrue => absurd (hcuts.symm.trans htrue) (by simp)⟩

@[simp] theorem put_plain (o : Output) (piece : Piece) :
    (o.put piece).cuts = o.cuts ∧ (o.put piece).plain = o.plain := by
  cases piece with
  | string s => exact quoted_cuts o s
  | mark m => exact ⟨add_cuts o _, add_plain o _⟩
  | bracket level =>
    obtain ⟨hcuts, hplain⟩ := line_cuts (o.add 0x5b) level
    exact ⟨hcuts.trans (add_cuts o _), hplain.trans (add_plain o _)⟩
  | line level => exact line_cuts o level

theorem mark_char (m : Mark) : Json.mark m.char = some m.token ∧ m.char ≠ 0x5b := by
  cases m <;> exact ⟨rfl, by decide⟩

/-- The opening bracket with something in front of it in the line. -/
theorem At.bracket (hat : o.At ⟨T, .outside⟩) (hfront : o.plain → o._str ≠ []) (level : Int) :
    ((o.add 0x5b).line level).At ⟨T ++ [.lbracket], .outside⟩ ∧
      (o.cuts → ((o.add 0x5b).line level)._str.length =
        if o.plain then (2 * level).toNat % 100 else (o._str.length + 1) % 100) := by
  have hadd : (o.add 0x5b).At ⟨T ++ [.lbracket], .outside⟩ :=
    hat.add (step_mark rfl rfl) (fun hplain _ => hfront hplain) fun _ => .inr rfl
  obtain ⟨hline, hlength⟩ := hadd.line rfl level
  refine ⟨hline, fun hcuts => ?_⟩
  rw [hlength ((add_cuts o _).trans hcuts), add_plain, length_add hcuts (hat.short hcuts)]

/-- Where it begins the line, `log_stream` closes it at once. -/
theorem At.bracket_closed (hat : o.At ⟨T, .outside⟩) (hplain : o.plain) (hempty : o._str = []) (level : Int) :
    ((o.add 0x5b).line level).At ⟨T ++ [.lbracket, .rbracket], .outside⟩ := by
  obtain ⟨hchannel, hencapsulate⟩ : o._channel.isSome ∧ o._encapsulate = false := by
    simpa [plain] using hplain
  have hadd : o.add 0x5b = { o with _str := [0x5b] } := by
    simp [Output.add, hempty]
  have hline : ({ o with sent := o.sent ++ [.line [0x5b, 0x5d]], _str := [] } : Output).At
      ⟨T ++ [.lbracket, .rbracket], .outside⟩ := by
    constructor
    · have hseen : ({ o with sent := o.sent ++ [.line [0x5b, 0x5d]], _str := [] } : Output).seen =
          o.seen ++ [0x5b, 0x5d, 0x0a] := by
        simp [seen, Sent.text, hempty]
      rw [Output.lexer, hseen, read_append, show read o.seen = some ⟨T, .outside⟩ from hat.lexer]
      simp [Lexer.step, space, Json.mark]
    · exact fun _ => by simp
    · exact fun _ => by simp
  rw [hadd, Output.line, if_pos hchannel, if_neg (by simp [hencapsulate])]
  exact (hline.indent rfl level).1

/-- A piece that fits is read back as its tokens. -/
theorem At.put {piece : Piece} {column : Nat} (hat : o.At ⟨T, .outside⟩) (hcolumn : o.cuts → o._str.length = column)
    (hfits : piece.fits o.cuts o.plain column) :
    (o.put piece).At ⟨T ++ piece.tokens, .outside⟩ ∧
      (o.cuts → (o.put piece)._str.length = piece.column o.plain column) := by
  cases piece with
  | string s =>
    obtain ⟨hspelled, hroom⟩ := hfits
    have hs : c_str s = s := c_str_eq_self fun hmem => absurd (hspelled 0 hmem) (by decide)
    have hquoted := hat.quoted (s := s) (by rwa [hs]) fun hcuts => by
      rw [hcolumn hcuts, hs]
      exact hroom hcuts
    rw [hs] at hquoted
    refine ⟨hquoted.1, fun hcuts => ?_⟩
    rw [Piece.column, ← hcolumn hcuts]
    exact hquoted.2 hcuts
  | mark m =>
    obtain ⟨hmark, hc⟩ := mark_char m
    obtain ⟨hat', hlength⟩ := hat.mark hmark hc
    refine ⟨hat', fun hcuts => ?_⟩
    rw [Piece.column, ← hcolumn hcuts]
    exact hlength hcuts
  | bracket level =>
    have hfront : o.plain → o._str ≠ [] := fun hplain hempty => by
      apply hfits hplain
      rw [← hcolumn (cuts_of_plain hplain), hempty, List.length_nil]
    obtain ⟨hat', hlength⟩ := hat.bracket hfront level
    refine ⟨hat', fun hcuts => ?_⟩
    rw [Piece.column, ← hcolumn hcuts]
    exact hlength hcuts
  | line level =>
    obtain ⟨hat', hlength⟩ := hat.line rfl level
    refine ⟨by simpa [Piece.tokens, Output.put] using hat', fun hcuts => ?_⟩
    rw [Piece.column, ← hcolumn hcuts]
    exact hlength hcuts

/-- The reader has given up, or has read other tokens than these, and no fewer. -/
def Strays (o : Output) (T tokens : List Token) : Prop :=
  o.lexer = none ∨ ∃ read, o.At ⟨T ++ read, .outside⟩ ∧ tokens.length ≤ read.length ∧ read ≠ tokens

/-- A piece that does not fit is not read back. -/
theorem At.put_strays {piece : Piece} {column : Nat} (hat : o.At ⟨T, .outside⟩)
    (hcolumn : o.cuts → o._str.length = column) (hmisfit : ¬ piece.fits o.cuts o.plain column) :
    (o.put piece).Strays T piece.tokens := by
  cases piece with
  | string s =>
    by_cases hvisible : (∀ c ∈ c_str s, spelled c) ∧ (o.cuts → o._str.length + width (c_str s) ≤ 100)
    · right
      refine ⟨[.string (c_str s)], (hat.quoted hvisible.1 hvisible.2).1, le_rfl, fun heq => hmisfit ?_⟩
      simp only [Piece.tokens, List.cons.injEq, Token.string.injEq, and_true] at heq
      rw [heq] at hvisible
      exact ⟨hvisible.1, fun hcuts => hcolumn hcuts ▸ hvisible.2 hcuts⟩
    · left
      exact hat.quoted_none hvisible
  | mark m => exact absurd trivial hmisfit
  | bracket level =>
    simp only [Piece.fits, ne_eq, Classical.not_imp, Decidable.not_not] at hmisfit
    obtain ⟨hplain, hzero⟩ := hmisfit
    have hempty : o._str = [] := by
      rw [← List.length_eq_zero_iff, hcolumn (cuts_of_plain hplain), hzero]
    right
    exact ⟨_, hat.bracket_closed hplain hempty level, by simp [Piece.tokens], by simp [Piece.tokens]⟩
  | line level => exact absurd trivial hmisfit

theorem line_none (hnone : o.lexer = none) (level : Int) : (o.line level).lexer = none := by
  have hindent {o : Output} (hnone : o.lexer = none) : (o.indent level).lexer = none :=
    foldl_none Output.add (fun _ _ hnone => lexer_add_none hnone) _ hnone
  rw [line]
  split
  · split
    · exact hnone
    · apply hindent
      have hseen : o.seen <+: ({ o with sent := o.sent ++ [log_stream o._str], _str := [] } : Output).seen := by
        simp only [seen, List.flatMap_append, List.flatMap_singleton, List.append_nil, List.prefix_append_right_inj,
          log_stream, Sent.text]
        split <;> simp
      exact lexer_none_of_prefix hseen hnone
  · exact hindent (lexer_add_none hnone)

theorem put_none (hnone : o.lexer = none) (piece : Piece) : (o.put piece).lexer = none := by
  cases piece with
  | string s =>
    apply lexer_add_none
    exact foldl_none Output.escape (fun o c hnone => lexer_escape_none hnone c) _ (lexer_add_none hnone)
  | mark m => exact lexer_add_none hnone
  | bracket level => exact line_none (lexer_add_none hnone) level
  | line level => exact line_none hnone level

/-- Whatever comes behind, the reader stays astray: it reads a token at least
for each that is written. -/
theorem Strays.put {tokens : List Token} (hstrays : o.Strays T tokens) (piece : Piece) :
    (o.put piece).Strays T (tokens ++ piece.tokens) := by
  rcases hstrays with hnone | ⟨read, hat, hlength, hne⟩
  · exact .inl (put_none hnone piece)
  · have hmore : (o.put piece).lexer = none ∨
        ∃ more, (o.put piece).At ⟨T ++ read ++ more, .outside⟩ ∧ piece.tokens.length ≤ more.length := by
      by_cases hfits : piece.fits o.cuts o.plain o._str.length
      · exact .inr ⟨_, (hat.put (fun _ => rfl) hfits).1, le_rfl⟩
      · obtain hnone | ⟨more, hat', hlength', -⟩ := hat.put_strays (fun _ => rfl) hfits
        · exact .inl hnone
        · exact .inr ⟨more, hat', hlength'⟩
    obtain hnone | ⟨more, hat', hlength'⟩ := hmore
    · exact .inl hnone
    · right
      rw [List.append_assoc] at hat'
      refine ⟨read ++ more, hat', ?_, fun heq => hne ?_⟩
      · simp only [List.length_append]
        omega
      · have hsame := congrArg List.length heq
        simp only [List.length_append] at hsame
        exact (List.append_inj heq (by omega)).1

theorem Strays.puts {tokens : List Token} (hstrays : o.Strays T tokens) (pieces : List Piece) :
    (o.puts pieces).Strays T (tokens ++ pieces.flatMap Piece.tokens) := by
  induction pieces generalizing o tokens with
  | nil => simpa [Output.puts] using hstrays
  | cons piece pieces ih =>
    have hrest := ih (hstrays.put piece)
    rwa [List.append_assoc] at hrest

/-- Pieces that all fit are read back as their tokens. -/
theorem At.puts {pieces : List Piece} {column : Nat} (hat : o.At ⟨T, .outside⟩)
    (hcolumn : o.cuts → o._str.length = column) (hfits : AllFit o.cuts o.plain column pieces) :
    (o.puts pieces).At ⟨T ++ pieces.flatMap Piece.tokens, .outside⟩ := by
  induction pieces generalizing o T column with
  | nil => simpa [Output.puts] using hat
  | cons piece pieces ih =>
    obtain ⟨hpiece, hrest⟩ := hfits
    obtain ⟨hat', hcolumn'⟩ := hat.put hcolumn hpiece
    obtain ⟨hcuts, hplain⟩ := put_plain o piece
    rw [← hcuts, ← hplain] at hrest
    have hat'' := ih hat' (fun hcuts' => by rw [hcolumn' (hcuts ▸ hcuts'), hplain]) hrest
    rwa [List.append_assoc] at hat''

/-- Where one of them does not, they are not. -/
theorem At.puts_strays {pieces : List Piece} {column : Nat} (hat : o.At ⟨T, .outside⟩)
    (hcolumn : o.cuts → o._str.length = column) (hmisfit : ¬ AllFit o.cuts o.plain column pieces) :
    (o.puts pieces).Strays T (pieces.flatMap Piece.tokens) := by
  induction pieces generalizing o T column with
  | nil => exact absurd trivial hmisfit
  | cons piece pieces ih =>
    by_cases hpiece : piece.fits o.cuts o.plain column
    · obtain ⟨hat', hcolumn'⟩ := hat.put hcolumn hpiece
      obtain ⟨hcuts, hplain⟩ := put_plain o piece
      have hrest :
          ¬ AllFit (o.put piece).cuts (o.put piece).plain (piece.column (o.put piece).plain column) pieces := by
        rw [hcuts, hplain]
        exact fun hrest => hmisfit ⟨hpiece, hrest⟩
      obtain hnone | ⟨read, hat'', hlength, hne⟩ :=
        ih hat' (fun hcuts' => by rw [hcolumn' (hcuts ▸ hcuts'), hplain]) hrest
      · exact .inl hnone
      · right
        rw [List.append_assoc] at hat''
        refine ⟨piece.tokens ++ read, hat'', by simpa using hlength, fun heq => hne ?_⟩
        exact List.append_cancel_left heq
    · exact (hat.put_strays hcolumn hpiece).puts pieces

end Output

/-- The calls for a tree, `begin` and `end` among them. -/
def Members.allCalls (members : Members) : List Call := .begin_object :: members.calls ++ [.end_object]

/-- All that is written for a tree. -/
def Members.pieces (members : Members) : List Piece :=
  layout 0 false members.allCalls ++ [.line (levelAfter 0 members.allCalls)]

/-- The trees that are written so that they can be read. On a channel whose
text goes out in lines, every string ends by column 100 of the line it begins
in, and no array begins a line. -/
structure Legible (_encapsulate : Bool) (_channel : Option OutChannel) (members : Members) : Prop where
  counted : Counted 0 members.allCalls
  unnamed : members.named = 0
  fits : AllFit (Output.cuts { _encapsulate, _channel }) (Output.plain { _encapsulate, _channel }) 0 members.pieces

variable {_encapsulate : Bool} {_channel : Option OutChannel} {memory : Int → Nat} {members : Members} {o : Output}

theorem Output.received_flush (o : Output) : o.flush.received = o.flush.seen := by
  cases hchannel : o._channel with
  | none => simp [received, seen, hchannel]
  | some channel =>
    have hempty : o.flush._str = [] := by
      simp only [flush, hchannel]
      split
      · assumption
      · rfl
    simp [received, seen, hchannel, hempty]

theorem Output.At.flush {l : Lexer} (hat : o.At l) (houtside : l.mode = .outside) : o.flush.lexer = some l := by
  rw [Output.lexer, seen_flush hat.head]
  split
  · rw [read_concat, show read o.seen = some l from hat.lexer]
    exact step_space houtside rfl
  · rw [List.append_nil]
    exact hat.lexer

/-- The end of the tree is one more place for a line end, and the flush. -/
theorem encode_calls :
    encode memory _encapsulate _channel members.calls =
      (members.allCalls.foldlM JSONencoder.call (JSONencoder.new memory _encapsulate _channel)).map
        fun e => (e.toOutput.line e.level).flush.received := by
  have hend (e : JSONencoder) :
      some e.end_.received = (some e.end_object).map fun e => (e.toOutput.line e.level).flush.received := rfl
  simp only [encode, Members.allCalls, List.cons_append, List.foldlM_cons, List.foldlM_append, Option.bind_eq_bind,
    Option.pure_def, hend, List.foldlM_nil, JSONencoder.call, Option.bind_some, Option.map_bind, Option.map_some,
    Function.comp_def]

theorem JSONencoder.new_stands : (JSONencoder.new memory _encapsulate _channel).Stands false := by
  constructor
  · show (0 : Int) < 16
    omega
  · intro _
    simp [new]
  · intro level hnonneg hlt
    have hzero : (new memory _encapsulate _channel).level = 0 := rfl
    omega

theorem encode_none (hcounted : ¬ Counted 0 members.allCalls) :
    encode memory _encapsulate _channel members.calls = none := by
  rw [encode_calls, JSONencoder.new_stands.foldlM_call_none hcounted]
  rfl

theorem encode_some (hcounted : Counted 0 members.allCalls) :
    encode memory _encapsulate _channel members.calls =
      some (Output.puts { _encapsulate, _channel } members.pieces).flush.received := by
  have hstands : (JSONencoder.new memory _encapsulate _channel).Stands false := JSONencoder.new_stands
  obtain ⟨e, hcalls, houtput, hlevel⟩ := hstands.foldlM_call hcounted
  rw [encode_calls, hcalls, Option.map_some, houtput, hlevel, Members.pieces, Output.puts_append]
  rfl

/-- The tokens written are those of the tree, where no object has been named
through `begin_member`. -/
theorem Members.pieces_tokens (hunnamed : members.named = 0) :
    members.pieces.flatMap Piece.tokens = (Json.Value.object members.json).tokens := by
  have hfirst : Call.started .begin_object = false := rfl
  rw [pieces, List.flatMap_append, layout_tokens, allCalls, List.cons_append, callTokens, hfirst,
    members.callTokens_calls false _ hunnamed]
  simp [Call.tokens, separator, Piece.tokens, callTokens, Value.tokens]

/-- Otherwise there are too many. -/
theorem Members.pieces_length (members : Members) :
    (members.pieces.flatMap Piece.tokens).length =
      (Json.Value.object members.json).tokens.length + members.named := by
  rw [pieces, List.flatMap_append, layout_tokens, allCalls, List.cons_append, callTokens, List.length_append,
    List.length_append, members.length_calls]
  simp only [Call.tokens, Call.started, separator, Piece.tokens, callTokens, Value.tokens, List.length_append,
    List.length_cons, List.length_nil, List.flatMap_singleton, Bool.false_eq_true, if_false, List.cons_append]
  omega

theorem Output.start_at : Output.At { _encapsulate, _channel } Lexer.start where
  lexer := rfl
  short _ := by simp
  head _ := by simp

/-- A tree comes out as a valid text that decodes to it exactly where every
string is free of control characters without an escape, no object is named
through `begin_member`, the nesting never takes the level below zero, and no
line is cut within a string. -/
theorem encode_decodes_iff :
    (∃ text, encode memory _encapsulate _channel members.calls = some text ∧
        ∀ v, Denotes text v ↔ v = .object members.json) ↔
      Legible _encapsulate _channel members := by
  have hstart : Output.At { _encapsulate, _channel } ⟨[], .outside⟩ := Output.start_at
  constructor
  · rintro ⟨text, hencode, hdenotes⟩
    have hdenoted : Denotes text (.object members.json) := (hdenotes _).mpr rfl
    have hcounted : Counted 0 members.allCalls := by
      by_contra hcounted
      rw [encode_none hcounted] at hencode
      cases hencode
    rw [encode_some hcounted, Option.some.injEq, Output.received_flush] at hencode
    have hlexer : (Output.puts { _encapsulate, _channel } members.pieces).flush.lexer =
        some ⟨(Json.Value.object members.json).tokens, .outside⟩ := by
      rw [Output.lexer, hencode]
      exact hdenoted
    have hlength := members.pieces_length
    by_cases hfits : AllFit (Output.cuts { _encapsulate, _channel }) (Output.plain { _encapsulate, _channel }) 0
        members.pieces
    · refine ⟨hcounted, ?_, hfits⟩
      have hflush := (hstart.puts (fun _ => rfl) hfits).flush rfl
      rw [hlexer] at hflush
      simp only [Option.some.injEq, Lexer.mk.injEq, List.nil_append, and_true] at hflush
      rw [← hflush] at hlength
      omega
    · exfalso
      obtain hnone | ⟨read, hat, hmore, hne⟩ := hstart.puts_strays (fun _ => rfl) hfits
      · rw [Output.lexer_none_of_prefix (Output.seen_flush_prefix _) hnone] at hlexer
        cases hlexer
      · have hflush := hat.flush rfl
        rw [hlexer] at hflush
        simp only [Option.some.injEq, Lexer.mk.injEq, List.nil_append, and_true] at hflush
        rw [← hflush] at hmore hne
        have hunnamed : members.named = 0 := by omega
        exact hne (Members.pieces_tokens hunnamed).symm
  · rintro ⟨hcounted, hunnamed, hfits⟩
    refine ⟨_, encode_some hcounted, fun v => ?_⟩
    have hflush := (hstart.puts (fun _ => rfl) hfits).flush rfl
    rw [List.nil_append, Members.pieces_tokens hunnamed, Output.lexer, ← Output.received_flush] at hflush
    constructor
    · intro hdenotes
      exact hdenotes.unique hflush
    · rintro rfl
      exact hflush

/-- A control character in a value goes out as it is. -/
theorem control_character_is_not_escaped :
    ¬ ∃ text, encode (fun _ => 0) false none (Members.member [0x61] [0x01] .nil).calls = some text ∧
      ∀ v, Denotes text v ↔ v = .object (Members.member [0x61] [0x01] .nil).json := by
  rintro ⟨text, hencode, hdenotes⟩
  have hdenoted := (hdenotes _).mpr rfl
  have htext : encode (fun _ => 0) false none (Members.member [0x61] [0x01] .nil).calls =
      some [0x7b, 0x22, 0x61, 0x22, 0x3a, 0x22, 0x01, 0x22, 0x0a, 0x7d, 0x0a] := by decide
  rw [htext, Option.some.injEq] at hencode
  rw [← hencode] at hdenoted
  exact absurd hdenoted (by decide)

end DuneWeaver
