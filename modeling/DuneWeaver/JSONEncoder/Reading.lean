import DuneWeaver.JSONEncoder.Layout
import Mathlib.Algebra.GroupWithZero.Nat

open Json

namespace DuneWeaver

section Nesting

variable {e : JSONencoder} {started : Bool}

/-- The encoder's count agrees with its place in the tree: none for this level
where nothing has been begun in it, and one at least for the levels around it. -/
structure JSONencoder.Stands (e : JSONencoder) (started : Bool) : Prop where
  below : e.level < MAX_JSON_LEVEL
  counted : 0 ≤ e.level → (e.count e.level ≠ 0 ↔ started = true)
  outer : ∀ level, 0 ≤ level → level < e.level → e.count level ≠ 0

/-- What has been written, the pieces in turn. -/
def Output.puts (o : Output) (pieces : List Piece) : Output := pieces.foldl Output.put o

@[simp] theorem Output.puts_append (o : Output) (pieces more : List Piece) :
    o.puts (pieces ++ more) = (o.puts pieces).puts more := List.foldl_append

theorem JSONencoder.comma_line_none (hbelow : e.level < 0) : e.comma_line = none := by
  rw [comma_line, if_neg]
  omega

theorem JSONencoder.Stands.comma_line (hstands : e.Stands started) (hlevel : 0 ≤ e.level) :
    ∃ e', e.comma_line = some e' ∧ e'.toOutput = e.toOutput.puts (separate e.level started) ∧
      e'.level = e.level ∧ e'.Stands true := by
  rw [JSONencoder.comma_line, if_pos ⟨hlevel, hstands.below⟩]
  refine ⟨_, rfl, ?_, ?_, ?_⟩
  · have hcounted := hstands.counted hlevel
    cases started with
    | false =>
      rw [if_neg (fun hcount => Bool.false_ne_true (hcounted.mp hcount))]
      rfl
    | true =>
      rw [if_pos (hcounted.mpr rfl)]
      rfl
  · split <;> rfl
  · have hsame : (if e.count e.level ≠ 0 then e.text fun o => (o.add 0x2c).line e.level else e).level = e.level ∧
        (if e.count e.level ≠ 0 then e.text fun o => (o.add 0x2c).line e.level else e).count = e.count := by
      split <;> exact ⟨rfl, rfl⟩
    constructor
    · simpa only [hsame.1] using hstands.below
    · intro _
      simp
    · intro level hnonneg hlt
      simp only [hsame.1, hsame.2] at hlt ⊢
      rw [Function.update_of_ne (by omega)]
      exact hstands.outer level hnonneg hlt

/-- Text alone leaves the encoder where it stands. -/
theorem JSONencoder.Stands.text (hstands : e.Stands started) (f : Output → Output) : (e.text f).Stands started :=
  ⟨hstands.below, hstands.counted, hstands.outer⟩

theorem JSONencoder.inc_level_level (e : JSONencoder) : e.inc_level.level = raise e.level := by
  simp only [inc_level, raise]
  split <;> omega

/-- Inside what has just been begun nothing stands yet, even where the level
has not been raised. -/
theorem JSONencoder.Stands.inc_level (hstands : e.Stands true) (hlevel : 0 ≤ e.level) : e.inc_level.Stands false := by
  have hraise := e.inc_level_level
  have hcount : e.inc_level.count = Function.update e.count e.inc_level.level 0 := rfl
  constructor
  · rw [hraise]
    exact raise_lt hstands.below
  · intro _
    simp [hcount]
  · intro level hnonneg hlt
    rw [hcount, Function.update_of_ne (by omega)]
    rw [hraise, raise] at hlt
    by_cases heq : level = e.level
    · rw [heq]
      exact (hstands.counted hlevel).mpr rfl
    · apply hstands.outer level hnonneg
      split at hlt <;> omega

/-- Behind what has just ended an item stands, whatever the level was. -/
theorem JSONencoder.Stands.dec_level (hstands : e.Stands started) : e.dec_level.Stands true := by
  have hlevel : e.dec_level.level = e.level - 1 := rfl
  constructor
  · have hbelow := hstands.below
    omega
  · intro hnonneg
    rw [hlevel] at hnonneg ⊢
    have hcount := hstands.outer (e.level - 1) hnonneg (by omega)
    exact ⟨fun _ => rfl, fun _ => hcount⟩
  · intro level hnonneg hlt
    exact hstands.outer level hnonneg (by omega)

/-- Every call writes its layout and moves to the place after it. -/
theorem JSONencoder.Stands.call (hstands : e.Stands started) (call : Call) (hlevel : call.item → 0 ≤ e.level) :
    ∃ e', e.call call = some e' ∧ e'.toOutput = e.toOutput.puts (call.layout e.level started) ∧
      e'.level = call.level e.level ∧ e'.Stands call.started := by
  cases call with
  | end_object =>
    have hstands' := hstands.dec_level.text fun o => (o.line (e.level - 1)).add 0x7d
    exact ⟨e.end_object, rfl, rfl, rfl, hstands'⟩
  | end_array =>
    have hstands' := hstands.dec_level.text fun o => (o.line (e.level - 1)).add 0x5d
    exact ⟨e.end_array, rfl, rfl, rfl, hstands'⟩
  | begin_object =>
    obtain ⟨e', hcomma, houtput, hsame, hstands'⟩ := hstands.comma_line (hlevel rfl)
    refine ⟨(e'.text (·.add 0x7b)).inc_level, ?_, ?_, ?_, (hstands'.text _).inc_level ?_⟩
    · simp [JSONencoder.call, begin_object, hcomma]
    · rw [Call.layout, Output.puts_append, ← houtput]
      rfl
    · rw [inc_level_level, ← hsame]
      rfl
    · exact hsame ▸ hlevel rfl
  | begin_member_object tag =>
    obtain ⟨e', hcomma, houtput, hsame, hstands'⟩ := hstands.comma_line (hlevel rfl)
    refine ⟨(e'.text fun o => ((o.quoted tag).add 0x3a).add 0x7b).inc_level, ?_, ?_, ?_,
      (hstands'.text _).inc_level ?_⟩
    · simp [JSONencoder.call, begin_member_object, hcomma]
    · rw [Call.layout, Output.puts_append, ← houtput]
      rfl
    · rw [inc_level_level, ← hsame]
      rfl
    · exact hsame ▸ hlevel rfl
  | begin_array tag =>
    obtain ⟨e', hcomma, houtput, hsame, hstands'⟩ := hstands.comma_line (hlevel rfl)
    refine ⟨(((e'.text fun o => (o.quoted tag).add 0x3a).text (·.add 0x5b)).inc_level).text (·.line (raise e.level)),
      ?_, ?_, ?_, (((hstands'.text _).text _).inc_level ?_).text _⟩
    · have hraise := (((e'.text fun o => (o.quoted tag).add 0x3a).text (·.add 0x5b))).inc_level_level
      simp only [JSONencoder.call, begin_array, begin_member, hcomma, Option.bind_eq_bind, Option.bind_some,
        Option.pure_def, hraise]
      rw [← hsame]
      rfl
    · rw [Call.layout, Output.puts_append, ← houtput]
      rfl
    · rw [← hsame]
      exact inc_level_level _
    · exact hsame ▸ hlevel rfl
  | begin_member tag =>
    obtain ⟨e', hcomma, houtput, hsame, hstands'⟩ := hstands.comma_line (hlevel rfl)
    refine ⟨e'.text fun o => (o.quoted tag).add 0x3a, ?_, ?_, hsame, hstands'.text _⟩
    · simp [JSONencoder.call, begin_member, hcomma]
    · rw [Call.layout, Output.puts_append, ← houtput]
      rfl
  | member tag value =>
    obtain ⟨e', hcomma, houtput, hsame, hstands'⟩ := hstands.comma_line (hlevel rfl)
    refine ⟨(e'.text fun o => (o.quoted tag).add 0x3a).text (·.quoted value), ?_, ?_, hsame,
      (hstands'.text _).text _⟩
    · simp [JSONencoder.call, member, begin_member, hcomma]
    · rw [Call.layout, Output.puts_append, ← houtput]
      rfl
  | string s =>
    obtain ⟨e', hcomma, houtput, hsame, hstands'⟩ := hstands.comma_line (hlevel rfl)
    refine ⟨e'.text (·.quoted s), ?_, ?_, hsame, hstands'.text _⟩
    · simp [JSONencoder.call, JSONencoder.string, hcomma]
    · rw [Call.layout, Output.puts_append, ← houtput]
      rfl

theorem JSONencoder.call_none {call : Call} (hitem : call.item = true) (hbelow : e.level < 0) : e.call call = none := by
  have hcomma := comma_line_none hbelow
  cases call with
  | end_object => cases hitem
  | end_array => cases hitem
  | begin_object => simp [call, begin_object, hcomma]
  | begin_array tag => simp [call, begin_array, begin_member, hcomma]
  | begin_member_object tag => simp [call, begin_member_object, hcomma]
  | begin_member tag => simp [call, begin_member, hcomma]
  | member tag value => simp [call, member, begin_member, hcomma]
  | string s => simp [call, JSONencoder.string, hcomma]

/-- A run of calls that begins no item below level 0 writes its layout. -/
theorem JSONencoder.Stands.foldlM_call {calls : List Call} (hstands : e.Stands started)
    (hcounted : Counted e.level calls) :
    ∃ e', calls.foldlM JSONencoder.call e = some e' ∧ e'.toOutput = e.toOutput.puts (layout e.level started calls) ∧
      e'.level = levelAfter e.level calls := by
  induction calls generalizing e started with
  | nil => exact ⟨e, rfl, rfl, rfl⟩
  | cons call calls ih =>
    obtain ⟨e', hcall, houtput, hlevel, hstands'⟩ := hstands.call call hcounted.1
    rw [Counted, ← hlevel] at hcounted
    obtain ⟨e'', hcalls, houtput', hlevel'⟩ := ih hstands' hcounted.2
    refine ⟨e'', ?_, ?_, ?_⟩
    · simp only [List.foldlM_cons, hcall, Option.bind_eq_bind, Option.bind_some, hcalls]
    · rw [layout, Output.puts_append, ← houtput, ← hlevel, houtput']
    · rw [hlevel', levelAfter, levelAfter, List.foldl_cons, hlevel]

/-- A run that begins an item below level 0 reads the counts out of bounds. -/
theorem JSONencoder.Stands.foldlM_call_none {calls : List Call} (hstands : e.Stands started)
    (hcounted : ¬ Counted e.level calls) :
    calls.foldlM JSONencoder.call e = none := by
  induction calls generalizing e started with
  | nil => exact absurd trivial hcounted
  | cons call calls ih =>
    by_cases hitem : call.item = true → 0 ≤ e.level
    · obtain ⟨e', hcall, -, hlevel, hstands'⟩ := hstands.call call hitem
      simp only [List.foldlM_cons, hcall, Option.bind_eq_bind, Option.bind_some]
      apply ih hstands'
      intro hcounted'
      rw [hlevel] at hcounted'
      exact hcounted ⟨hitem, hcounted'⟩
    · rw [Classical.not_imp] at hitem
      have hnone := call_none hitem.1 (Int.lt_of_not_ge hitem.2)
      simp only [List.foldlM_cons, hnone, Option.bind_eq_bind, Option.bind_none]

end Nesting

namespace Output

variable {o : Output} {l l' : Lexer} {c : UInt8}

/-- The text with what still waits in the buffer behind it. -/
def seen (o : Output) : Bytes := o.sent.flatMap Sent.text ++ o._str

def lexer (o : Output) : Option Lexer := read o.seen

/-- Text goes out in lines of its own through `log_stream`. -/
def plain (o : Output) : Bool := o._channel.isSome && !o._encapsulate

/-- A full buffer leaves a line end in the text. -/
def cuts (o : Output) : Bool := o.plain || o._channel == some .Channel

/-- The reader of all that is seen stands at `l`, and the buffer is as it is
between two pieces. -/
structure At (o : Output) (l : Lexer) : Prop where
  lexer : o.lexer = some l
  short : o.cuts → o._str.length < 100
  head : o.plain → o._str.head? ≠ some 0x5b

theorem cuts_of_plain (hplain : o.plain) : o.cuts := by rw [cuts, hplain, Bool.true_or]

@[simp] theorem flush_channel (o : Output) : o.flush._channel = o._channel := by
  rw [flush]
  split
  · split <;> simp_all
  · rfl

@[simp] theorem flush_encapsulate (o : Output) : o.flush._encapsulate = o._encapsulate := by
  rw [flush]
  split
  · split <;> rfl
  · rfl

@[simp] theorem add_channel (o : Output) (c : UInt8) : (o.add c)._channel = o._channel := by
  simp only [add]
  split
  · exact flush_channel _
  · rfl

@[simp] theorem add_encapsulate (o : Output) (c : UInt8) : (o.add c)._encapsulate = o._encapsulate := by
  simp only [add]
  split
  · exact flush_encapsulate _
  · rfl

@[simp] theorem add_plain (o : Output) (c : UInt8) : (o.add c).plain = o.plain := by
  simp only [plain, add_channel, add_encapsulate]

@[simp] theorem add_cuts (o : Output) (c : UInt8) : (o.add c).cuts = o.cuts := by
  simp only [cuts, add_plain, add_channel]

/-- What a flush adds to the text. -/
theorem seen_flush (hhead : o.plain → o._str.head? ≠ some 0x5b) :
    o.flush.seen = o.seen ++ if o.cuts = true ∧ o._str ≠ [] then [0x0a] else [] := by
  rw [flush]
  split
  · rename_i channel hchannel
    by_cases hempty : o._str = []
    · rw [if_pos hempty, if_neg fun hcut => hcut.2 hempty, List.append_nil]
    · rw [if_neg hempty]
      cases hencapsulate : o._encapsulate with
      | false =>
        have hplain : o.plain := by simp [plain, hchannel, hencapsulate]
        simp [seen, log_stream, hhead hplain, Sent.text, cuts_of_plain hplain, hempty]
      | true =>
        have hplain : o.plain = false := by simp [plain, hencapsulate]
        cases channel <;> simp [seen, OutChannel.out_acked, Sent.text, cuts, hplain, hchannel, hempty]
  · rename_i hchannel
    have hcuts : o.cuts = false := by simp [cuts, plain, hchannel]
    simp [hcuts]

theorem seen_flush_prefix (o : Output) : o.seen <+: o.flush.seen := by
  rw [flush]
  split
  · rename_i channel hchannel
    split
    · exact List.prefix_rfl
    · simp only [seen, List.flatMap_append, List.flatMap_singleton, List.append_nil, List.prefix_append_right_inj]
      split
      · cases channel <;> simp [OutChannel.out_acked, Sent.text]
      · rw [log_stream, Sent.text]
        split <;> simp
  · exact List.prefix_rfl

/-- The buffer with a character behind it. -/
theorem seen_append (o : Output) (c : UInt8) : ({ o with _str := o._str ++ [c] } : Output).seen = o.seen ++ [c] := by
  simp [seen]

theorem seen_add_prefix (o : Output) (c : UInt8) : o.seen ++ [c] <+: (o.add c).seen := by
  rw [← seen_append, add]
  split
  · exact seen_flush_prefix _
  · exact List.prefix_rfl

theorem head_append (hhead : o.plain → o._str.head? ≠ some 0x5b) (hc : o.plain → c = 0x5b → o._str ≠ [])
    (hplain : o.plain) : (o._str ++ [c]).head? ≠ some 0x5b := by
  have hhead := hhead hplain
  have hc := hc hplain
  cases hstr : o._str with
  | nil =>
    simp only [hstr, List.nil_append, List.head?_cons, ne_eq, Option.some.injEq] at hc ⊢
    exact fun heq => hc heq trivial
  | cons b rest => simpa [hstr] using hhead

theorem seen_add (hhead : o.plain → o._str.head? ≠ some 0x5b) (hc : o.plain → c = 0x5b → o._str ≠ []) :
    (o.add c).seen = o.seen ++ [c] ++ if o.cuts = true ∧ 99 ≤ o._str.length then [0x0a] else [] := by
  have hflush : ({ o with _str := o._str ++ [c] } : Output).flush.seen =
      o.seen ++ [c] ++ if o.cuts = true ∧ o._str ++ [c] ≠ [] then [0x0a] else [] := by
    rw [seen_flush, seen_append]
    · rfl
    · exact fun hplain => head_append hhead hc hplain
  simp only [add, List.length_append, List.length_singleton]
  split
  · rename_i hfull
    rw [hflush]
    simp only [ne_eq, List.append_eq_nil_iff, List.cons_ne_self, and_false, not_false_eq_true, and_true]
    congr 1
    have hlength : 99 ≤ o._str.length := by omega
    simp only [hlength, and_true]
  · rename_i hfull
    rw [if_neg, List.append_nil, seen_append]
    rintro ⟨hcuts, hlength⟩
    apply hfull
    refine ⟨?_, by omega⟩
    cases hchannel : o._channel with
    | none => simp [cuts, plain, hchannel] at hcuts
    | some channel => rfl

theorem length_add (hcuts : o.cuts) (hshort : o._str.length < 100) :
    (o.add c)._str.length = (o._str.length + 1) % 100 := by
  have hchannel : ∃ channel, o._channel = some channel := by
    cases hchannel : o._channel with
    | none => simp [cuts, plain, hchannel] at hcuts
    | some channel => exact ⟨channel, rfl⟩
  obtain ⟨channel, hchannel⟩ := hchannel
  simp only [add, List.length_append, List.length_singleton]
  split
  · rename_i hfull
    have hlength : o._str.length = 99 := by omega
    simp [flush, hchannel, hlength]
  · rename_i hfull
    simp only [hchannel, Option.isSome_some, true_and, not_le] at hfull
    simp only [List.length_append, List.length_singleton]
    omega

/-- A character that the reader takes: where a line end falls behind it, it may
not stand inside a string. -/
theorem At.add (hat : o.At l) (hstep : l.step c = some l') (hc : o.plain → c = 0x5b → o._str ≠ [])
    (hroom : o.cuts → o._str.length + 1 < 100 ∨ l'.mode = .outside) : (o.add c).At l' := by
  have hseen := seen_add hat.head hc
  have hread : read (o.seen ++ [c]) = some l' := by
    rw [read_concat, show read o.seen = some l from hat.lexer]
    exact hstep
  constructor
  · rw [Output.lexer, hseen]
    split
    · rename_i hcut
      have houtside := (hroom hcut.1).resolve_left (by omega)
      rw [read_concat, hread]
      exact step_space houtside rfl
    · rw [List.append_nil]
      exact hread
  · intro hcuts
    rw [add_cuts] at hcuts
    rw [length_add hcuts (hat.short hcuts)]
    exact Nat.mod_lt _ (by omega)
  · intro hplain
    rw [add_plain] at hplain
    have hhead := head_append hat.head hc hplain
    simp only [Output.add]
    split
    · rw [flush]
      split
      · split <;> simp_all
      · exact hhead
    · exact hhead

/-- A line end inside a string breaks it. -/
theorem At.add_cut (hat : o.At l) (hstep : l.step c = some l') (hc : o.plain → c = 0x5b → o._str ≠ [])
    (hcuts : o.cuts) (hfull : 99 ≤ o._str.length) (hmode : l'.mode ≠ .outside) : (o.add c).lexer = none := by
  rw [Output.lexer, seen_add hat.head hc, if_pos ⟨hcuts, hfull⟩, read_concat, read_concat,
    show read o.seen = some l from hat.lexer]
  simp only [Option.bind_some, hstep]
  cases hmode' : l'.mode with
  | outside => exact absurd hmode' hmode
  | inside s => exact step_newline (.inl hmode')
  | escaped s => exact step_newline (.inr hmode')

theorem lexer_none_of_prefix {o' : Output} {text : Bytes} (hseen : text <+: o'.seen) (hnone : read text = none) :
    o'.lexer = none := by
  obtain ⟨more, heq⟩ := hseen
  rw [lexer, ← heq, read_append, hnone, Option.bind_none]

theorem At.add_none (hat : o.At l) (hstep : l.step c = none) : (o.add c).lexer = none := by
  apply lexer_none_of_prefix (o.seen_add_prefix c)
  rw [read_concat, show read o.seen = some l from hat.lexer]
  exact hstep

/-- What the reader has given up stays given up. -/
theorem lexer_add_none (hnone : o.lexer = none) : (o.add c).lexer = none := by
  apply lexer_none_of_prefix ((List.prefix_append _ _).trans (o.seen_add_prefix c))
  exact hnone

/-- Whether `quoted` puts a backslash in front. -/
def escapes (c : UInt8) : Bool :=
  c = 0x08 || c = 0x0a || c = 0x0c || c = 0x0d || c = 0x09 || c = 0x22 || c = 0x5c

/-- Whether `quoted` writes `c` in a way that JSON reads as `c`. -/
def spelled (c : UInt8) : Bool := 0x20 ≤ c || escapes c

def byteWidth (c : UInt8) : Nat := if escapes c then 2 else 1

/-- The characters of a quoted string, the quotes among them. -/
def width (s : Bytes) : Nat := (s.map byteWidth).sum + 2

theorem escape_of_escapes (hescapes : escapes c) (o : Output) :
    ∃ letter, unescape letter = some c ∧ letter ≠ 0x5b ∧ o.escape c = (o.add 0x5c).add letter := by
  simp only [escapes, Bool.or_eq_true, decide_eq_true_eq] at hescapes
  obtain (((((rfl | rfl) | rfl) | rfl) | rfl) | rfl) | rfl := hescapes <;>
    exact ⟨_, rfl, by decide, rfl⟩

theorem escape_of_not_escapes (hescapes : escapes c = false) (o : Output) : o.escape c = o.add c := by
  simp only [escapes, Bool.or_eq_false_iff, decide_eq_false_iff_not] at hescapes
  obtain ⟨⟨⟨⟨⟨⟨h8, ha⟩, hc⟩, hd⟩, h9⟩, h22⟩, h5c⟩ := hescapes
  rw [escape, if_neg h8, if_neg ha, if_neg hc, if_neg hd, if_neg h9, if_neg h22, if_neg h5c]

theorem step_inside {T : List Token} {s : Bytes} (hescapes : escapes c = false) :
    Lexer.step ⟨T, .inside s⟩ c = if c < 0x20 then none else some ⟨T, .inside (s ++ [c])⟩ := by
  simp only [escapes, Bool.or_eq_false_iff, decide_eq_false_iff_not] at hescapes
  simp [Lexer.step, hescapes]

/-- The escapes and the plain characters that fit in the line are read back. -/
theorem At.escape {T : List Token} {s : Bytes} (hat : o.At ⟨T, .inside s⟩) (hopen : o.cuts → 0 < o._str.length)
    (hspelled : spelled c) (hroom : o.cuts → o._str.length + byteWidth c < 100) :
    (o.escape c).At ⟨T, .inside (s ++ [c])⟩ ∧ (o.cuts → (o.escape c)._str.length = o._str.length + byteWidth c) := by
  have hnonempty : o.plain → o._str ≠ [] := fun hplain =>
    List.ne_nil_of_length_pos (hopen (cuts_of_plain hplain))
  cases hescapes : escapes c with
  | true =>
    obtain ⟨letter, hletter, hbracket, heq⟩ := escape_of_escapes hescapes o
    rw [byteWidth, hescapes, if_pos rfl] at hroom
    rw [byteWidth, hescapes, if_pos rfl, heq]
    have hback : (o.add 0x5c).At ⟨T, .escaped s⟩ :=
      hat.add rfl (by simp) fun hcuts => .inl (by have := hroom hcuts; omega)
    have hlength : o.cuts → (o.add 0x5c)._str.length = o._str.length + 1 := fun hcuts => by
      have hlt := hroom hcuts
      rw [length_add hcuts (by omega), Nat.mod_eq_of_lt (by omega)]
    refine ⟨hback.add ?_ (fun _ hc => absurd hc hbracket) fun hcuts => .inl ?_, fun hcuts => ?_⟩
    · simp [Lexer.step, hletter]
    · rw [add_cuts] at hcuts
      have hlt := hroom hcuts
      rw [hlength hcuts]
      omega
    · have hlt := hroom hcuts
      rw [length_add ((add_cuts o _).trans hcuts) (by rw [hlength hcuts]; omega), hlength hcuts,
        Nat.mod_eq_of_lt (by omega)]
  | false =>
    rw [byteWidth, hescapes, if_neg Bool.false_ne_true] at hroom
    rw [byteWidth, hescapes, if_neg Bool.false_ne_true, escape_of_not_escapes hescapes]
    have hcontrol : ¬ c < 0x20 := by
      simpa [spelled, hescapes] using hspelled
    refine ⟨hat.add ?_ (fun hplain _ => hnonempty hplain) fun hcuts => .inl (hroom hcuts), fun hcuts => ?_⟩
    · rw [step_inside hescapes, if_neg hcontrol]
    · have hlt := hroom hcuts
      rw [length_add hcuts (by omega), Nat.mod_eq_of_lt (by omega)]

/-- Any other control character, and any character that reaches the end of the
line, is one the reader cannot take. -/
theorem At.escape_none {T : List Token} {s : Bytes} (hat : o.At ⟨T, .inside s⟩) (hopen : o.cuts → 0 < o._str.length)
    (hmisfit : ¬ (spelled c ∧ (o.cuts → o._str.length + byteWidth c < 100))) : (o.escape c).lexer = none := by
  have hnonempty : o.plain → o._str ≠ [] := fun hplain =>
    List.ne_nil_of_length_pos (hopen (cuts_of_plain hplain))
  cases hescapes : escapes c with
  | true =>
    obtain ⟨letter, hletter, hbracket, heq⟩ := escape_of_escapes hescapes o
    rw [heq]
    simp only [spelled, hescapes, Bool.or_true, true_and, Classical.not_imp, not_lt, byteWidth, if_true] at hmisfit
    obtain ⟨hcuts, hfull⟩ := hmisfit
    by_cases hlast : 99 ≤ o._str.length
    · apply lexer_add_none
      exact hat.add_cut rfl (by simp) hcuts hlast (by simp)
    · have hback : (o.add 0x5c).At ⟨T, .escaped s⟩ := hat.add rfl (by simp) fun _ => .inl (by omega)
      have hstep : Lexer.step ⟨T, .escaped s⟩ letter = some ⟨T, .inside (s ++ [c])⟩ := by
        simp [Lexer.step, hletter]
      apply hback.add_cut hstep (fun _ hc => absurd hc hbracket)
      · rw [add_cuts]
        exact hcuts
      · rw [length_add hcuts (hat.short hcuts), Nat.mod_eq_of_lt (by omega)]
        omega
      · simp
  | false =>
    rw [escape_of_not_escapes hescapes]
    simp only [byteWidth, hescapes, Bool.false_eq_true, if_false] at hmisfit
    by_cases hcontrol : c < 0x20
    · apply hat.add_none
      rw [step_inside hescapes, if_pos hcontrol]
    · have hspelled : spelled c := by simpa [spelled, hescapes] using hcontrol
      simp only [hspelled, true_and, Classical.not_imp, not_lt] at hmisfit
      have hstep : Lexer.step ⟨T, .inside s⟩ c = some ⟨T, .inside (s ++ [c])⟩ := by
        rw [step_inside hescapes, if_neg hcontrol]
      exact hat.add_cut hstep (fun hplain _ => hnonempty hplain) hmisfit.1 (by omega) (by simp)

end Output

end DuneWeaver
