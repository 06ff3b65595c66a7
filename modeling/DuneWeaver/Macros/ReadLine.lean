import DuneWeaver.Channel.Channel
import DuneWeaver.Lines.Pieces
import DuneWeaver.Stores

namespace DuneWeaver

def overrideCodes : List (Bytes × Cmd) := [
  (bytes "fr", .FeedOvrReset),
  (bytes "f>", .FeedOvrCoarsePlus),
  (bytes "f<", .FeedOvrCoarseMinus),
  (bytes "f+", .FeedOvrFinePlus),
  (bytes "f-", .FeedOvrFineMinus),
  (bytes "rr", .RapidOvrReset),
  (bytes "rm", .RapidOvrMedium),
  (bytes "rl", .RapidOvrLow),
  (bytes "rx", .RapidOvrExtraLow),
  (bytes "sr", .SpindleOvrReset),
  (bytes "s>", .SpindleOvrCoarsePlus),
  (bytes "s<", .SpindleOvrCoarseMinus),
  (bytes "s+", .SpindleOvrFinePlus),
  (bytes "s-", .SpindleOvrFineMinus),
  (bytes "ss", .SpindleOvrStop),
  (bytes "ft", .CoolantFloodOvrToggle),
  (bytes "mt", .CoolantMistOvrToggle)]

/-- `Cmd::None` is `none`. -/
def findOverride (name : Bytes) : Option Cmd := overrideCodes.lookup name

/-- The command of the escape that a character of a macro opens, if it opens one with what stands behind it. -/
def escape (c : UInt8) (gcode : Bytes) : Option Cmd :=
  if c = 0x23 ∧ 2 ≤ gcode.length then findOverride (gcode.take 2) else none

/-- A `MacroChannel`: what is left of its macro, the commands that it has executed, and the members that reading lines
works with. -/
structure MacroChannel where
  gcode : Bytes
  executed : List Cmd := []
  line_number : Nat := 0
  blank_lines : Nat := 0
  pending_error : Error := .Ok
  percent : Bool := false
  ended : Bool := false
  deriving DecidableEq

namespace MacroChannel

/-- The loop of `readLine`, with the commands that it executes. It gives whether the line is too long, and stops in
front of a store outside of the buffer. -/
def read_loop (maxlen : Nat) (line : Bytes) (len : Nat) (executed : List Cmd) :
    Bytes → Option (Bool × Bytes × Nat × List Cmd × Bytes)
  | [] => some (false, line, len, executed, [])
  | c :: gcode =>
    if len ≥ maxlen then some (true, line, len, executed, c :: gcode)
    else match escape c gcode with
      | some cmd => read_loop maxlen line len (executed ++ [cmd]) (gcode.drop 2)
      | none =>
        if c = 0x26 ∨ c = 0x0a then some (false, line, len, executed, gcode)
        else (store line len c).bind fun line => read_loop maxlen line (len + 1) executed gcode
termination_by gcode => gcode.length
decreasing_by
  · simp only [List.length_drop, List.length_cons]
    omega
  · exact Nat.lt_succ_self _

/-- Count a line of `len` characters. -/
def count_line (len : Nat) (channel : MacroChannel) : MacroChannel :=
  { channel with
    line_number := channel.line_number + 1
    blank_lines := if len = 0 then channel.blank_lines + 1 else channel.blank_lines }

def readLine (maxlen : Nat) (line : Bytes) (channel : MacroChannel) : Option (Error × Bytes × MacroChannel) :=
  (read_loop maxlen line 0 [] channel.gcode).bind fun (exceeded, line, len, executed, gcode) =>
    let channel := { channel with gcode, executed := channel.executed ++ executed }
    if exceeded = true then some (.LineLengthExceeded, line, channel)
    else (store line len 0).map fun line =>
      (if len ≠ 0 then .Ok else .Eof, line, channel.count_line len)

def maxLine : Nat := 255

/-- `pollLine` but for the report of the progress. -/
def pollLine (line : Option Bytes) (channel : MacroChannel) : Option (Error × Option Bytes × MacroChannel) :=
  match line with
  | none => some (.NoData, none, channel)
  | some line =>
    if channel.pending_error ≠ .Ok then some (channel.pending_error, some line, channel)
    else
      let ended := channel.ended || (channel.percent && channel.line_number ≠ channel.blank_lines + 1)
      let channel := { channel with percent := false, ended }
      if ended = true then some (.Eof, some line, channel)
      else (channel.readLine maxLine line).map fun (err, line, channel) => (err, some line, channel)

/-- At most `n` calls of `readLine`, up to the first that delivers no line: the lines, and what it says. -/
@[grind =] def deliver (maxlen : Nat) : Nat → Bytes → MacroChannel → Option (List Bytes × Error × MacroChannel)
  | 0, _, channel => some ([], .Ok, channel)
  | n + 1, line, channel =>
    (channel.readLine maxlen line).bind fun (err, line, channel) =>
      if err = .Ok then (channel.deliver maxlen n line).map fun (lines, last) => (c_str line :: lines, last)
      else some ([], err, channel)

/-- What a macro is made of. -/
inductive Item where
  | char (c : UInt8)
  | realtime (cmd : Cmd)
  | separator
  deriving DecidableEq

@[grind =] def items : Bytes → List Item
  | [] => []
  | c :: gcode => match escape c gcode with
    | some cmd => .realtime cmd :: items (gcode.drop 2)
    | none => (if c = 0x26 ∨ c = 0x0a then .separator else .char c) :: items gcode
termination_by gcode => gcode.length
decreasing_by
  · simp only [List.length_drop, List.length_cons]
    omega
  · exact Nat.lt_succ_self _

def Item.char? : Item → Option UInt8
  | char c => some c
  | _ => none

def Item.realtime? : Item → Option Cmd
  | realtime cmd => some cmd
  | _ => none

def Item.separates : Item → Bool
  | separator => true
  | _ => false

/-- The characters of a piece of a macro. -/
def chars (piece : List Item) : Bytes := piece.filterMap Item.char?

/-- The commands of a piece of a macro. -/
def commands (piece : List Item) : List Cmd := piece.filterMap Item.realtime?

/-- The pieces of a macro between its separators. -/
def pieces (gcode : Bytes) : List (List Item) := Lines.pieces Item.separates (items gcode)

/-- The channel comes to the end of its macro inside of the buffer, has delivered every line of it that is not blank, in
order and once, and has executed every command. -/
def Delivers (maxlen : Nat) (line : Bytes) (gcode : Bytes) : Prop :=
  ∃ n lines channel, deliver maxlen n line { gcode } = some (lines, .Eof, channel) ∧
    lines.filter (· ≠ []) = ((pieces gcode).map chars).filter (· ≠ []) ∧
    channel.executed = commands (items gcode)

/-- The lines leave room for a byte and hold no NUL, and there is nothing but separators behind a blank one. -/
structure Deliverable (maxlen : Nat) (pieces : List (List Item)) : Prop where
  fits : ∀ piece ∈ pieces, (chars piece).length < maxlen ∧ 0 ∉ chars piece
  ends : pieces.Pairwise fun piece later => chars piece = [] → later = []

section Items

variable {c : UInt8} {gcode : Bytes}

theorem items_escape {cmd : Cmd} (h : escape c gcode = some cmd) :
    items (c :: gcode) = .realtime cmd :: items (gcode.drop 2) := by
  rw [items, h]

theorem items_separator (h : escape c gcode = none) (hc : c = 0x26 ∨ c = 0x0a) :
    items (c :: gcode) = .separator :: items gcode := by
  rw [items, h]
  dsimp only
  rw [if_pos hc]

theorem items_char (h : escape c gcode = none) (hc : ¬(c = 0x26 ∨ c = 0x0a)) :
    items (c :: gcode) = .char c :: items gcode := by
  rw [items, h]
  dsimp only
  rw [if_neg hc]

/-- The items of the line that comes next, as far as the macro goes. -/
def piece (gcode : Bytes) : List Item := Lines.piece Item.separates (items gcode)

/-- What the macro is made of behind its next line. -/
def behind (gcode : Bytes) : List Item := Lines.behind Item.separates (items gcode)

theorem items_nil : items [] = [] := by
  rw [items]

theorem piece_nil : piece [] = [] := by
  rw [piece, items_nil]
  rfl

theorem behind_nil : behind [] = [] := by
  rw [behind, items_nil]
  rfl

theorem piece_escape {cmd : Cmd} (h : escape c gcode = some cmd) :
    piece (c :: gcode) = .realtime cmd :: piece (gcode.drop 2) ∧ behind (c :: gcode) = behind (gcode.drop 2) := by
  unfold piece behind
  rw [items_escape h]
  exact ⟨Lines.piece_of_char rfl _, Lines.behind_of_char rfl _⟩

theorem piece_separator (h : escape c gcode = none) (hc : c = 0x26 ∨ c = 0x0a) :
    piece (c :: gcode) = [] ∧ behind (c :: gcode) = items gcode := by
  unfold piece behind
  rw [items_separator h hc]
  exact ⟨Lines.piece_of_end rfl _, Lines.behind_of_end rfl _⟩

theorem piece_char (h : escape c gcode = none) (hc : ¬(c = 0x26 ∨ c = 0x0a)) :
    piece (c :: gcode) = .char c :: piece gcode ∧ behind (c :: gcode) = behind gcode := by
  unfold piece behind
  rw [items_char h hc]
  exact ⟨Lines.piece_of_char rfl _, Lines.behind_of_char rfl _⟩

end Items

section Loop

variable {maxlen len : Nat} {line : Bytes} {executed : List Cmd}

theorem read_loop_escape {c : UInt8} {gcode : Bytes} {cmd : Cmd} (hlen : len < maxlen) (h : escape c gcode = some cmd) :
    read_loop maxlen line len executed (c :: gcode) =
      read_loop maxlen line len (executed ++ [cmd]) (gcode.drop 2) := by
  rw [read_loop, if_neg (by omega), h]

theorem read_loop_separator {c : UInt8} {gcode : Bytes} (hlen : len < maxlen) (h : escape c gcode = none)
    (hc : c = 0x26 ∨ c = 0x0a) :
    read_loop maxlen line len executed (c :: gcode) = some (false, line, len, executed, gcode) := by
  rw [read_loop, if_neg (by omega), h]
  dsimp only
  rw [if_pos hc]

theorem read_loop_char {c : UInt8} {gcode : Bytes} (hlen : len < maxlen) (h : escape c gcode = none)
    (hc : ¬(c = 0x26 ∨ c = 0x0a)) :
    read_loop maxlen line len executed (c :: gcode) =
      (store line len c).bind fun line => read_loop maxlen line (len + 1) executed gcode := by
  rw [read_loop, if_neg (by omega), h]
  dsimp only
  rw [if_neg hc]

/-- A line that leaves room for a byte is stored whole, and its commands are executed. -/
theorem read_loop_stores (executed : List Cmd) (hline : line.length = maxlen) (gcode : Bytes)
    (hshort : len + (chars (piece gcode)).length < maxlen) :
    ∃ line' rest, read_loop maxlen line len executed gcode =
        some (false, line', len + (chars (piece gcode)).length, executed ++ commands (piece gcode), rest) ∧
      line'.length = maxlen ∧
      line'.take (len + (chars (piece gcode)).length) = line.take len ++ chars (piece gcode) ∧
      items rest = behind gcode := by
  induction gcode using items.induct generalizing len line executed with
  | case1 =>
    rw [piece_nil, behind_nil, read_loop]
    exact ⟨line, [], by rw [commands, List.filterMap_nil, List.append_nil]; rfl, hline, (List.append_nil _).symm,
      items_nil⟩
  | case2 c gcode cmd hcmd ih =>
    obtain ⟨hpiece, hbehind⟩ := piece_escape hcmd
    have hchars : chars (piece (c :: gcode)) = chars (piece (gcode.drop 2)) := by
      rw [hpiece]
      rfl
    rw [hchars] at hshort ⊢
    obtain ⟨line', rest, hloop, hlength, htake, hrest⟩ := ih (executed ++ [cmd]) hline hshort
    refine ⟨line', rest, ?_, hlength, htake, hrest.trans hbehind.symm⟩
    rw [read_loop_escape (by omega) hcmd, hloop, hpiece, List.append_assoc]
    rfl
  | case3 c gcode hplain ih =>
    by_cases hc : c = 0x26 ∨ c = 0x0a
    · obtain ⟨hpiece, hbehind⟩ := piece_separator hplain hc
      rw [hpiece] at hshort ⊢
      rw [read_loop_separator (by omega) hplain hc, hbehind]
      exact ⟨line, gcode, by rw [commands, List.filterMap_nil, List.append_nil]; rfl, hline,
        (List.append_nil _).symm, rfl⟩
    · obtain ⟨hpiece, hbehind⟩ := piece_char hplain hc
      have hchars : chars (piece (c :: gcode)) = c :: chars (piece gcode) := by
        rw [hpiece]
        rfl
      rw [hchars, List.length_cons] at hshort ⊢
      obtain ⟨stored, hstore, hlength, htake⟩ := store_fits c (by omega : len < line.length)
      obtain ⟨line', rest, hloop, hlength', htake', hrest⟩ :=
        ih executed (hlength.trans hline) (by omega : len + 1 + (chars (piece gcode)).length < maxlen)
      have hcount : len + ((chars (piece gcode)).length + 1) = len + 1 + (chars (piece gcode)).length := by omega
      rw [hcount]
      refine ⟨line', rest, ?_, hlength', ?_, hrest.trans hbehind.symm⟩
      · rw [read_loop_char (by omega) hplain hc, hstore, Option.bind_some, hloop, hpiece]
        rfl
      · rw [htake', htake, List.append_assoc]
        rfl

/-- A line that leaves no room for another byte is given up, or goes to the end of the macro and fills the buffer. -/
theorem read_loop_fills (executed : List Cmd) (hline : line.length = maxlen) (gcode : Bytes) (hlen : len ≤ maxlen)
    (hlong : maxlen ≤ len + (chars (piece gcode)).length) :
    ∃ exceeded line' len' executed' rest,
      read_loop maxlen line len executed gcode = some (exceeded, line', len', executed', rest) ∧
        line'.length = maxlen ∧ (exceeded = false → len' = maxlen) := by
  induction gcode using items.induct generalizing len line executed with
  | case1 =>
    rw [piece_nil, chars, List.filterMap_nil, List.length_nil] at hlong
    rw [read_loop]
    exact ⟨false, line, len, executed, [], rfl, hline, fun _ => by omega⟩
  | case2 c gcode cmd hcmd ih =>
    have hchars : chars (piece (c :: gcode)) = chars (piece (gcode.drop 2)) := by
      rw [(piece_escape hcmd).1]
      rfl
    rw [hchars] at hlong
    by_cases hroom : len < maxlen
    · rw [read_loop_escape hroom hcmd]
      exact ih _ hline hlen hlong
    · rw [read_loop, if_pos (by omega)]
      exact ⟨true, line, len, executed, _, rfl, hline, fun h => absurd h (by decide)⟩
  | case3 c gcode hplain ih =>
    by_cases hroom : len < maxlen
    · by_cases hc : c = 0x26 ∨ c = 0x0a
      · rw [(piece_separator hplain hc).1, chars, List.filterMap_nil, List.length_nil] at hlong
        omega
      · have hchars : chars (piece (c :: gcode)) = c :: chars (piece gcode) := by
          rw [(piece_char hplain hc).1]
          rfl
        rw [hchars, List.length_cons] at hlong
        obtain ⟨stored, hstore, hlength, _⟩ := store_fits c (by omega : len < line.length)
        rw [read_loop_char hroom hplain hc, hstore, Option.bind_some]
        exact ih _ (hlength.trans hline) (by omega) (by omega)
    · rw [read_loop, if_pos (by omega)]
      exact ⟨true, line, len, executed, _, rfl, hline, fun h => absurd h (by decide)⟩

end Loop

section Line

variable {maxlen : Nat} {line : Bytes} {channel : MacroChannel}

/-- A line that leaves room for a byte is read whole, but a blank one is taken for the end of the macro. -/
theorem readLine_delivers (channel : MacroChannel) (hline : line.length = maxlen)
    (hshort : (chars (piece channel.gcode)).length < maxlen) :
    ∃ line' channel', channel.readLine maxlen line =
        some (if chars (piece channel.gcode) = [] then .Eof else .Ok, line', channel') ∧
      line'.length = maxlen ∧ items channel'.gcode = behind channel.gcode ∧
      channel'.executed = channel.executed ++ commands (piece channel.gcode) ∧
      (0 ∉ chars (piece channel.gcode) → c_str line' = chars (piece channel.gcode)) := by
  obtain ⟨line', rest, hloop, hlength, htake, hrest⟩ :=
    read_loop_stores [] hline channel.gcode (by omega : 0 + (chars (piece channel.gcode)).length < maxlen)
  rw [Nat.zero_add, List.take_zero, List.nil_append] at htake
  rw [Nat.zero_add, List.nil_append] at hloop
  obtain ⟨line'', hstore, hlength', _⟩ := store_fits 0 (by omega : (chars (piece channel.gcode)).length < line'.length)
  refine ⟨line'', count_line (chars (piece channel.gcode)).length { channel with
    gcode := rest
    executed := channel.executed ++ commands (piece channel.gcode) }, ?_, hlength'.trans hlength, hrest, rfl, ?_⟩
  · simp only [readLine, hloop, Option.bind_some, Bool.false_eq_true, if_false, hstore, Option.map_some, ne_eq,
      List.length_eq_zero_iff, ite_not]
  · intro hzero
    rw [← htake] at hzero
    rw [c_str_of_take hzero hstore, htake]

/-- A line that leaves no room for another byte is refused, unless it is stored outside of the buffer. -/
theorem readLine_fills (hline : line.length = maxlen) (hlong : maxlen ≤ (chars (piece channel.gcode)).length)
    {err : Error} {line' : Bytes} {channel' : MacroChannel}
    (hread : channel.readLine maxlen line = some (err, line', channel')) : err = .LineLengthExceeded := by
  obtain ⟨exceeded, stored, len, executed, rest, hloop, hlength, hfull⟩ :=
    read_loop_fills [] hline channel.gcode (Nat.zero_le maxlen) (by omega)
  cases exceeded with
  | true =>
    simp only [readLine, hloop, Option.bind_some, if_true, Option.some.injEq, Prod.mk.injEq] at hread
    exact hread.1.symm
  | false =>
    have hnone : store stored len 0 = none := by
      rw [store, if_neg (by rw [hfull rfl, hlength]; exact lt_irrefl _)]
    simp only [readLine, hloop, Option.bind_some, hnone, Option.map_none, Bool.false_eq_true, if_false,
      reduceCtorEq] at hread

end Line

section Run

variable {maxlen n : Nat} {line line' : Bytes} {channel channel' : MacroChannel} {p : List Item}
    {rest : List (List Item)}

theorem deliver_line (hread : channel.readLine maxlen line = some (.Ok, line', channel')) :
    channel.deliver maxlen (n + 1) line =
      (channel'.deliver maxlen n line').map fun (lines, last) => (c_str line' :: lines, last) := by
  rw [deliver, hread, Option.bind_some]
  rfl

theorem deliver_stop {err : Error} (hread : channel.readLine maxlen line = some (err, line', channel'))
    (herr : err ≠ .Ok) : channel.deliver maxlen (n + 1) line = some ([], err, channel') := by
  rw [deliver, hread, Option.bind_some]
  dsimp only
  rw [if_neg herr]

/-- What is delivered are strings. -/
theorem deliver_plain {lines : List Bytes} {last : Error × MacroChannel}
    (hdeliver : channel.deliver maxlen n line = some (lines, last)) : ∀ l ∈ lines, 0 ∉ l := by
  induction n generalizing line channel lines with
  | zero =>
    rw [deliver, Option.some.injEq, Prod.mk.injEq] at hdeliver
    rw [← hdeliver.1]
    exact fun l hl => absurd hl List.not_mem_nil
  | succ n ih =>
    obtain ⟨⟨err, line', channel'⟩, hread, hrest⟩ := Option.bind_eq_some_iff.mp (deliver.eq_2 .. ▸ hdeliver)
    by_cases herr : err = .Ok
    · subst herr
      rw [deliver_line hread, Option.map_eq_some_iff] at hdeliver
      obtain ⟨⟨later, last⟩, hlater, hlines⟩ := hdeliver
      obtain ⟨rfl, rfl⟩ := Prod.mk.inj hlines
      intro l hl
      rcases List.mem_cons.mp hl with rfl | hl
      · exact zero_notMem_c_str line'
      · exact ih hlater l hl
    · rw [deliver_stop hread herr, Option.some.injEq, Prod.mk.injEq] at hdeliver
      rw [← hdeliver.1]
      exact fun l hl => absurd hl List.not_mem_nil

/-- The channel delivers the pieces that are left, and comes to the end of its macro. -/
def Completes (maxlen : Nat) (line : Bytes) (channel : MacroChannel) (pieces : List (List Item)) : Prop :=
  ∃ n lines last, channel.deliver maxlen n line = some (lines, .Eof, last) ∧
    lines.filter (· ≠ []) = (pieces.map chars).filter (· ≠ []) ∧
    last.executed = channel.executed ++ pieces.flatMap commands

theorem pieces_cons (hpieces : pieces channel.gcode = p :: rest) :
    p = piece channel.gcode ∧ rest = Lines.pieces Item.separates (behind channel.gcode) := by
  have hitems : items channel.gcode ≠ [] := by
    intro hnone
    rw [pieces, hnone, Lines.pieces_nil] at hpieces
    exact List.cons_ne_nil _ _ hpieces.symm
  rw [pieces, Lines.pieces_of_ne_nil hitems] at hpieces
  obtain ⟨rfl, rfl⟩ := List.cons.inj hpieces
  exact ⟨rfl, rfl⟩

theorem not_completes_of_long (hline : line.length = maxlen) (hlong : maxlen ≤ (chars (piece channel.gcode)).length)
    (pieces : List (List Item)) : ¬Completes maxlen line channel pieces := by
  rintro ⟨n, lines, last, hdeliver, _, _⟩
  cases n with
  | zero => simp [deliver] at hdeliver
  | succ n =>
    obtain ⟨⟨err, line', channel'⟩, hread, hrest⟩ := Option.bind_eq_some_iff.mp (deliver.eq_2 .. ▸ hdeliver)
    have herr : err = .LineLengthExceeded := readLine_fills hline hlong hread
    subst herr
    rw [deliver_stop hread (by decide)] at hdeliver
    simp at hdeliver

/-- What has neither characters nor commands is nothing. -/
theorem eq_nil_of_blank {p : List Item} (hplain : ∀ item ∈ p, item.separates = false) (hchars : chars p = [])
    (hcommands : commands p = []) : p = [] := by
  cases p with
  | nil => rfl
  | cons item p =>
    cases item with
    | char c => exact absurd hchars (List.cons_ne_nil _ _)
    | realtime cmd => exact absurd hcommands (List.cons_ne_nil _ _)
    | separator => exact absurd (hplain .separator List.mem_cons_self) (by decide)

/-- A blank line is the end of the delivery. -/
theorem completes_blank_iff (hmaxlen : 0 < maxlen) (hline : line.length = maxlen)
    (hpieces : pieces channel.gcode = p :: rest) (hblank : chars p = []) :
    Completes maxlen line channel (p :: rest) ↔ ∀ later ∈ rest, later = [] := by
  obtain ⟨rfl, hrest⟩ := pieces_cons hpieces
  obtain ⟨line', channel', hread, _, _, hexecuted, _⟩ :=
    readLine_delivers channel hline (by rw [hblank]; exact hmaxlen)
  rw [if_pos hblank] at hread
  have hcommands : channel'.executed = channel.executed ++ ((piece channel.gcode) :: rest).flatMap commands ↔
      rest.flatMap commands = [] := by
    rw [hexecuted, List.flatMap_cons, List.append_cancel_left_eq]
    exact List.self_eq_append_right
  have hlines : ([] : List Bytes) = (((piece channel.gcode) :: rest).map chars).filter (· ≠ []) ↔
      ∀ later ∈ rest, chars later = [] := by
    rw [List.map_cons, hblank, List.filter_cons_of_neg (by simp), eq_comm, List.filter_eq_nil_iff]
    simp
  have hempty : ∀ later ∈ rest, later = [] ↔ chars later = [] ∧ commands later = [] := by
    intro later hlater
    refine ⟨fun h => by rw [h]; exact ⟨rfl, rfl⟩, fun h => eq_nil_of_blank ?_ h.1 h.2⟩
    rw [hrest] at hlater
    exact fun item hitem => Lines.plain_of_mem_pieces hlater hitem
  constructor
  · rintro ⟨n, lines, last, hdeliver, hsame, hdone⟩
    cases n with
    | zero => simp [deliver] at hdeliver
    | succ n =>
      rw [deliver_stop hread (by decide), Option.some.injEq, Prod.mk.injEq, Prod.mk.injEq] at hdeliver
      obtain ⟨rfl, -, rfl⟩ := hdeliver
      have hno := List.flatMap_eq_nil_iff.mp (hcommands.mp hdone)
      exact fun later hlater => (hempty later hlater).mpr ⟨hlines.mp hsame later hlater, hno later hlater⟩
  · intro hall
    refine ⟨1, [], channel', deliver_stop hread (by decide), hlines.mpr ?_, hcommands.mpr ?_⟩
    · exact fun later hlater => ((hempty later hlater).mp (hall later hlater)).1
    · exact List.flatMap_eq_nil_iff.mpr fun later hlater => ((hempty later hlater).mp (hall later hlater)).2

/-- A line that is not blank is delivered, and what is left is delivered behind it. -/
theorem completes_line_iff (hline : line.length = maxlen) (hpieces : pieces channel.gcode = p :: rest)
    (hlong : (chars p).length < maxlen) (hmore : chars p ≠ []) :
    ∃ line' channel', line'.length = maxlen ∧ pieces channel'.gcode = rest ∧
      (Completes maxlen line channel (p :: rest) ↔ 0 ∉ chars p ∧ Completes maxlen line' channel' rest) := by
  obtain ⟨rfl, hrest⟩ := pieces_cons hpieces
  obtain ⟨line', channel', hread, hlength, hitems, hexecuted, htext⟩ := readLine_delivers channel hline hlong
  rw [if_neg hmore] at hread
  refine ⟨line', channel', hlength, by rw [pieces, hitems, ← hrest], ?_⟩
  have hkeep : (((piece channel.gcode) :: rest).map chars).filter (· ≠ []) =
      chars (piece channel.gcode) :: (rest.map chars).filter (· ≠ []) := by
    rw [List.map_cons, List.filter_cons_of_pos (by simpa using hmore)]
  have hcommands : channel.executed ++ ((piece channel.gcode) :: rest).flatMap commands =
      channel'.executed ++ rest.flatMap commands := by
    rw [hexecuted, List.flatMap_cons, List.append_assoc]
  unfold Completes
  rw [hkeep, hcommands]
  constructor
  · rintro ⟨n, lines, last, hdeliver, hsame, hdone⟩
    have hplain : 0 ∉ chars (piece channel.gcode) := by
      have hmem : chars (piece channel.gcode) ∈ lines.filter (· ≠ []) := by
        rw [hsame]
        exact List.mem_cons_self
      exact deliver_plain hdeliver _ (List.mem_of_mem_filter hmem)
    cases n with
    | zero => simp [deliver] at hdeliver
    | succ n =>
      rw [deliver_line hread, Option.map_eq_some_iff] at hdeliver
      obtain ⟨⟨later, last'⟩, hlater, hlines⟩ := hdeliver
      obtain ⟨rfl, rfl⟩ := Prod.mk.inj hlines
      rw [htext hplain, List.filter_cons_of_pos (by simpa using hmore)] at hsame
      exact ⟨hplain, n, later, last, hlater, (List.cons.inj hsame).2, hdone⟩
  · rintro ⟨hplain, n, lines, last, hdeliver, hsame, hdone⟩
    refine ⟨n + 1, chars (piece channel.gcode) :: lines, last, ?_, ?_, hdone⟩
    · rw [deliver_line hread, hdeliver, Option.map_some, htext hplain]
    · rw [List.filter_cons_of_pos (by simpa using hmore), hsame]

theorem deliverable_cons_iff :
    Deliverable maxlen (p :: rest) ↔ (chars p).length < maxlen ∧ 0 ∉ chars p ∧
      (chars p = [] → ∀ later ∈ rest, later = []) ∧ Deliverable maxlen rest := by
  constructor
  · rintro ⟨hfits, hends⟩
    rw [List.pairwise_cons] at hends
    obtain ⟨hlong, hplain⟩ := hfits p List.mem_cons_self
    exact ⟨hlong, hplain, fun hblank later hlater => hends.1 later hlater hblank,
      fun q hq => hfits q (List.mem_cons_of_mem _ hq), hends.2⟩
  · rintro ⟨hlong, hplain, hblank, hfits, hends⟩
    refine ⟨fun q hq => ?_, List.pairwise_cons.mpr ⟨fun later hlater h => hblank h later hlater, hends⟩⟩
    rcases List.mem_cons.mp hq with rfl | hq
    · exact ⟨hlong, hplain⟩
    · exact hfits q hq

/-- Nothing but separators is left to deliver of nothing. -/
theorem deliverable_of_empty (hmaxlen : 0 < maxlen) (hempty : ∀ q ∈ rest, q = []) : Deliverable maxlen rest where
  fits q hq := by
    rw [hempty q hq]
    exact ⟨hmaxlen, List.not_mem_nil⟩
  ends := List.pairwise_of_forall_mem_list fun _ _ later hlater _ => hempty later hlater

theorem completes_iff (hmaxlen : 0 < maxlen) {ps : List (List Item)} (hline : line.length = maxlen)
    (hpieces : pieces channel.gcode = ps) : Completes maxlen line channel ps ↔ Deliverable maxlen ps := by
  induction ps generalizing line channel with
  | nil =>
    have hitems : items channel.gcode = [] := by
      by_contra hsome
      rw [pieces, Lines.pieces_of_ne_nil hsome] at hpieces
      exact List.cons_ne_nil _ _ hpieces
    have hpiece : piece channel.gcode = [] := by
      rw [piece, hitems]
      rfl
    obtain ⟨line', channel', hread, _, _, hexecuted, _⟩ :=
      readLine_delivers channel hline (by rw [hpiece]; exact hmaxlen)
    rw [hpiece] at hread hexecuted
    refine ⟨fun _ => ⟨fun _ h => absurd h List.not_mem_nil, List.Pairwise.nil⟩, fun _ => ?_⟩
    exact ⟨1, [], channel', deliver_stop hread (by decide), rfl, hexecuted⟩
  | cons p rest ih =>
    by_cases hlong : (chars p).length < maxlen
    · by_cases hblank : chars p = []
      · rw [completes_blank_iff hmaxlen hline hpieces hblank, deliverable_cons_iff]
        refine ⟨fun h => ⟨hlong, by rw [hblank]; exact List.not_mem_nil, fun _ => h, deliverable_of_empty hmaxlen h⟩,
          fun h => h.2.2.1 hblank⟩
      · obtain ⟨line', channel', hlength, hrest, hiff⟩ := completes_line_iff hline hpieces hlong hblank
        rw [hiff, ih hlength hrest, deliverable_cons_iff]
        exact ⟨fun h => ⟨hlong, h.1, fun h => absurd h hblank, h.2⟩, fun h => ⟨h.2.1, h.2.2.2⟩⟩
    · have hpiece := (pieces_cons hpieces).1
      refine ⟨fun h => absurd h (not_completes_of_long hline ?_ _), fun h => absurd (deliverable_cons_iff.mp h).1 hlong⟩
      rw [← hpiece]
      omega

theorem commands_items (gcode : Bytes) : commands (items gcode) = (pieces gcode).flatMap commands := by
  have hsplit : commands (items gcode) = commands ((items gcode).filter fun item => !item.separates) := by
    unfold commands
    rw [List.filterMap_filter]
    refine List.filterMap_congr fun item _ => ?_
    cases item with
    | char c => rfl
    | realtime cmd => rfl
    | separator => rfl
  rw [hsplit, ← Lines.flatten_pieces]
  unfold commands
  rw [List.filterMap_flatten, List.flatMap_def]
  rfl

end Run

/-- A macro is delivered exactly if its lines fit into the buffer with their NUL, and none of them stands behind a blank
one. -/
theorem delivers_iff {maxlen : Nat} (hmaxlen : 0 < maxlen) {line : Bytes} (hline : line.length = maxlen)
    (gcode : Bytes) : Delivers maxlen line gcode ↔ Deliverable maxlen (pieces gcode) := by
  rw [← completes_iff hmaxlen hline (rfl : pieces ({ gcode } : MacroChannel).gcode = pieces gcode)]
  unfold Delivers Completes
  rw [commands_items, List.nil_append]

theorem delivers_two_lines : Delivers 8 (List.replicate 8 0) (bytes "G0#fr&G1") := by
  refine (delivers_iff (by decide : 0 < 8) rfl _).mpr ?_
  have hpieces : pieces (bytes "G0#fr&G1") =
      [[.char 0x47, .char 0x30, .realtime .FeedOvrReset], [.char 0x47, .char 0x31]] := by
    simp [pieces, items, bytes, escape, findOverride, overrideCodes]
    rfl
  rw [hpieces]
  exact ⟨by decide, by decide⟩

/-- A line of a whole buffer at the end of a macro. -/
theorem read_loop_overruns {maxlen len : Nat} {line : Bytes} (hline : line.length = maxlen) (c : UInt8)
    (hescape : c ≠ 0x23) (hc : ¬(c = 0x26 ∨ c = 0x0a)) (n : Nat) (hfull : len + n = maxlen) :
    ∃ line', read_loop maxlen line len [] (List.replicate n c) = some (false, line', maxlen, [], []) ∧
      line'.length = maxlen := by
  induction n generalizing len line with
  | zero =>
    rw [List.replicate_zero, read_loop]
    exact ⟨line, by rw [← hfull, Nat.add_zero], hline⟩
  | succ n ih =>
    obtain ⟨stored, hstore, hlength, _⟩ := store_fits c (by omega : len < line.length)
    rw [List.replicate_succ, read_loop_char (by omega) (by rw [escape, if_neg (fun h => hescape h.1)]) hc, hstore,
      Option.bind_some]
    exact ih (hlength.trans hline) (by omega)

/-- A blank line cuts off the rest of a macro, and the NUL of a line of `maxLine` characters is stored behind
the buffer. -/
theorem blank_line_ends_macro :
    ¬Delivers maxLine (List.replicate maxLine 0) (bytes "G0&&G1") ∧
    readLine maxLine (List.replicate maxLine 0) { gcode := List.replicate maxLine 0x47 } = none ∧
    ¬∀ gcode, Delivers maxLine (List.replicate maxLine 0) gcode := by
  have hcut : ¬Delivers maxLine (List.replicate maxLine 0) (bytes "G0&&G1") := by
    have hpieces : pieces (bytes "G0&&G1") = [[.char 0x47, .char 0x30], [], [.char 0x47, .char 0x31]] := by
      simp [pieces, items, bytes, escape]
      rfl
    unfold Delivers
    rw [commands_items]
    intro hdelivers
    have hends := ((completes_iff (by decide : 0 < maxLine) List.length_replicate rfl).mp hdelivers).ends
    rw [hpieces] at hends
    exact absurd hends (by decide)
  refine ⟨hcut, ?_, fun h => hcut (h _)⟩
  obtain ⟨line', hloop, hlength⟩ := read_loop_overruns (List.length_replicate (a := 0)) 0x47 (by decide) (by decide)
    maxLine (Nat.zero_add maxLine)
  have hnone : store line' maxLine 0 = none := by
    rw [store, if_neg (by rw [hlength]; exact lt_irrefl _)]
  simp only [readLine, hloop, Option.bind_some, Bool.false_eq_true, if_false, hnone, Option.map_none]

/-- A poll of a channel that waits for nothing reads a line of its macro. -/
theorem pollLine_reads {channel : MacroChannel} (hpending : channel.pending_error = .Ok)
    (hpercent : channel.percent = false)
    (hended : channel.ended = false) (line : Bytes) :
    channel.pollLine (some line) =
      (channel.readLine maxLine line).map fun (err, line, channel) => (err, some line, channel) := by
  cases channel with
  | mk gcode executed line_number blank_lines pending_error percent ended =>
    subst hpending hpercent hended
    rfl

end MacroChannel

end DuneWeaver
