import DuneWeaver.Lines.Pieces
import DuneWeaver.Stores
import DuneWeaver.Types

namespace DuneWeaver

/-- An open `InputFile`: the bytes that `read` has still to deliver, and the members that reading lines works with. -/
structure InputFile where
  data : Bytes
  line_number : Nat := 0
  blank_lines : Nat := 0
  pending_error : Error := .Ok
  percent : Bool := false
  ended : Bool := false
  deriving DecidableEq

namespace InputFile

/-- What the loop of `readLine` ends at. -/
inductive Stop where
  | exceeded
  | newline
  | eof
  deriving DecidableEq

/-- The loop of `readLine`. A `char` has no sign on this machine, so that each byte of the file reads as 0 or more.
The loop stops in front of a store outside of the buffer. -/
def read_loop (maxlen : Nat) (line : Bytes) (len : Nat) : Bytes → Option (Stop × Bytes × Nat × Bytes)
  | [] => some (.eof, line, len, [])
  | c :: data =>
    if len + 1 ≥ maxlen then some (.exceeded, line, len, data)
    else if c = 0x0d then read_loop maxlen line len data
    else if c = 0x0a then some (.newline, line, len, data)
    else (store line len c).bind fun line => read_loop maxlen line (len + 1) data

/-- Count a line of `len` characters that ends in a newline. -/
def count_line (len : Nat) (file : InputFile) : InputFile :=
  { file with
    line_number := file.line_number + 1
    blank_lines := if len = 0 then file.blank_lines + 1 else file.blank_lines }

def readLine (maxlen : Nat) (line : Bytes) (file : InputFile) : Option (Error × Bytes × InputFile) :=
  (read_loop maxlen line 0 file.data).bind fun (stop, line, len, data) =>
    match stop with
    | .exceeded => some (.LineLengthExceeded, line, { file with data })
    | .newline => (store line len 0).map fun line =>
      (.Ok, line, { file.count_line len with data })
    | .eof => (store line len 0).map fun line => (if len ≠ 0 then .Ok else .Eof, line, { file with data })

def maxLine : Nat := 255

/-- `pollLine` but for the report of the progress. -/
def pollLine (line : Option Bytes) (file : InputFile) : Option (Error × Option Bytes × InputFile) :=
  match line with
  | none => some (.NoData, none, file)
  | some line =>
    if file.pending_error ≠ .Ok then some (file.pending_error, some line, file)
    else
      let ended := file.ended || (file.percent && file.line_number ≠ file.blank_lines + 1)
      let file := { file with percent := false, ended }
      if ended = true then some (.Eof, some line, file)
      else (file.readLine maxLine line).map fun (err, line, file) => (err, some line, file)

/-- The results of `n` calls of `readLine` with one buffer, each with the string that it left there. -/
def readLines (maxlen : Nat) : Nat → Bytes → InputFile → Option (List (Error × Bytes))
  | 0, _, _ => some []
  | n + 1, line, file =>
    (file.readLine maxlen line).bind fun (err, line, file) =>
      (file.readLines maxlen n line).map ((err, c_str line) :: ·)

/-- A text without its carriage returns. -/
def unreturned (data : Bytes) : Bytes := data.filter (· ≠ 0x0d)

/-- The lines of a file. -/
def lines (data : Bytes) : List Bytes := Lines.pieces (· = 0x0a) (unreturned data)

section Loop

variable {maxlen len : Nat} {line : Bytes}

/-- Whatever the file holds, the loop stays inside of the buffer and keeps a byte of it free. -/
theorem read_loop_inside (hline : line.length = maxlen) (hlen : len < maxlen) (data : Bytes) :
    ∃ stop line' len' data', read_loop maxlen line len data = some (stop, line', len', data') ∧
      line'.length = maxlen ∧ len' < maxlen := by
  induction data generalizing line len with
  | nil => exact ⟨.eof, line, len, [], rfl, hline, hlen⟩
  | cons c data ih =>
    unfold read_loop
    split_ifs with hroom hreturn hnewline
    · exact ⟨.exceeded, line, len, data, rfl, hline, hlen⟩
    · exact ih hline hlen
    · exact ⟨.newline, line, len, data, rfl, hline, hlen⟩
    · obtain ⟨line', hstore, hlength, _⟩ := store_fits c (by omega : len < line.length)
      rw [hstore, Option.bind_some]
      exact ih (hlength.trans hline) (by omega)

/-- The first line of a file, as far as the file goes. -/
def first (data : Bytes) : Bytes := unreturned (Lines.piece (· = 0x0a) data)

theorem first_return (data : Bytes) : first (0x0d :: data) = first data := rfl

theorem first_newline (data : Bytes) : first (0x0a :: data) = [] := rfl

theorem unreturned_char {c : UInt8} (hc : c ≠ 0x0d) (data : Bytes) :
    unreturned (c :: data) = c :: unreturned data :=
  List.filter_cons_of_pos (by simpa using hc)

theorem first_char {c : UInt8} (hreturn : c ≠ 0x0d) (hnewline : c ≠ 0x0a) (data : Bytes) :
    first (c :: data) = c :: first data := by
  unfold first
  rw [Lines.piece_of_char (by simpa using hnewline), unreturned_char hreturn]

/-- A line that is too long for the buffer is given up. -/
theorem read_loop_exceeds (hline : line.length = maxlen) (data : Bytes)
    (hlong : maxlen < len + (first data).length + 1) :
    len < maxlen → ∃ line' len' data', read_loop maxlen line len data = some (.exceeded, line', len', data') := by
  intro hlen
  induction data generalizing line len with
  | nil => exact absurd hlong (by simp [first, unreturned, Lines.piece]; omega)
  | cons c data ih =>
    unfold read_loop
    split_ifs with hroom hreturn hnewline
    · exact ⟨line, len, data, rfl⟩
    · subst hreturn
      exact ih hline hlong hlen
    · subst hnewline
      rw [first_newline, List.length_nil] at hlong
      omega
    · obtain ⟨line', hstore, hlength, _⟩ := store_fits c (by omega : len < line.length)
      rw [hstore, Option.bind_some]
      rw [first_char hreturn hnewline, List.length_cons] at hlong
      exact ih (hlength.trans hline) (by omega) (by omega)

/-- A line that leaves room for two more bytes is stored whole, and what is left of the file is what stands
behind it. -/
theorem read_loop_stores (hline : line.length = maxlen) (data : Bytes)
    (hshort : len + (first data).length + 2 ≤ maxlen) :
    ∃ stop line', read_loop maxlen line len data =
        some (stop, line', len + (first data).length, Lines.behind (· = 0x0a) data) ∧
      line'.length = maxlen ∧ line'.take (len + (first data).length) = line.take len ++ first data ∧
      ((stop = .newline ∧ unreturned data ≠ []) ∨ (stop = .eof ∧ first data = unreturned data)) := by
  induction data generalizing line len with
  | nil => exact ⟨.eof, line, rfl, hline, (List.append_nil _).symm, .inr ⟨rfl, rfl⟩⟩
  | cons c data ih =>
    unfold read_loop
    rw [if_neg (by omega)]
    split_ifs with hreturn hnewline
    · subst hreturn
      exact ih hline hshort
    · subst hnewline
      exact ⟨.newline, line, rfl, hline, (List.append_nil _).symm, .inl ⟨rfl, List.cons_ne_nil _ _⟩⟩
    · obtain ⟨line', hstore, hlength, htake⟩ := store_fits c (by omega : len < line.length)
      rw [first_char hreturn hnewline, List.length_cons] at hshort ⊢
      obtain ⟨stop, line'', hloop, hlength', htake', hstop⟩ :=
        ih (hlength.trans hline) (by omega : len + 1 + (first data).length + 2 ≤ maxlen)
      have hcount : len + ((first data).length + 1) = len + 1 + (first data).length := by omega
      rw [hcount, unreturned_char hreturn, Lines.behind_of_char (by simpa using hnewline)]
      refine ⟨stop, line'', ?_, hlength', ?_, ?_⟩
      · rw [hstore, Option.bind_some, hloop]
      · rw [htake', htake, List.append_assoc]
        rfl
      · rcases hstop with ⟨hstop, _⟩ | ⟨hstop, hlast⟩
        · exact .inl ⟨hstop, List.cons_ne_nil _ _⟩
        · exact .inr ⟨hstop, by rw [hlast]⟩

end Loop

section Line

variable {maxlen : Nat} {line : Bytes} {file : InputFile}

/-- No line is stored outside of the buffer. -/
theorem readLine_inside (hmaxlen : 0 < maxlen) (hline : line.length = maxlen) (file : InputFile) :
    ∃ err line' file', file.readLine maxlen line = some (err, line', file') ∧ line'.length = maxlen := by
  obtain ⟨stop, line', len, data, hloop, hlength, hlen⟩ := read_loop_inside hline hmaxlen file.data
  obtain ⟨line'', hstore, hlength', _⟩ := store_fits 0 (by omega : len < line'.length)
  cases stop with
  | exceeded => exact ⟨_, _, _, by simp only [readLine, hloop, Option.bind_some]; rfl, hlength⟩
  | newline =>
    exact ⟨_, _, _, by simp only [readLine, hloop, Option.bind_some, hstore, Option.map_some]; rfl,
      hlength'.trans hlength⟩
  | eof =>
    exact ⟨_, _, _, by simp only [readLine, hloop, Option.bind_some, hstore, Option.map_some]; rfl,
      hlength'.trans hlength⟩

theorem readLine_exceeds (hmaxlen : 0 < maxlen) (hline : line.length = maxlen)
    (hlong : maxlen < (first file.data).length + 1) :
    ∃ line' file', file.readLine maxlen line = some (.LineLengthExceeded, line', file') := by
  obtain ⟨line', len, data, hloop⟩ := read_loop_exceeds hline file.data (by omega : maxlen < 0 + _ + 1) hmaxlen
  exact ⟨_, _, by simp only [readLine, hloop, Option.bind_some]; rfl⟩

/-- A line that leaves room for two more bytes is read whole, and an empty rest of a file is its end. -/
theorem readLine_delivers (hline : line.length = maxlen) (hshort : (first file.data).length + 2 ≤ maxlen) :
    ∃ line' file', file.readLine maxlen line = some (if unreturned file.data = [] then .Eof else .Ok, line', file') ∧
      line'.length = maxlen ∧ file'.data = Lines.behind (· = 0x0a) file.data ∧
      (0 ∉ first file.data → c_str line' = first file.data) := by
  obtain ⟨stop, line', hloop, hlength, htake, hstop⟩ :=
    read_loop_stores hline file.data (by omega : 0 + (first file.data).length + 2 ≤ maxlen)
  rw [Nat.zero_add, List.take_zero, List.nil_append] at htake
  rw [Nat.zero_add] at hloop
  obtain ⟨line'', hstore, hlength', _⟩ := store_fits 0 (by omega : (first file.data).length < line'.length)
  have htext : 0 ∉ first file.data → c_str line'' = first file.data := by
    intro hzero
    rw [← htake] at hzero
    rw [c_str_of_take hzero hstore, htake]
  rcases hstop with ⟨rfl, hmore⟩ | ⟨rfl, hlast⟩
  · refine ⟨line'', { file.count_line (first file.data).length with data := Lines.behind (· = 0x0a) file.data }, ?_,
      hlength'.trans hlength, rfl, htext⟩
    simp only [readLine, hloop, Option.bind_some, hstore, Option.map_some, if_neg hmore]
  · refine ⟨line'', { file with data := Lines.behind (· = 0x0a) file.data }, ?_, hlength'.trans hlength, rfl, htext⟩
    simp only [readLine, hloop, Option.bind_some, hstore, Option.map_some]
    simp only [hlast, ne_eq, List.length_eq_zero_iff, ite_not]

end Line

section Lines

variable {maxlen : Nat} {line : Bytes} {file : InputFile}

theorem lines_of_returns {data : Bytes} (h : unreturned data = []) : lines data = [] := by
  rw [lines, h, Lines.pieces_nil]

/-- The lines are the first one and those of what is left behind it. -/
theorem lines_cons {data : Bytes} (h : unreturned data ≠ []) :
    lines data = first data :: lines (Lines.behind (· = 0x0a) data) := by
  have hkeep : ∀ c : UInt8, decide (c = 0x0a) = true → decide (c ≠ 0x0d) = true := by
    intro c hc
    rw [of_decide_eq_true hc]
    rfl
  unfold lines first
  rw [Lines.pieces_of_ne_nil h]
  unfold unreturned
  rw [Lines.piece_filter hkeep, Lines.behind_filter hkeep]

theorem readLines_succ {n : Nat} {err : Error} {line' : Bytes} {file' : InputFile}
    (h : file.readLine maxlen line = some (err, line', file')) :
    file.readLines maxlen (n + 1) line = (file'.readLines maxlen n line').map ((err, c_str line') :: ·) := by
  rw [readLines, h, Option.bind_some]

theorem readLines_inside (hmaxlen : 0 < maxlen) (hline : line.length = maxlen) (file : InputFile) (n : Nat) :
    (file.readLines maxlen n line).isSome := by
  induction n generalizing line file with
  | zero => rfl
  | succ n ih =>
    obtain ⟨err, line', file', hread, hlength⟩ := readLine_inside hmaxlen hline file
    rw [readLines_succ hread, Option.isSome_map]
    exact ih hlength file'

theorem notMem_first {data : Bytes} (hzero : 0 ∉ data) : 0 ∉ first data :=
  fun hmem => hzero ((List.takeWhile_prefix _).sublist.subset (List.mem_of_mem_filter hmem))

/-- The next line is read if it leaves room for two more bytes. -/
theorem readLine_next (hline : line.length = maxlen) {l : Bytes} {rest : List Bytes}
    (hlines : lines file.data = l :: rest) (hshort : l.length + 2 ≤ maxlen) :
    ∃ line' file', file.readLine maxlen line = some (.Ok, line', file') ∧ line'.length = maxlen ∧
      lines file'.data = rest ∧ file'.data = Lines.behind (· = 0x0a) file.data ∧
      (0 ∉ file.data → c_str line' = l) := by
  have hmore : unreturned file.data ≠ [] := by
    intro hnone
    rw [lines_of_returns hnone] at hlines
    exact List.cons_ne_nil _ _ hlines.symm
  rw [lines_cons hmore] at hlines
  obtain ⟨rfl, rfl⟩ := List.cons.inj hlines
  obtain ⟨line', file', hread, hlength, hdata, htext⟩ := readLine_delivers hline hshort
  rw [if_neg hmore] at hread
  exact ⟨line', file', hread, hlength, by rw [hdata], hdata, fun hzero => htext (notMem_first hzero)⟩

end Lines

section Run

variable {maxlen : Nat} {line : Bytes} {file : InputFile}

theorem notMem_behind {data : Bytes} (hzero : 0 ∉ data) : 0 ∉ Lines.behind (· = 0x0a) data :=
  fun hmem => hzero ((List.dropWhile_sublist _).subset (List.mem_of_mem_tail hmem))

/-- At the end of the file every call says so. -/
theorem readLines_eof (hmaxlen : 0 < maxlen) (hline : line.length = maxlen) (hdata : file.data = []) (n : Nat) :
    file.readLines maxlen n line = some (List.replicate n (.Eof, [])) := by
  induction n generalizing line with
  | zero => rfl
  | succ n ih =>
    obtain ⟨line', hstore, hlength, _⟩ := store_fits 0 (by omega : 0 < line.length)
    have hread : file.readLine maxlen line = some (.Eof, line', file) := by
      cases file
      simp only at hdata
      simp only [readLine, hdata, read_loop, Option.bind_some, hstore, Option.map_some, ne_eq, not_true_eq_false,
        if_false]
    rw [readLines_succ hread, ih (hlength.trans hline), Option.map_some, c_str_of_take List.not_mem_nil hstore]
    rfl

/-- What follows the lines does not matter to a number of calls that it fills up. -/
theorem take_fill {α : Type*} (results : List α) (filler : α) (n : Nat) :
    (results ++ List.replicate (n + 1) filler).take n = (results ++ List.replicate n filler).take n := by
  rw [List.take_append, List.take_append, List.take_replicate, List.take_replicate, Nat.min_eq_left (by omega),
    Nat.min_eq_left (by omega)]

/-- The lines of a file leave room for two more bytes each, not counting their carriage returns. -/
def LeavesRoom (maxlen : Nat) (data : Bytes) : Prop :=
  ∀ l ∈ Lines.pieces (· = 0x0a) data, (unreturned l).length + 2 ≤ maxlen

theorem LeavesRoom.first {data : Bytes} (h : LeavesRoom maxlen data) (hdata : data ≠ []) :
    (first data).length + 2 ≤ maxlen :=
  h _ (by rw [Lines.pieces_of_ne_nil hdata]; exact List.mem_cons_self)

theorem LeavesRoom.behind {data : Bytes} (h : LeavesRoom maxlen data) (hdata : data ≠ []) :
    LeavesRoom maxlen (Lines.behind (· = 0x0a) data) :=
  fun l hl => h l (by rw [Lines.pieces_of_ne_nil hdata]; exact List.mem_cons_of_mem _ hl)

theorem readLines_all (hmaxlen : 0 < maxlen) (hline : line.length = maxlen) (hzero : 0 ∉ file.data)
    (hroom : LeavesRoom maxlen file.data) (n : Nat) :
    file.readLines maxlen n line =
      some (((lines file.data).map (Error.Ok, ·) ++ List.replicate n (Error.Eof, [])).take n) := by
  induction n generalizing line file with
  | zero => rfl
  | succ n ih =>
    by_cases hdata : file.data = []
    · rw [readLines_eof hmaxlen hline hdata, hdata, lines_of_returns rfl, List.map_nil, List.nil_append,
        List.take_replicate, Nat.min_self]
    · by_cases hmore : unreturned file.data = []
      · obtain ⟨line', file', hread, hlength, hrest, htext⟩ := readLine_delivers hline (hroom.first hdata)
        rw [if_pos hmore] at hread
        have hfirst : first file.data = [] :=
          List.sublist_nil.mp (hmore ▸ (List.takeWhile_prefix _).sublist.filter _)
        have hbehind : unreturned (Lines.behind (· = 0x0a) file.data) = [] :=
          List.sublist_nil.mp (hmore ▸ ((List.tail_sublist _).trans (List.dropWhile_sublist _)).filter _)
        rw [readLines_succ hread, ih hlength (hrest ▸ notMem_behind hzero) (hrest ▸ hroom.behind hdata), hrest,
          lines_of_returns hbehind, lines_of_returns hmore, htext (notMem_first hzero), hfirst]
        rfl
      · obtain ⟨line', file', hread, hlength, hlines, hrest, htext⟩ :=
          readLine_next hline (lines_cons hmore) (hroom.first hdata)
        rw [readLines_succ hread, ih hlength (hrest ▸ notMem_behind hzero) (hrest ▸ hroom.behind hdata), hlines,
          lines_cons hmore, htext hzero, Option.map_some, List.map_cons, List.cons_append, List.take_succ_cons,
          take_fill]

/-- A line that does not fit is refused when its turn comes. -/
theorem readLines_refuses (hmaxlen : 0 < maxlen) (hline : line.length = maxlen) {front rest : List Bytes} {l : Bytes}
    (hlines : lines file.data = front ++ l :: rest) (hshort : ∀ short ∈ front, short.length + 2 ≤ maxlen)
    (hlong : maxlen - 1 < l.length) :
    ∃ results, file.readLines maxlen (front.length + 1) line = some results ∧
      results.map Prod.fst = List.replicate front.length .Ok ++ [.LineLengthExceeded] := by
  induction front generalizing line file with
  | nil =>
    have hmore : unreturned file.data ≠ [] := by
      intro hnone
      rw [lines_of_returns hnone] at hlines
      exact List.cons_ne_nil _ _ hlines.symm
    rw [List.nil_append, lines_cons hmore] at hlines
    obtain ⟨rfl, _⟩ := List.cons.inj hlines
    obtain ⟨line', file', hread⟩ := readLine_exceeds hmaxlen hline (by omega : maxlen < (first file.data).length + 1)
    exact ⟨_, by rw [List.length_nil, Nat.zero_add, readLines_succ hread]; rfl, rfl⟩
  | cons short front ih =>
    obtain ⟨line', file', hread, hlength, hrest, _, _⟩ := readLine_next hline hlines (hshort short List.mem_cons_self)
    obtain ⟨results, hall, herrors⟩ := ih hlength hrest fun l hl => hshort l (List.mem_cons_of_mem _ hl)
    exact ⟨_, by rw [List.length_cons, readLines_succ hread, hall]; rfl, by
      rw [List.map_cons, herrors, List.length_cons, List.replicate_succ, List.cons_append]⟩

end Run

/-- The calls of `readLine` deliver the lines of a file and then its end, if the file holds no NUL and its lines leave
room for two more bytes. No call stores outside of the buffer, and a line that does not fit into it is refused. -/
theorem readLine_delivers_lines {maxlen : Nat} (hmaxlen : 0 < maxlen) {line : Bytes} (hline : line.length = maxlen)
    (file : InputFile) :
    (0 ∉ file.data → LeavesRoom maxlen file.data → ∀ n, file.readLines maxlen n line =
      some (((lines file.data).map (Error.Ok, ·) ++ List.replicate n (Error.Eof, [])).take n)) ∧
    (∀ n, (file.readLines maxlen n line).isSome) ∧
    ∀ front l rest, lines file.data = front ++ l :: rest → (∀ short ∈ front, short.length + 2 ≤ maxlen) →
      maxlen - 1 < l.length → ∃ results, file.readLines maxlen (front.length + 1) line = some results ∧
        results.map Prod.fst = List.replicate front.length .Ok ++ [.LineLengthExceeded] :=
  ⟨fun hzero hroom n => readLines_all hmaxlen hline hzero hroom n, readLines_inside hmaxlen hline file,
    fun _ _ _ hlines hshort hlong => readLines_refuses hmaxlen hline hlines hshort hlong⟩

theorem readLine_delivers_three_lines :
    let file : InputFile := { data := bytes "G1\r\n\nM2" }
    file.readLines 8 5 (List.replicate 8 0) =
      some [(.Ok, bytes "G1"), (.Ok, []), (.Ok, bytes "M2"), (.Eof, []), (.Eof, [])] ∧
    (file.readLines 3 1 (List.replicate 3 0)).isSome :=
  ⟨(readLine_delivers_lines (by decide : 0 < 8) rfl { data := bytes "G1\r\n\nM2" }).1 (by decide)
      (by unfold LeavesRoom; decide) 5,
    (readLine_delivers_lines (by decide : 0 < 3) rfl { data := bytes "G1\r\n\nM2" }).2.1 1⟩

/-- A poll reads into the line that it is given, if it has one. -/
theorem pollLine_inside (file : InputFile) (line : Option Bytes) (hline : ∀ l ∈ line, l.length = maxLine) :
    ∃ err line' file', file.pollLine line = some (err, line', file') ∧ ∀ l ∈ line', l.length = maxLine := by
  cases line with
  | none => exact ⟨_, _, _, rfl, hline⟩
  | some line =>
    simp only [pollLine]
    split_ifs with hpending hended
    · exact ⟨_, _, _, rfl, hline⟩
    · exact ⟨_, _, _, rfl, hline⟩
    · obtain ⟨err, line', file', hread, hlength⟩ :=
        readLine_inside (by decide : 0 < maxLine) (hline line rfl) { file with
          percent := false
          ended := file.ended || (file.percent && file.line_number ≠ file.blank_lines + 1) }
      exact ⟨err, some line', file', by rw [hread, Option.map_some], fun l hl => Option.some.inj hl ▸ hlength⟩

end InputFile

end DuneWeaver
