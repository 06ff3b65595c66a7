import DuneWeaver.Lineedit.Recall
import DuneWeaver.Transition.Run

namespace DuneWeaver.Lineedit

/-- What a section of the configuration hands to a handler, one after the other: its items and its sections. -/
inductive Group where
  | done
  | item (name : Bytes) (rest : Group)
  | enterSection (name : Bytes) (value rest : Group)

/-- The names of the items and sections are strings. -/
def Group.Strings : Group → Prop
  | .done => True
  | .item name rest => 0 ∉ name ∧ rest.Strings
  | .enterSection name value rest => 0 ∉ name ∧ value.Strings ∧ rest.Strings

/-- What can be completed: the names of the settings, and the configuration. -/
structure Names where
  settings : List Bytes
  config : Group
  strings : (∀ name ∈ settings, 0 ∉ name) ∧ config.Strings

/-- There is nothing to complete. -/
def Names.nothing : Names := ⟨[], .done, fun _ hname => absurd hname List.not_mem_nil, trivial⟩

/-- The candidates of `Completer` for a key in a section of the configuration, in its order. -/
@[grind =] def Completer.candidates (_key : Bytes) (_currentPath : Bytes) : Group → List Bytes
  | .done => []
  | .item name rest =>
    let fullItemName := _currentPath ++ name
    (if _key.isPrefixOf fullItemName then [fullItemName] else []) ++ candidates _key _currentPath rest
  | .enterSection name value rest =>
    let path := _currentPath ++ name ++ [0x2f]
    (if path.isPrefixOf _key then candidates _key path value else if _key.isPrefixOf path then [path] else []) ++
      candidates _key _currentPath rest

@[grind =] def isInitialSubstringCI : Bytes → Bytes → Bool
  | [], _ => true
  | _ :: _, [] => false
  | k :: key, t :: test => tolower k = tolower t && isInitialSubstringCI key test

/-- The candidates for a key. -/
def candidates (names : Names) (key : Bytes) : List Bytes :=
  if key.head? = some 0x2f then Completer.candidates key [0x2f] names.config
  else names.settings.filter fun name => isInitialSubstringCI key name

/-- `num_initial_matches` for a key in `theWord`. The configuration has its length, and the settings go by its NUL. -/
def num_initial_matches (names : Names) (key : Bytes) (keylen : Nat) : Option (List Bytes) :=
  if key.head? = some 0x2f then
    if keylen < 100 then some (candidates names (c_str (key.take keylen))) else none
  else if 0 ∈ key then some (candidates names (c_str key)) else none

/-- The candidate that is copied to `name`, which stays empty where there is none with this number. -/
def copied (found : List Bytes) (matchnum : Nat) : Option Bytes :=
  match found[matchnum]? with
  | some name => if name.length < 100 then some name else none
  | none => some []

def SPECIAL_UP : Int := -20
def SPECIAL_DOWN : Int := -21
def SPECIAL_LEFT : Int := -22
def SPECIAL_RIGHT : Int := -23
def SPECIAL_DELETE : Int := -24
def SPECIAL_HOME : Int := -25
def SPECIAL_END : Int := -26

/-- What the keys do. -/
inductive Command where
  | escape
  | finish
  | eraseLeft
  | home
  | left
  | eraseRight
  | toEnd
  | right
  | kill
  | eraseLine
  | yank
  | older
  | newer
  | eraseWord
  | insert (c : UInt8)
  | wordRight
  | wordLeft
  deriving DecidableEq

/-- The cases of the switch of `step`. -/
def label (c : Int) : Option Command :=
  if c = 27 then some .escape
  else if c = 10 ∨ c = 13 ∨ c = -1 then some .finish
  else if c = 127 ∨ c = 8 then some .eraseLeft
  else if c = 1 ∨ c = SPECIAL_HOME then some .home
  else if c = 2 ∨ c = SPECIAL_LEFT then some .left
  else if c = 4 ∨ c = SPECIAL_DELETE then some .eraseRight
  else if c = 5 ∨ c = SPECIAL_END then some .toEnd
  else if c = 6 ∨ c = SPECIAL_RIGHT then some .right
  else if c = 11 then some .kill
  else if c = 21 then some .eraseLine
  else if c = 25 then some .yank
  else if c = 16 ∨ c = SPECIAL_UP then some .older
  else if c = 14 ∨ c = SPECIAL_DOWN then some .newer
  else if c = 23 then some .eraseWord
  else if 32 ≤ c then some (.insert c.toNat.toUInt8)
  else none

/-- The third character of an escape sequence where it ends it. -/
def translate (c : Int) : Int :=
  if c = 0x31 ∨ c = 0x48 then SPECIAL_HOME
  else if c = 0x46 ∨ c = 0x34 then SPECIAL_END
  else if c = 0x41 then SPECIAL_UP
  else if c = 0x42 then SPECIAL_DOWN
  else if c = 0x43 then SPECIAL_RIGHT
  else if c = 0x44 then SPECIAL_LEFT
  else c

/-- The editor of a channel without what it writes to the terminal. -/
structure Editor where
  editing : Bool := false
  line : Line
  history : History := {}
  killbuf : Bytes := List.replicate 100 0
  theWord : Bytes := List.replicate 100 0
  nmatches : Nat := 0
  matchlen : Nat := 0
  thismatch : Nat := 0
  escaping : Int := 0
  history_num : Int := -1

namespace Editor

/-- The loop of `find_word_under_cursor` over what is in front of the cursor. -/
def copy_before (l : Line) : Nat → Nat → Nat → Bytes → Option (Nat × Bytes)
  | 0, _, i, theWord => some (i, theWord)
  | turns + 1, addr, i, theWord =>
    if addr < l.thisaddr ∧ i < 99 then
      l.line[addr]?.bind fun c => (store theWord i c).bind fun theWord => copy_before l turns (addr + 1) (i + 1) theWord
    else some (i, theWord)

/-- Its loop to the end of the item name. -/
@[grind =] def copy_behind : Nat → Nat → Bytes → Line → Option (Nat × Bytes × Line)
  | 0, i, theWord, l => some (i, theWord, l)
  | turns + 1, i, theWord, l =>
    if l.thisaddr < l.endaddr ∧ i < 99 then
      l.line[l.thisaddr]?.bind fun c =>
        if c ≠ 0x3d then
          (store theWord i c).bind fun theWord =>
            copy_behind turns (i + 1) theWord { l with thisaddr := l.thisaddr + 1 }
        else some (i, theWord, l)
    else some (i, theWord, l)

def find_word_under_cursor (e : Editor) : Option (Bool × Editor) :=
  if e.line.endaddr = 0 ∨ e.line.line.head? ≠ some 0x24 then some (false, e)
  else (copy_before e.line e.line.thisaddr 1 0 e.theWord).bind fun (i, theWord) =>
    (copy_behind (e.line.endaddr - e.line.thisaddr) i theWord e.line).bind fun (i, theWord, line) =>
      (store theWord i 0).map fun theWord => (true, { e with theWord, line })

/-- The loop of `complete_word` that makes the word longer while that leaves it all its matches. -/
@[grind =] def grow (names : Names) (name : Bytes) (nmatches : Nat) :
    Nat → Nat → Bytes → Line → Option (Nat × Bytes × Line)
  | 0, len, theWord, l => some (len, theWord, l)
  | turns + 1, len, theWord, l =>
    name[len]?.bind fun c => (store theWord len c).bind fun theWord =>
      (num_initial_matches names theWord (len + 1)).bind fun found =>
        if nmatches ≠ found.length then some (len, theWord, l)
        else (l.addchar c).bind fun l => grow names name nmatches turns (len + 1) theWord l

def complete_word (names : Names) (e : Editor) : Option Editor :=
  e.find_word_under_cursor.bind fun (found, e) =>
    if !found then some e
    else
      let len := (c_str e.theWord).length
      (num_initial_matches names e.theWord len).bind fun found => (copied found 0).bind fun name =>
        let e := { e with nmatches := found.length }
        if e.nmatches = 0 then some e
        else
          let e := { e with matchlen := name.length }
          if e.nmatches = 1 then
            (e.line.addchars (name.drop len)).map fun line => { e with line, nmatches := 0 }
          else
            (grow names name e.nmatches (e.matchlen - len) len e.theWord e.line).bind fun (len, theWord, line) =>
              (store theWord len 0).bind fun theWord =>
                (line.addchars (name.drop len)).map fun line => { e with theWord, line, thismatch := 0 }

def propose_word (names : Names) (e : Editor) : Option Editor :=
  let e := { e with thismatch := if e.thismatch + 1 = e.nmatches then 0 else e.thismatch + 1 }
  let len := (c_str e.theWord).length
  (num_initial_matches names e.theWord len).bind fun found => (copied found e.thismatch).bind fun name =>
    (Line.erase_while (fun _ => true) (e.matchlen - len) e.line).bind fun line =>
      (line.addchars (name.drop (min e.matchlen len))).map fun line =>
        { e with line, nmatches := found.length, matchlen := max (min e.matchlen len) name.length }

/-- The cursor goes back over the shown characters and forward again. -/
def accept_word (e : Editor) : Option Editor :=
  if e.matchlen - (c_str e.theWord).length ≤ e.line.thisaddr then some e else none

def onLine (e : Editor) (line : Option Line) : Option (Bool × Editor) := line.map fun line => (false, { e with line })

/-- `get_history` of `history_num + way`, which becomes `history_num` where there is such a line. -/
def recallLine (way : Int) (e : Editor) : Option (Bool × Editor) :=
  (e.history.get_history (e.history_num + way) e.line).map fun (found, line, history) =>
    (false, { e with line, history, history_num := if found then e.history_num + way else e.history_num })

/-- What is done at a case of the switch. -/
def perform (cmd : Command) (e : Editor) : Option (Bool × Editor) :=
  match cmd with
  | .escape => some (false, { e with escaping := 1 })
  | .finish => some (true, e)
  | .eraseLeft => if 0 < e.line.thisaddr then e.onLine e.line.erase_char else some (false, e)
  | .home => e.onLine (some e.line.home)
  | .left => e.onLine (some e.line.backward_char)
  | .eraseRight =>
    if e.line.thisaddr < e.line.endaddr then e.onLine e.line.forward_char.erase_char else some (false, e)
  | .toEnd => e.onLine (some e.line.toEnd)
  | .right => e.onLine (some e.line.forward_char)
  | .kill => (e.line.kill_forward e.killbuf).map fun (killbuf, line) => (false, { e with killbuf, line })
  | .eraseLine => e.onLine e.line.erase_line
  | .yank => e.onLine (e.line.yank e.killbuf)
  | .older => e.recallLine 1
  | .newer => e.recallLine (-1)
  | .eraseWord =>
    e.onLine ((Line.erase_while is_word_delim e.line.thisaddr e.line).bind fun line =>
      Line.erase_while (fun c => !is_word_delim c) line.thisaddr line)
  | .insert c => e.onLine (e.line.addchar c)
  | .wordRight => e.onLine e.line.forward_word
  | .wordLeft => e.onLine e.line.backward_word

/-- The switch. -/
def keys (c : Int) (e : Editor) : Option (Bool × Editor) :=
  match label c with
  | some cmd => e.perform cmd
  | none => some (false, e)

/-- What is done with a key when no escape sequence takes it. -/
def command (names : Names) (c : Int) (e : Editor) : Option (Bool × Editor) :=
  if c = 9 then
    (if e.nmatches ≠ 0 then e.propose_word names else e.complete_word names).map fun e => (false, e)
  else if e.nmatches ≠ 0 then e.accept_word.bind fun e => { e with nmatches := 0 }.keys c
  else e.keys c

/-- The escape sequences in front of the keys. -/
def escapes (names : Names) (c : Int) (e : Editor) : Option (Bool × Editor) :=
  if e.escaping = 1 then
    let c := if 0x41 ≤ c ∧ c ≤ 0x5a then c + 0x20 else c
    if c = 0x5b then some (false, { e with escaping := 2 })
    else if c = 0x66 then { e with escaping := 0 }.perform .wordRight
    else if c = 0x62 then { e with escaping := 0 }.perform .wordLeft
    else some (false, { e with escaping := 0 })
  else if e.escaping = 2 then
    if c = 0x32 then some (false, { e with escaping := SPECIAL_HOME })
    else if c = 0x35 then some (false, { e with escaping := SPECIAL_END })
    else if c = 0x33 then some (false, { e with escaping := SPECIAL_DELETE })
    else { e with escaping := 0 }.command names (translate c)
  else if e.escaping ≠ 0 then
    if c = 0x7e then { e with escaping := 0 }.command names e.escaping else some (false, { e with escaping := 0 })
  else e.command names c

/-- `step`, which is true when the line is complete. -/
def step (names : Names) (c : Int) (e : Editor) : Option (Bool × Editor) :=
  if c = 12 then some (false, { e with editing := false })
  else if e.editing = false then
    if c < 32 then
      if c = 13 ∨ c = 10 then some (true, e) else { e with editing := true }.escapes names c
    else e.perform (.insert c.toNat.toUInt8)
  else e.escapes names c

/-- What a channel does with a line that is complete: it goes to the history, and the editor starts again. -/
def finish (e : Editor) : Option Editor :=
  (e.history.add_to_history e.line.line e.line.endaddr).bind fun history =>
    (store e.line.line e.line.endaddr 0).map fun line =>
      { e with line := { e.line with line, thisaddr := 0, endaddr := 0 }, history, escaping := 0, history_num := -1 }

/-- `lineComplete` of a channel. -/
def lineComplete (names : Names) (c : Int) (e : Editor) : Option Editor :=
  (e.step names c).bind fun (complete, e) => if complete then e.finish else some e

end Editor

/-- What of an escape sequence has been read. -/
inductive Pending where
  | none
  | escape
  | bracket
  | home
  | toEnd
  | delete
  deriving DecidableEq

/-- The editor as it is meant to be: a text with a cursor, the text that was killed last and the lines that
were used. -/
structure Reference where
  text : Text := ⟨[], []⟩
  killed : Bytes := []
  lines : List Bytes := []
  history_num : Int := -1
  pending : Pending := .none
  editing : Bool := false

namespace Reference

/-- A line of the history takes the place of the text. -/
def recallLine (way : Int) (r : Reference) : Reference :=
  let lines := valid r.lines
  match if r.history_num + way < 0 then none else (kept (MAXHISTORY - 1) lines)[(r.history_num + way).toNat]? with
  | some line => { r with text := ⟨line, []⟩, lines, history_num := r.history_num + way }
  | none => { r with lines }

def perform (linelen : Nat) (cmd : Command) (r : Reference) : Reference :=
  match cmd with
  | .escape => { r with pending := .escape }
  | .finish =>
    { r with text := ⟨[], []⟩, lines := used r.text.text (valid r.lines), history_num := -1, pending := .none }
  | .eraseLeft => { r with text := r.text.eraseLeft }
  | .home => { r with text := r.text.start }
  | .left => { r with text := r.text.left }
  | .eraseRight => { r with text := r.text.eraseRight }
  | .toEnd => { r with text := r.text.finish }
  | .right => { r with text := r.text.right }
  | .kill => { r with text := ⟨r.text.before, []⟩, killed := r.text.behind }
  | .eraseLine => { r with text := ⟨[], []⟩ }
  | .yank => { r with text := r.text.inserts linelen r.killed }
  | .older => r.recallLine 1
  | .newer => r.recallLine (-1)
  | .eraseWord => { r with text := r.text.eraseWord }
  | .insert c => { r with text := r.text.insert linelen c }
  | .wordRight => { r with text := r.text.wordRight }
  | .wordLeft => { r with text := r.text.wordLeft }

/-- What a key is read as. -/
def read (c : Int) (r : Reference) : Reference × Option Command :=
  if c = 12 then ({ r with editing := false }, none)
  else if r.editing = false ∧ 32 ≤ c then (r, some (.insert c.toNat.toUInt8))
  else if r.editing = false ∧ (c = 13 ∨ c = 10) then (r, some .finish)
  else
    let r := { r with editing := true }
    match r.pending with
    | .none => (r, label c)
    | .escape =>
      if c = 0x5b then ({ r with pending := .bracket }, none)
      else ({ r with pending := .none },
        if c = 0x66 ∨ c = 0x46 then some .wordRight else if c = 0x62 ∨ c = 0x42 then some .wordLeft else none)
    | .bracket =>
      if c = 0x32 then ({ r with pending := .home }, none)
      else if c = 0x35 then ({ r with pending := .toEnd }, none)
      else if c = 0x33 then ({ r with pending := .delete }, none)
      else ({ r with pending := .none }, label (translate c))
    | .home => ({ r with pending := .none }, if c = 0x7e then some .home else none)
    | .toEnd => ({ r with pending := .none }, if c = 0x7e then some .toEnd else none)
    | .delete => ({ r with pending := .none }, if c = 0x7e then some .eraseRight else none)

def step (linelen : Nat) (c : Int) (r : Reference) : Reference :=
  match r.read c with
  | (r, some cmd) => r.perform linelen cmd
  | (r, none) => r

end Reference

/-- What the code has for it in `escaping`. -/
def Pending.escaping : Pending → Int
  | .none => 0
  | .escape => 1
  | .bracket => 2
  | .home => SPECIAL_HOME
  | .toEnd => SPECIAL_END
  | .delete => SPECIAL_DELETE

/-- The editor is where the reference is, and no completion is going on. -/
structure Follows (linelen : Nat) (e : Editor) (r : Reference) : Prop where
  line : e.line.Shows r.text
  maxaddr : e.line.maxaddr = linelen
  text : 0 ∉ r.text.text
  killed : c_str e.killbuf = r.killed
  killbuf : e.killbuf.length = 100 ∧ 0 ∈ e.killbuf
  history : e.history.Holds linelen r.lines
  history_num : e.history_num = r.history_num
  escaping : e.escaping = r.pending.escaping
  editing : e.editing = r.editing
  nmatches : e.nmatches = 0

/-- An entry of the history is recalled that is not empty and does not need the last place of the line. -/
def Reference.Recallable (linelen : Nat) (way : Int) (r : Reference) : Prop :=
  ∀ line, History.entry (valid r.lines) (r.history_num + way) = some line → line ≠ [] ∧ line.length < linelen

/-- What is killed fits into `killbuf`, and what is recalled into the line. -/
def Reference.Allows (linelen : Nat) (cmd : Command) (r : Reference) : Prop :=
  match cmd with
  | .kill => r.text.behind.length < 100
  | .older => r.Recallable linelen 1
  | .newer => r.Recallable linelen (-1)
  | _ => True

section Texts

variable {t : Text} {room : Nat}

theorem Text.left_text (t : Text) : t.left.text = t.text := by
  obtain ⟨before, behind⟩ := t
  rcases List.eq_nil_or_concat before with rfl | ⟨before, c, rfl⟩
  · rfl
  · rw [List.concat_eq_append, Text.left, Text.text, Text.text, List.dropLast_concat, List.getLast?_concat]
    simp only [Option.toList_some, List.append_assoc]

theorem Text.right_text (t : Text) : t.right.text = t.text := by
  obtain ⟨before, behind⟩ := t
  cases behind with
  | nil => exact congrArg (fun before => before ++ []) (List.append_nil before)
  | cons c behind => exact List.append_assoc before [c] behind

theorem Text.rightWhile_text (t : Text) (q : UInt8 → Bool) : (t.rightWhile q).text = t.text := by
  rw [Text.rightWhile, Text.text, Text.text, List.append_assoc, List.takeWhile_append_dropWhile]

theorem Text.leftWhile_text (t : Text) (q : UInt8 → Bool) : (t.leftWhile q).text = t.text := by
  rw [Text.leftWhile, Text.text, Text.text, ← List.append_assoc, List.rdropWhile_append_rtakeWhile]

theorem Text.wordRight_text (t : Text) : t.wordRight.text = t.text := by
  rw [Text.wordRight, Text.rightWhile_text, Text.rightWhile_text, Text.rightWhile_text]

theorem Text.wordLeft_text (t : Text) : t.wordLeft.text = t.text := by
  rw [Text.wordLeft, Text.leftWhile_text, Text.leftWhile_text]

theorem Text.mem_insert {c d : UInt8} (h : d ∈ (t.insert room c).text) : d = c ∨ d ∈ t.text := by
  unfold Text.insert at h
  split_ifs at h
  · rw [Text.text, List.mem_append, List.mem_append, List.mem_singleton] at h
    rcases h with (h | h) | h
    · exact .inr (List.mem_append_left _ h)
    · exact .inl h
    · exact .inr (List.mem_append_right _ (List.mem_of_mem_take h))
  · exact .inr h

theorem Text.mem_inserts {s : Bytes} {d : UInt8} (h : d ∈ (t.inserts room s).text) : d ∈ s ∨ d ∈ t.text := by
  induction s generalizing t with
  | nil => exact .inr h
  | cons c s ih =>
    rcases ih h with h | h
    · exact .inl (List.mem_cons_of_mem _ h)
    · rcases Text.mem_insert h with rfl | h
      · exact .inl List.mem_cons_self
      · exact .inr h

theorem Text.mem_eraseLeft {d : UInt8} (h : d ∈ t.eraseLeft.text) : d ∈ t.text := by
  rcases List.mem_append.mp h with h | h
  · exact List.mem_append_left _ (List.dropLast_subset _ h)
  · exact List.mem_append_right _ h

theorem Text.mem_eraseRight {d : UInt8} (h : d ∈ t.eraseRight.text) : d ∈ t.text := by
  rcases List.mem_append.mp h with h | h
  · exact List.mem_append_left _ h
  · exact List.mem_append_right _ (List.mem_of_mem_tail h)

theorem Text.mem_eraseWord {d : UInt8} (h : d ∈ t.eraseWord.text) : d ∈ t.text := by
  rcases List.mem_append.mp h with h | h
  · exact List.mem_append_left _ ((List.rdropWhile_prefix _ _).subset ((List.rdropWhile_prefix _ _).subset h))
  · exact List.mem_append_right _ h

end Texts

section Follow

variable (names : Names) {linelen : Nat} {e : Editor} {r : Reference}

/-- A command that only changes the line. -/
theorem Follows.onLine (h : Follows linelen e r) {line : Option Line} {t : Text}
    (hline : ∃ l', line = some l' ∧ l'.maxaddr = e.line.maxaddr ∧ l'.Shows t) (hzero : 0 ∉ t.text) :
    ∃ e', e.onLine line = some (false, e') ∧ Follows linelen e' { r with text := t } := by
  obtain ⟨l', rfl, hmax, hshows⟩ := hline
  exact ⟨_, rfl, hshows, hmax.trans h.maxaddr, hzero, h.killed, h.killbuf, h.history, h.history_num, h.escaping,
    h.editing,
    h.nmatches⟩

/-- A complete line goes to the history, and the line is empty again. -/
theorem Follows.finish (h : Follows linelen e r) :
    ∃ e', e.finish = some e' ∧ Follows linelen e' (r.perform linelen .finish) := by
  have hfits := h.line.fits
  obtain ⟨rest, hrest, hline, hlength, -, hend⟩ := h.line
  have hcount : e.line.endaddr = r.text.text.length := by rw [hend, Text.text, List.length_append]
  have hadr : e.line.line.take r.text.text.length = r.text.text := by rw [hline, Text.text, List.take_left]
  rw [← List.length_append] at hfits
  rw [h.maxaddr] at hfits hlength
  obtain ⟨history, hadd, hholds⟩ := h.history.add_to_history hadr h.text hfits (by omega)
  obtain ⟨line, hstore, hsame, -⟩ := store_fits 0 (by rw [hcount, hlength]; exact Nat.lt_succ_of_le hfits :
    e.line.endaddr < e.line.line.length)
  refine ⟨_, by rw [Editor.finish, hcount, hadd, Option.bind_some, ← hcount, hstore, Option.map_some], ?_⟩
  refine ⟨⟨line, ?_, rfl, ?_, rfl, rfl⟩, h.maxaddr, List.not_mem_nil, h.killed, h.killbuf, hholds, rfl, rfl, h.editing,
    h.nmatches⟩
  · exact List.ne_nil_of_length_pos (by rw [hsame, hlength]; exact Nat.succ_pos _)
  · rw [hsame, hlength, h.maxaddr]

/-- A line of the history takes the place of the text, where there is one. -/
theorem Follows.recallLine (h : Follows linelen e r) {way : Int} (hrecallable : r.Recallable linelen way) :
    ∃ e', e.recallLine way = some (false, e') ∧ Follows linelen e' (r.recallLine way) := by
  have hvalid := h.history.validate
  have hget := h.history.get_history h.line (r.history_num + way)
  have hlookup : ∀ found, History.entry (valid r.lines) (r.history_num + way) = found →
      (if r.history_num + way < 0 then none else
        (kept (MAXHISTORY - 1) (valid r.lines))[(r.history_num + way).toNat]?) =
        found := by
    intro found hfound
    rw [← hfound]
    unfold History.entry
    split_ifs with hneg
    · rfl
    · rcases stored_eq (valid r.lines) (MAXHISTORY - 1) with ⟨hstored, -⟩ | ⟨hstored, -⟩
      · rw [hstored]
      · rw [hstored]
        by_cases hinside : (r.history_num + way).toNat < (kept (MAXHISTORY - 1) (valid r.lines)).length
        · exact (List.getElem?_append_left hinside).symm
        · rw [List.getElem?_eq_none (Nat.le_of_not_lt hinside), List.getElem?_append_right (Nat.le_of_not_lt hinside)]
          cases hplace : (r.history_num + way).toNat - (kept (MAXHISTORY - 1) (valid r.lines)).length with
          | zero =>
            refine absurd rfl (hrecallable [] ?_).1
            rw [History.entry, if_neg hneg, hstored, List.getElem?_append_right (Nat.le_of_not_lt hinside), hplace]
            rfl
          | succ n => rfl
  unfold Editor.recallLine Reference.recallLine
  rw [h.history_num]
  cases hentry : History.entry (valid r.lines) (r.history_num + way) with
  | none =>
    rw [hentry] at hget
    dsimp only at hget ⊢
    rw [hget, hlookup none hentry]
    exact ⟨_, rfl, h.line, h.maxaddr, h.text, h.killed, h.killbuf, hvalid, h.history_num.symm ▸ rfl, h.escaping,
      h.editing,
      h.nmatches⟩
  | some line =>
    rw [hentry] at hget
    obtain ⟨l', hrun, hmax, hshows⟩ := hget
    have hshort := (hrecallable line hentry).2
    rw [h.maxaddr, List.take_of_length_le (by omega)] at hshows
    dsimp only
    rw [hrun, hlookup (some line) hentry]
    refine ⟨_, rfl, hshows, hmax.trans h.maxaddr, ?_, h.killed, h.killbuf, hvalid, rfl, h.escaping, h.editing,
      h.nmatches⟩
    show 0 ∉ line ++ []
    rw [List.append_nil]
    unfold History.entry at hentry
    split_ifs at hentry
    obtain ⟨other, hother, hcut⟩ := mem_stored (List.mem_of_getElem? hentry)
    exact fun hzero => hvalid.zero other hother (hcut.subset hzero)

/-- The channel goes on with what a key has led to. -/
def Settles (linelen : Nat) (result : Option (Bool × Editor)) (r : Reference) : Prop :=
  ∃ e', (result.bind fun (complete, e) => if complete then e.finish else some e) = some e' ∧ Follows linelen e' r

theorem settles_of_follows {result : Option (Bool × Editor)}
    (h : ∃ e', result = some (false, e') ∧ Follows linelen e' r) : Settles linelen result r := by
  obtain ⟨e', rfl, hfollows⟩ := h
  exact ⟨e', rfl, hfollows⟩

theorem Follows.eraseLeft (h : Follows linelen e r) :
    ∃ e', e.perform .eraseLeft = some (false, e') ∧ Follows linelen e' { r with text := r.text.eraseLeft } := by
  obtain ⟨e', hrun, hfollows⟩ := h.onLine h.line.erase_char fun hmem => h.text (Text.mem_eraseLeft hmem)
  refine ⟨e', ?_, hfollows⟩
  show (if 0 < e.line.thisaddr then e.onLine e.line.erase_char else some (false, e)) = _
  by_cases hinside : 0 < e.line.thisaddr
  · rw [if_pos hinside, hrun]
  · rw [if_neg hinside, ← hrun, Line.erase_char, if_neg hinside]
    rfl

theorem Follows.eraseRight (h : Follows linelen e r) :
    ∃ e', e.perform .eraseRight = some (false, e') ∧ Follows linelen e' { r with text := r.text.eraseRight } := by
  show ∃ e', (if e.line.thisaddr < e.line.endaddr then e.onLine e.line.forward_char.erase_char
    else some (false, e)) = _ ∧ _
  by_cases hinside : e.line.thisaddr < e.line.endaddr
  · rw [if_pos hinside]
    exact h.onLine (h.line.erase_right hinside) fun hmem => h.text (Text.mem_eraseRight hmem)
  · rw [if_neg hinside]
    have hnone : r.text.behind = [] := by
      have hcount := h.line.behind_length
      exact List.eq_nil_of_length_eq_zero (by omega)
    have hunchanged : r.text.eraseRight = r.text := by
      rw [Text.eraseRight, hnone]
      exact congrArg (Text.mk r.text.before) hnone.symm
    rw [hunchanged]
    exact ⟨e, rfl, h⟩

/-- What is killed is in `killbuf`, in front of what was there. -/
theorem Follows.kill (h : Follows linelen e r) (hfits : r.text.behind.length < 100) :
    ∃ e', e.perform .kill = some (false, e') ∧ Follows linelen e' (r.perform linelen .kill) := by
  obtain ⟨later, l', hrun, hmax, hshows, hlength⟩ := h.line.kill_forward (by rw [h.killbuf.1]; exact hfits)
  have hzero : 0 ∉ r.text.before ∧ 0 ∉ r.text.behind := by
    rw [← not_or, ← List.mem_append]
    exact h.text
  refine ⟨{ e with killbuf := r.text.behind ++ 0 :: later, line := l' }, ?_, ?_⟩
  · show (e.line.kill_forward e.killbuf).map _ = _
    rw [hrun]
    rfl
  · refine ⟨hshows, hmax.trans h.maxaddr, ?_, ?_,
      ⟨hlength.trans h.killbuf.1, List.mem_append_right _ List.mem_cons_self⟩,
      h.history, h.history_num, h.escaping, h.editing, h.nmatches⟩
    · show 0 ∉ r.text.before ++ []
      rw [List.append_nil]
      exact hzero.1
    · exact (c_str_before_nul _ _).trans (c_str_eq_self hzero.2)

theorem Follows.yank (h : Follows linelen e r) :
    ∃ e', e.perform .yank = some (false, e') ∧ Follows linelen e' (r.perform linelen .yank) := by
  have hyank := h.line.yank h.killbuf.2
  rw [h.killed, h.maxaddr] at hyank
  refine h.onLine (by rw [h.maxaddr]; exact hyank) fun hmem => ?_
  rcases Text.mem_inserts hmem with hmem | hmem
  · rw [← h.killed] at hmem
    exact zero_notMem_c_str _ hmem
  · exact h.text hmem

theorem Follows.eraseWord (h : Follows linelen e r) :
    ∃ e', e.perform .eraseWord = some (false, e') ∧ Follows linelen e' { r with text := r.text.eraseWord } := by
  obtain ⟨first, hfirst, hmax, hshows⟩ := h.line.eraseWhile is_word_delim h.line.before_length
  obtain ⟨last, hlast, hmax', hshows'⟩ := hshows.eraseWhile (fun c => !is_word_delim c) hshows.before_length
  exact h.onLine ⟨last, by rw [hfirst, Option.bind_some, hlast], hmax'.trans hmax, hshows'⟩
    fun hmem => h.text (Text.mem_eraseWord hmem)

theorem Follows.insert (h : Follows linelen e r) {c : UInt8} (hc : c ≠ 0) :
    ∃ e', e.perform (.insert c) = some (false, e') ∧ Follows linelen e' (r.perform linelen (.insert c)) := by
  obtain ⟨l', hrun, hmax, hshows⟩ := h.line.addchar c
  rw [h.maxaddr] at hshows
  refine h.onLine ⟨l', hrun, hmax, hshows⟩ fun hmem => ?_
  rcases Text.mem_insert hmem with rfl | hmem
  · exact hc rfl
  · exact h.text hmem

/-- Every command does to the buffers what it does to the text. -/
theorem Follows.perform (h : Follows linelen e r) {cmd : Command} (hallows : r.Allows linelen cmd)
    (hinsert : cmd ≠ .insert 0) : Settles linelen (e.perform cmd) (r.perform linelen cmd) := by
  have hsame (t : Text) (ht : t.text = r.text.text) : 0 ∉ t.text := by
    rw [ht]
    exact h.text
  cases cmd with
  | finish =>
    obtain ⟨e', hrun, hfollows⟩ := h.finish
    exact ⟨e', hrun, hfollows⟩
  | escape =>
    exact ⟨_, rfl, h.line, h.maxaddr, h.text, h.killed, h.killbuf, h.history, h.history_num, rfl, h.editing, h.nmatches⟩
  | home => exact settles_of_follows (h.onLine ⟨_, rfl, rfl, h.line.home⟩ h.text)
  | toEnd => exact settles_of_follows (h.onLine ⟨_, rfl, rfl, h.line.toEnd⟩ (hsame _ (List.append_nil _)))
  | left => exact settles_of_follows (h.onLine ⟨_, rfl, h.line.left.2, h.line.left.1⟩ (hsame _ r.text.left_text))
  | right => exact settles_of_follows (h.onLine ⟨_, rfl, h.line.right.2, h.line.right.1⟩ (hsame _ r.text.right_text))
  | wordLeft => exact settles_of_follows (h.onLine h.line.backward_word (hsame _ r.text.wordLeft_text))
  | wordRight => exact settles_of_follows (h.onLine h.line.forward_word (hsame _ r.text.wordRight_text))
  | eraseLeft => exact settles_of_follows h.eraseLeft
  | eraseRight => exact settles_of_follows h.eraseRight
  | eraseWord => exact settles_of_follows h.eraseWord
  | eraseLine => exact settles_of_follows (h.onLine h.line.erase_line List.not_mem_nil)
  | insert c => exact settles_of_follows (h.insert fun hc => hinsert (congrArg Command.insert hc))
  | kill => exact settles_of_follows (h.kill hallows)
  | yank => exact settles_of_follows h.yank
  | older => exact settles_of_follows (h.recallLine hallows)
  | newer => exact settles_of_follows (h.recallLine hallows)

theorem char_ne_zero {c : Int} (hlow : 32 ≤ c) (hhigh : c < 256) : c.toNat.toUInt8 ≠ 0 := by
  intro hzero
  have hvalue := congrArg UInt8.toNat hzero
  rw [Nat.toUInt8, UInt8.toNat_ofNat_of_lt' (by show c.toNat < 256; omega)] at hvalue
  have hnone : (0 : UInt8).toNat = 0 := rfl
  omega

theorem ite_ne {α : Type} {p : Prop} [Decidable p] {a b x : α} (ha : a ≠ x) (hb : ¬p → b ≠ x) :
    (if p then a else b) ≠ x := by
  by_cases hp : p
  · rwa [if_pos hp]
  · rw [if_neg hp]
    exact hb hp

/-- No key puts a NUL into the line. -/
theorem label_ne {c : Int} (hhigh : c < 256) : label c ≠ some (.insert 0) := by
  unfold label
  iterate 14 refine ite_ne (by decide) fun _ => ?_
  by_cases hlow : 32 ≤ c
  · rw [if_pos hlow]
    intro h
    exact char_ne_zero hlow hhigh (Command.insert.inj (Option.some.inj h))
  · rw [if_neg hlow]
    exact (Option.some_ne_none _).symm

theorem translate_lt {c : Int} (hhigh : c < 256) (htab : c ≠ 9) : translate c < 256 ∧ translate c ≠ 9 := by
  unfold translate
  split_ifs
  all_goals first
    | exact ⟨by decide, by decide⟩
    | exact ⟨hhigh, htab⟩

/-- What is left of a key goes through the switch. -/
theorem Follows.command (h : Follows linelen e r) {c : Int} (hhigh : c < 256) (htab : c ≠ 9)
    (hallows : ∀ cmd, label c = some cmd → r.Allows linelen cmd) :
    Settles linelen (e.command names c) (match label c with | some cmd => r.perform linelen cmd | none => r) := by
  rw [Editor.command, if_neg htab, if_neg (not_not_intro h.nmatches), Editor.keys]
  cases hlabel : label c with
  | none => exact ⟨e, rfl, h⟩
  | some cmd => exact h.perform (hallows cmd hlabel) fun hinsert => label_ne hhigh (hinsert ▸ hlabel)

theorem Follows.pending (h : Follows linelen e r) (pending : Pending) :
    Follows linelen { e with escaping := pending.escaping } { r with pending } :=
  ⟨h.line, h.maxaddr, h.text, h.killed, h.killbuf, h.history, h.history_num, rfl, h.editing, h.nmatches⟩

theorem Follows.edits (h : Follows linelen e r) :
    Follows linelen { e with editing := true } { r with editing := true } :=
  ⟨h.line, h.maxaddr, h.text, h.killed, h.killbuf, h.history, h.history_num, h.escaping, rfl, h.nmatches⟩

/-- A key that is read for an escape sequence, or behind it. -/
theorem Follows.escapes (h : Follows linelen e r) (hediting : r.editing = true) {c : Int} (hhigh : c < 256)
    (htab : c ≠ 9)
    (hlock : c ≠ 12) (hallows : ∀ cmd, (r.read c).2 = some cmd → (r.read c).1.Allows linelen cmd) :
    Settles linelen (e.escapes names c) (r.step linelen c) := by
  obtain ⟨text, killed, lines, history_num, pending, editing⟩ := r
  dsimp only at hediting
  subst hediting
  unfold Reference.step
  rw [Reference.read, if_neg hlock, if_neg (fun h => Bool.noConfusion h.1),
    if_neg (fun h => Bool.noConfusion h.1)] at hallows ⊢
  -- A key that goes through the switch when the escape sequence is over.
  have hover : ∀ key : Int, key < 256 → key ≠ 9 →
      (∀ cmd, label key = some cmd → (Reference.mk text killed lines history_num .none true).Allows linelen cmd) →
      Settles linelen ({ e with escaping := 0 }.command names key)
        (match label key with
          | some cmd => (Reference.mk text killed lines history_num .none true).perform linelen cmd
          | none => Reference.mk text killed lines history_num .none true) :=
    fun key hhigh htab hallows => (h.pending .none).command names hhigh htab hallows
  -- A tilde ends it with a command that was decided before.
  have htilde : ∀ (special : Int) (cmd : Command), e.escaping = special → special < 0 → special ≠ 9 →
      label special = some cmd → (Reference.mk text killed lines history_num .none true).Allows linelen cmd →
      Settles linelen (e.escapes names c)
        (match ((Reference.mk text killed lines history_num .none true, if c = 0x7e then some cmd else none) :
            Reference × Option Command) with
          | (r, some cmd) => r.perform linelen cmd
          | (r, none) => r) := by
    intro special cmd hescaping hnegative htab hlabel hallows
    rw [Editor.escapes, if_neg (by omega), if_neg (by omega), if_pos (by omega)]
    by_cases hend : c = 0x7e
    · rw [if_pos hend, if_pos hend, hescaping]
      have hcommand := hover special (by omega) htab fun other hother => by
        rw [hlabel] at hother
        rw [← Option.some.inj hother]
        exact hallows
      rw [hlabel] at hcommand
      exact hcommand
    · rw [if_neg hend, if_neg hend]
      exact ⟨_, rfl, h.pending .none⟩
  cases pending with
  | none =>
    have hescaping : e.escaping = 0 := h.escaping
    have hsame : { e with escaping := 0 } = e := by rw [← hescaping]
    rw [Editor.escapes, if_neg (by rw [hescaping]; decide), if_neg (by rw [hescaping]; decide),
      if_neg (by rw [hescaping]; decide)]
    have hcommand := hover c hhigh htab hallows
    rw [hsame] at hcommand
    dsimp only
    cases hlabel : label c <;> rw [hlabel] at hcommand <;> exact hcommand
  | escape =>
    have hescaping : e.escaping = 1 := h.escaping
    rw [Editor.escapes, if_pos hescaping]
    obtain ⟨d, hd⟩ : ∃ d, d = if 0x41 ≤ c ∧ c ≤ 0x5a then c + 0x20 else c := ⟨_, rfl⟩
    have hbracket : d = 0x5b ↔ c = 0x5b := by
      rw [hd]
      split_ifs <;> omega
    have hforward : d = 0x66 ↔ c = 0x66 ∨ c = 0x46 := by
      rw [hd]
      split_ifs <;> omega
    have hbackward : d = 0x62 ↔ c = 0x62 ∨ c = 0x42 := by
      rw [hd]
      split_ifs <;> omega
    dsimp only
    rw [← hd]
    by_cases hopen : c = 0x5b
    · rw [if_pos hopen, if_pos (hbracket.mpr hopen)]
      exact ⟨_, rfl, h.pending .bracket⟩
    · rw [if_neg hopen, if_neg (mt hbracket.mp hopen)]
      by_cases hright : c = 0x66 ∨ c = 0x46
      · rw [if_pos hright, if_pos (hforward.mpr hright)]
        exact (h.pending .none).perform trivial (by decide)
      · rw [if_neg hright, if_neg (mt hforward.mp hright)]
        by_cases hleft : c = 0x62 ∨ c = 0x42
        · rw [if_pos hleft, if_pos (hbackward.mpr hleft)]
          exact (h.pending .none).perform trivial (by decide)
        · rw [if_neg hleft, if_neg (mt hbackward.mp hleft)]
          exact ⟨_, rfl, h.pending .none⟩
  | bracket =>
    have hescaping : e.escaping = 2 := h.escaping
    rw [Editor.escapes, if_neg (by rw [hescaping]; decide), if_pos hescaping]
    dsimp only at hallows ⊢
    by_cases hhome : c = 0x32
    · rw [if_pos hhome, if_pos hhome]
      exact ⟨_, rfl, h.pending .home⟩
    · rw [if_neg hhome] at hallows ⊢
      rw [if_neg hhome]
      by_cases hend : c = 0x35
      · rw [if_pos hend, if_pos hend]
        exact ⟨_, rfl, h.pending .toEnd⟩
      · rw [if_neg hend] at hallows ⊢
        rw [if_neg hend]
        by_cases hdelete : c = 0x33
        · rw [if_pos hdelete, if_pos hdelete]
          exact ⟨_, rfl, h.pending .delete⟩
        · rw [if_neg hdelete] at hallows ⊢
          rw [if_neg hdelete]
          obtain ⟨hhigh, htab⟩ := translate_lt hhigh htab
          have hcommand := hover (translate c) hhigh htab hallows
          cases hlabel : label (translate c) <;> rw [hlabel] at hcommand <;> exact hcommand
  | home => exact htilde SPECIAL_HOME .home h.escaping (by decide) (by decide) rfl trivial
  | toEnd => exact htilde SPECIAL_END .toEnd h.escaping (by decide) (by decide) rfl trivial
  | delete => exact htilde SPECIAL_DELETE .eraseRight h.escaping (by decide) (by decide) rfl trivial

/-- What a key may not do: kill more than `killbuf` takes, or recall what the line does not. -/
def Reference.Allowed (linelen : Nat) (c : Int) (r : Reference) : Prop :=
  ∀ cmd, (r.read c).2 = some cmd → (r.read c).1.Allows linelen cmd

theorem Follows.lineComplete (h : Follows linelen e r) {c : Int} (hhigh : c < 256) (htab : c ≠ 9)
    (hallowed : r.Allowed linelen c) :
    ∃ e', e.lineComplete names c = some e' ∧ Follows linelen e' (r.step linelen c) := by
  show Settles linelen (e.step names c) (r.step linelen c)
  rw [Editor.step]
  by_cases hlock : c = 12
  · rw [if_pos hlock, hlock]
    exact ⟨_, rfl, h.line, h.maxaddr, h.text, h.killed, h.killbuf, h.history, h.history_num, h.escaping, rfl,
      h.nmatches⟩
  · rw [if_neg hlock]
    by_cases hediting : r.editing = true
    · rw [if_neg (by rw [h.editing, hediting]; decide)]
      exact h.escapes names hediting hhigh htab hlock hallowed
    · rw [Bool.not_eq_true] at hediting
      rw [if_pos (h.editing.trans hediting)]
      by_cases hlow : c < 32
      · rw [if_pos hlow]
        by_cases hreturn : c = 13 ∨ c = 10
        · have hread : r.read c = (r, some .finish) := by
            rw [Reference.read, if_neg hlock, if_neg (by omega), if_pos ⟨hediting, hreturn⟩]
          rw [if_pos hreturn, Reference.step, hread]
          have hfinish : r.Allows linelen .finish := trivial
          exact h.perform hfinish (by decide)
        · rw [if_neg hreturn]
          have hread : r.read c = { r with editing := true }.read c := by
            have hhigh : ¬32 ≤ c := Int.not_le.mpr hlow
            simp only [Reference.read, hlock, hediting, hreturn, hhigh, and_false, Bool.true_eq_false, if_false]
          rw [Reference.Allowed, hread] at hallowed
          rw [Reference.step, hread]
          exact h.edits.escapes names rfl hhigh htab hlock hallowed
      · have hread : r.read c = (r, some (.insert c.toNat.toUInt8)) := by
          rw [Reference.read, if_neg hlock, if_pos ⟨hediting, Int.not_lt.mp hlow⟩]
        rw [if_neg hlow, Reference.step, hread]
        refine h.perform trivial fun hinsert => ?_
        exact char_ne_zero (Int.not_lt.mp hlow) hhigh (Command.insert.inj hinsert)

end Follow

/-- A key code that is not Tab. -/
structure Key where
  code : Int
  lt : code < 256
  not_tab : code ≠ 9

/-- The editor of a channel whose line has this length. -/
def Editor.start (linelen : Nat) : Editor where
  line := ⟨List.replicate (linelen + 1) 0, 0, 0, linelen⟩

/-- The editor, as long as it stays in its buffers, and the reference. -/
def both (names : Names) (linelen : Nat) (s : Option Editor × Reference) (key : Key) : Option Editor × Reference :=
  (s.1.bind (Editor.lineComplete names key.code), s.2.step linelen key.code)

/-- No access has left a buffer, the pointers are in order, and text and cursor are those of the reference. -/
def Agrees (s : Option Editor × Reference) : Prop :=
  ∃ e, s.1 = some e ∧ (e.line.thisaddr ≤ e.line.endaddr ∧ e.line.endaddr ≤ e.line.maxaddr) ∧ e.line.Shows s.2.text

theorem follows_start (linelen : Nat) : Follows linelen (Editor.start linelen) {} where
  line := ⟨List.replicate (linelen + 1) 0, List.cons_ne_nil _ _, rfl, List.length_replicate, rfl, rfl⟩
  maxaddr := rfl
  text := List.not_mem_nil
  killed := rfl
  killbuf := ⟨List.length_replicate, List.mem_cons_self⟩
  history := History.holds_nil linelen
  history_num := rfl
  escaping := rfl
  editing := rfl
  nmatches := rfl

/-- Whatever keys but Tab are typed, the editor has the text and the cursor of the reference after each of
them, as long as nothing too long is killed or recalled. -/
theorem lineComplete_follows (names : Names) (linelen : Nat) (keys : List Key)
    (hallowed : Transition.Throughout (both names linelen) (fun s key => s.2.Allowed linelen key.code)
      (some (Editor.start linelen), {}) keys) :
    Transition.Always (both names linelen) Agrees (some (Editor.start linelen), {}) keys := by
  have hstart : ∃ e, (some (Editor.start linelen), ({} : Reference)).1 = some e ∧ Follows linelen e {} :=
    ⟨_, rfl, follows_start linelen⟩
  have hstep : ∀ (s : Option Editor × Reference) (key : Key), (∃ e, s.1 = some e ∧ Follows linelen e s.2) →
      s.2.Allowed linelen key.code →
      ∃ e, (both names linelen s key).1 = some e ∧ Follows linelen e (both names linelen s key).2 := by
    rintro ⟨_, r⟩ key ⟨e, rfl, hfollows⟩ hallowed
    exact hfollows.lineComplete names key.lt key.not_tab hallowed
  refine Transition.Always.mono ?_ (Transition.always_of_invariant hstep hstart hallowed)
  rintro s ⟨e, he, hfollows⟩
  exact ⟨e, he, hfollows.line.ordered, hfollows.line⟩

/-- A character is typed, and killed and put back from the front of the line. -/
theorem lineComplete_follows_yank :
    Transition.Always (both .nothing 10) Agrees (some (Editor.start 10), {})
      [⟨0x61, by decide, by decide⟩, ⟨1, by decide, by decide⟩, ⟨11, by decide, by decide⟩,
      ⟨25, by decide, by decide⟩] := by
  apply lineComplete_follows
  refine ⟨?_, ?_, ?_, ?_, trivial⟩
  · rintro cmd hcmd
    rw [← Option.some.inj hcmd]
    exact trivial
  · rintro cmd hcmd
    rw [← Option.some.inj hcmd]
    exact trivial
  · rintro cmd hcmd
    rw [← Option.some.inj hcmd]
    exact (by decide : 1 < 100)
  · rintro cmd hcmd
    rw [← Option.some.inj hcmd]
    exact trivial

/-- A line of the same letter, as long as it has room. -/
theorem typed_letters (names : Names) {linelen n : Nat} (hroom : n ≤ linelen) :
    ∃ e, Transition.run (both names linelen) (some (Editor.start linelen), {})
        (List.replicate n ⟨0x61, by decide, by decide⟩) = (some e, { text := ⟨List.replicate n 0x61, []⟩ }) ∧
      Follows linelen e { text := ⟨List.replicate n 0x61, []⟩ } := by
  induction n with
  | zero => exact ⟨_, rfl, follows_start linelen⟩
  | succ n ih =>
    obtain ⟨e, hrun, hfollows⟩ := ih (Nat.le_of_succ_le hroom)
    have hallowed : Reference.Allowed linelen 0x61 { text := ⟨List.replicate n 0x61, []⟩ } := by
      rintro cmd hcmd
      rw [← Option.some.inj hcmd]
      exact trivial
    obtain ⟨e', hstep, hfollows'⟩ := hfollows.lineComplete names (by decide) (by decide) hallowed
    have hinsert : Reference.step linelen 0x61 { text := ⟨List.replicate n 0x61, []⟩ } =
        { text := ⟨List.replicate (n + 1) 0x61, []⟩ } := by
      show { text := Text.insert linelen 0x61 ⟨List.replicate n 0x61, []⟩ : Reference } = _
      have hinside : (List.replicate n (0x61 : UInt8)).length < linelen := by
        rw [List.length_replicate]
        exact hroom
      rw [Text.insert, if_pos hinside, List.take_nil, List.replicate_succ']
    rw [hinsert] at hfollows'
    refine ⟨e', ?_, hfollows'⟩
    rw [List.replicate_succ', Transition.run_append, hrun]
    show both names linelen _ _ = _
    rw [both, Option.bind_some, hstep, hinsert]

/-- A hundred characters are killed, and their NUL is stored behind the end of `killbuf`. -/
theorem kill_leaves_killbuf :
    ¬Transition.Always (both .nothing 254) Agrees (some (Editor.start 254), {})
      (List.replicate 100 ⟨0x61, by decide, by decide⟩ ++ [⟨1, by decide, by decide⟩, ⟨11, by decide, by decide⟩]) := by
  intro halways
  obtain ⟨e, hrun, hfollows⟩ := typed_letters .nothing (by decide : 100 ≤ 254)
  have hallowed : Reference.Allowed 254 1 { text := ⟨List.replicate 100 0x61, []⟩ } := by
    rintro cmd hcmd
    rw [← Option.some.inj hcmd]
    exact trivial
  obtain ⟨front, hfront, hfollows'⟩ := hfollows.lineComplete .nothing (by decide) (by decide) hallowed
  have hlast := halways.last
  rw [Transition.run_append, hrun] at hlast
  obtain ⟨e', he', -⟩ := hlast
  have hkill : front.lineComplete .nothing 11 = some e' := by
    have hboth : (both .nothing 254 (some e, { text := ⟨List.replicate 100 0x61, []⟩ }) ⟨1, by decide, by decide⟩).1 =
        some front := hfront
    rw [Transition.run_cons, Transition.run_cons, Transition.run_nil, both, hboth] at he'
    exact he'
  -- The cursor is in front of the line, and the editor is editing.
  have hshows : front.line.Shows ⟨[], List.replicate 100 0x61⟩ := by
    have htext : (Reference.step 254 1 { text := ⟨List.replicate 100 0x61, []⟩ }).text =
        ⟨[], List.replicate 100 0x61⟩ :=
      congrArg (Text.mk []) (List.append_nil _)
    rw [← htext]
    exact hfollows'.line
  have hediting : front.editing = true := hfollows'.editing
  have hescaping : front.escaping = 0 := hfollows'.escaping
  have hstep : front.step .nothing 11 =
      (front.line.kill_forward front.killbuf).map fun (killbuf, line) => (false, { front with killbuf, line }) := by
    rw [Editor.step, if_neg (by decide), if_neg (by rw [hediting]; decide), Editor.escapes,
      if_neg (by rw [hescaping]; decide),
      if_neg (by rw [hescaping]; decide), if_neg (by rw [hescaping]; decide), Editor.command, if_neg (by decide),
      if_neg (not_not_intro hfollows'.nmatches)]
    rfl
  have hover : front.line.kill_forward front.killbuf = none := by
    rw [Line.kill_forward, hshows.behind_length]
    exact hshows.kill_loop_overflow (by rw [hfollows'.killbuf.1, List.length_replicate])
  rw [Editor.lineComplete, hstep, hover] at hkill
  exact absurd hkill (by rintro ⟨⟩)

end DuneWeaver.Lineedit
