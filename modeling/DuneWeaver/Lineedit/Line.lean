import DuneWeaver.Stores
import Mathlib.Data.List.DropRight

namespace DuneWeaver.Lineedit

/-- The line that is edited, with `thisaddr`, `endaddr` and `maxaddr` as offsets from `startaddr`. The line of
a channel has room for a NUL at `maxaddr`. -/
structure Line where
  line : Bytes
  thisaddr : Nat
  endaddr : Nat
  maxaddr : Nat
  deriving DecidableEq

def is_word_delim (c : UInt8) : Bool := c = 0x20 || c = 0x2f || c = 0x3d || c = 0x2c

namespace Line

/-- `addchar` without the echo. -/
def addchar (c : UInt8) (l : Line) : Option Line :=
  if l.thisaddr < l.maxaddr then
    let endaddr := if l.endaddr < l.maxaddr then l.endaddr + 1 else l.endaddr
    (shift_up (l.thisaddr + 1) 1 endaddr l.line).bind fun line =>
      (store line l.thisaddr c).map fun line => { l with line, thisaddr := l.thisaddr + 1, endaddr }
  else some l

/-- The characters of a string, one after the other. -/
def addchars : Bytes → Line → Option Line
  | [], l => some l
  | c :: s, l => (l.addchar c).bind (addchars s)

def erase_char (l : Line) : Option Line :=
  if 0 < l.thisaddr then
    let thisaddr := l.thisaddr - 1
    let endaddr := l.endaddr - 1
    (shift_down (endaddr - thisaddr) thisaddr l.line).map fun line => { l with line, thisaddr, endaddr }
  else some l

/-- `while (thisaddr > startaddr && q(thisaddr[-1])) erase_char();` -/
def erase_while (q : UInt8 → Bool) : Nat → Line → Option Line
  | 0, l => some l
  | turns + 1, l =>
    if 0 < l.thisaddr then
      l.line[l.thisaddr - 1]?.bind fun c => if q c then l.erase_char.bind (erase_while q turns) else some l
    else some l

def backward_char (l : Line) : Line := if 0 < l.thisaddr then { l with thisaddr := l.thisaddr - 1 } else l

def forward_char (l : Line) : Line := if l.thisaddr < l.endaddr then { l with thisaddr := l.thisaddr + 1 } else l

/-- `while (thisaddr < endaddr && q(*thisaddr)) ++thisaddr;` -/
def forward_while (q : UInt8 → Bool) : Nat → Line → Option Line
  | 0, l => some l
  | turns + 1, l =>
    if l.thisaddr < l.endaddr then
      l.line[l.thisaddr]?.bind fun c =>
        if q c then forward_while q turns { l with thisaddr := l.thisaddr + 1 } else some l
    else some l

/-- `while (thisaddr > startaddr && q(thisaddr[-1])) --thisaddr;` -/
def backward_while (q : UInt8 → Bool) : Nat → Line → Option Line
  | 0, l => some l
  | turns + 1, l =>
    if 0 < l.thisaddr then
      l.line[l.thisaddr - 1]?.bind fun c =>
        if q c then backward_while q turns { l with thisaddr := l.thisaddr - 1 } else some l
    else some l

def forward_word (l : Line) : Option Line :=
  (forward_while is_word_delim (l.endaddr - l.thisaddr) l).bind fun l =>
    (forward_while (fun c => !is_word_delim c) (l.endaddr - l.thisaddr) l).bind fun l =>
      forward_while is_word_delim (l.endaddr - l.thisaddr) l

def backward_word (l : Line) : Option Line :=
  if l.endaddr ≤ 0 then some l
  else (backward_while is_word_delim l.thisaddr l).bind fun l => backward_while (fun c => !is_word_delim c) l.thisaddr l

/-- The loop of `kill_forward`, with the place in `killbuf`. -/
def kill_loop : Nat → Nat → Bytes × Line → Option (Bytes × Line)
  | 0, p, (killbuf, l) => (store killbuf p 0).map fun killbuf => (killbuf, l)
  | turns + 1, p, (killbuf, l) =>
    if l.thisaddr < l.endaddr then
      l.line[l.thisaddr]?.bind fun c => (store killbuf p c).bind fun killbuf =>
        l.forward_char.erase_char.bind fun l => kill_loop turns (p + 1) (killbuf, l)
    else (store killbuf p 0).map fun killbuf => (killbuf, l)

def kill_forward (killbuf : Bytes) (l : Line) : Option (Bytes × Line) :=
    kill_loop (l.endaddr - l.thisaddr) 0 (killbuf, l)

/-- The loop ends at the first NUL of `killbuf`. -/
def yank (killbuf : Bytes) (l : Line) : Option Line :=
  if 0 ∈ killbuf then l.addchars (c_str killbuf) else none

/-- `while (thisaddr > startaddr) backward_char();` -/
def home (l : Line) : Line := { l with thisaddr := 0 }

/-- `while (thisaddr < endaddr) forward_char();` -/
def toEnd (l : Line) : Line := { l with thisaddr := max l.thisaddr l.endaddr }

def erase_line (l : Line) : Option Line :=
  (erase_while (fun _ => true) l.toEnd.thisaddr l.toEnd).map fun l => { l with endaddr := 0 }

end Line

/-- A text and a cursor in it: what is in front of the cursor, and what is behind. -/
structure Text where
  before : Bytes
  behind : Bytes
  deriving DecidableEq

namespace Text

def text (t : Text) : Bytes := t.before ++ t.behind

/-- A character is put in at the cursor. Where there is no room the last one of the line is dropped for it. -/
def insert (room : Nat) (c : UInt8) (t : Text) : Text :=
  if t.before.length < room then ⟨t.before ++ [c], t.behind.take (room - t.before.length - 1)⟩ else t

def inserts (room : Nat) (s : Bytes) (t : Text) : Text := s.foldl (fun t c => t.insert room c) t

def eraseLeft (t : Text) : Text := { t with before := t.before.dropLast }

def eraseRight (t : Text) : Text := { t with behind := t.behind.tail }

def left (t : Text) : Text := ⟨t.before.dropLast, t.before.getLast?.toList ++ t.behind⟩

def right (t : Text) : Text := ⟨t.before ++ t.behind.head?.toList, t.behind.tail⟩

def rightWhile (q : UInt8 → Bool) (t : Text) : Text := ⟨t.before ++ t.behind.takeWhile q, t.behind.dropWhile q⟩

def leftWhile (q : UInt8 → Bool) (t : Text) : Text := ⟨t.before.rdropWhile q, t.before.rtakeWhile q ++ t.behind⟩

/-- Over the word under the cursor, to the front of the next one. -/
def wordRight (t : Text) : Text :=
  ((t.rightWhile is_word_delim).rightWhile fun c => !is_word_delim c).rightWhile is_word_delim

/-- To the front of the word that the cursor is in or behind. -/
def wordLeft (t : Text) : Text := (t.leftWhile is_word_delim).leftWhile fun c => !is_word_delim c

def eraseWord (t : Text) : Text :=
  { t with before := (t.before.rdropWhile is_word_delim).rdropWhile fun c => !is_word_delim c }

def start (t : Text) : Text := ⟨[], t.text⟩

def finish (t : Text) : Text := ⟨t.text, []⟩

end Text

/-- The line holds this text, with the cursor where `thisaddr` is, and the text fits. -/
def Line.Shows (l : Line) (t : Text) : Prop :=
  ∃ rest, rest ≠ [] ∧ l.line = t.before ++ t.behind ++ rest ∧ l.line.length = l.maxaddr + 1 ∧
    l.thisaddr = t.before.length ∧ l.endaddr = t.before.length + t.behind.length

namespace Line

variable {l : Line} {t : Text} {c : UInt8}

theorem Shows.fits (h : l.Shows t) : t.before.length + t.behind.length ≤ l.maxaddr := by
  obtain ⟨rest, hrest, hline, hlength, _⟩ := h
  have hpos := List.length_pos_of_ne_nil hrest
  rw [hline, List.length_append, List.length_append] at hlength
  omega

theorem Shows.ordered (h : l.Shows t) : l.thisaddr ≤ l.endaddr ∧ l.endaddr ≤ l.maxaddr := by
  have hfits := h.fits
  obtain ⟨rest, -, -, -, hthis, hend⟩ := h
  omega

/-- A character is stored at the cursor, what is behind it having been moved. -/
theorem Shows.addchar (h : l.Shows t) (c : UInt8) :
    ∃ l', l.addchar c = some l' ∧ l'.maxaddr = l.maxaddr ∧ l'.Shows (t.insert l.maxaddr c) := by
  have hfits := h.fits
  obtain ⟨rest, hrest, hline, hlength, hthis, hend⟩ := h
  obtain ⟨before, behind⟩ := t
  obtain ⟨line, thisaddr, endaddr, maxaddr⟩ := l
  dsimp only at *
  subst hthis
  subst hend
  unfold Line.addchar Text.insert
  dsimp only
  by_cases hroom : before.length < maxaddr
  · rw [if_pos hroom, if_pos hroom]
    -- The characters that stay, and the one behind them that is overwritten.
    obtain ⟨kept, d, later, hsplit, hkept, hnew⟩ : ∃ kept d later, behind ++ rest = kept ++ d :: later ∧
        kept = behind.take (maxaddr - before.length - 1) ∧
        (if before.length + behind.length < maxaddr then before.length + behind.length + 1
          else before.length + behind.length) = before.length + kept.length + 1 := by
      by_cases hfull : before.length + behind.length < maxaddr
      · obtain ⟨d, later, rfl⟩ := List.exists_cons_of_ne_nil hrest
        have htake : behind.take (maxaddr - before.length - 1) = behind := List.take_of_length_le (by omega)
        exact ⟨behind, d, later, rfl, htake.symm, by rw [if_pos hfull]⟩
      · have hne : behind ≠ [] := by
          rintro rfl
          rw [List.length_nil] at hfull
          omega
        obtain ⟨kept, d, rfl⟩ := List.eq_nil_or_concat behind |>.resolve_left hne
        rw [List.concat_eq_append] at hfits hfull ⊢
        rw [List.length_append, List.length_singleton] at hfits hfull ⊢
        refine ⟨kept, d, rest, by rw [List.append_assoc]; rfl, ?_, ?_⟩
        · rw [List.take_append_of_le_length (by omega), List.take_of_length_le (by omega)]
        · rw [if_neg hfull]
          omega
    have hlater : later ≠ [] := by
      rintro rfl
      have hboth := congrArg List.length hsplit
      rw [List.length_append, List.length_append, List.length_singleton] at hboth
      rw [hline, List.append_assoc, hsplit, List.length_append, List.length_append, List.length_singleton] at hlength
      have hpos := List.length_pos_of_ne_nil hrest
      rw [hkept, List.length_take] at hlength
      omega
    have hshift : shift_up (before.length + 1) 1 (before.length + kept.length + 1) line =
        some (before ++ ((kept ++ [d]).take 1 ++ kept) ++ later) := by
      rw [hline, List.append_assoc before, hsplit, List.append_cons, ← List.append_assoc]
      exact shift_up_eq Nat.one_pos before kept [d] later rfl
    obtain ⟨b, hfirst⟩ : ∃ b, (kept ++ [d]).take 1 = [b] := by
      cases kept with
      | nil => exact ⟨d, rfl⟩
      | cons b kept => exact ⟨b, rfl⟩
    rw [hnew, hshift, Option.bind_some, hfirst, List.append_assoc before, List.append_assoc [b], List.singleton_append,
      store_middle, Option.map_some]
    refine ⟨_, rfl, rfl, later, hlater, ?_, ?_, ?_, ?_⟩
    · rw [← hkept]
      simp only [List.append_assoc, List.cons_append, List.nil_append]
    · have hboth := congrArg List.length hsplit
      rw [hline] at hlength
      simp only [List.length_append, List.length_cons] at hboth hlength ⊢
      omega
    · rw [List.length_append, List.length_singleton]
    · rw [← hkept]
      show before.length + kept.length + 1 = (before ++ [c]).length + kept.length
      rw [List.length_append, List.length_singleton]
      omega
  · rw [if_neg hroom, if_neg hroom]
    exact ⟨_, rfl, rfl, rest, hrest, hline, hlength, rfl, rfl⟩

theorem Shows.addchars (h : l.Shows t) (s : Bytes) :
    ∃ l', l.addchars s = some l' ∧ l'.maxaddr = l.maxaddr ∧ l'.Shows (t.inserts l.maxaddr s) := by
  induction s generalizing l t with
  | nil => exact ⟨l, rfl, rfl, h⟩
  | cons c s ih =>
    obtain ⟨next, hnext, hmax, hshows⟩ := h.addchar c
    obtain ⟨last, hlast, hmax', hshows'⟩ := ih hshows
    refine ⟨last, ?_, hmax'.trans hmax, ?_⟩
    · rw [Line.addchars, hnext, Option.bind_some, hlast]
    · rw [hmax] at hshows'
      exact hshows'

theorem Shows.left (h : l.Shows t) : l.backward_char.Shows t.left ∧ l.backward_char.maxaddr = l.maxaddr := by
  obtain ⟨rest, hrest, hline, hlength, hthis, hend⟩ := h
  obtain ⟨before, behind⟩ := t
  unfold Line.backward_char Text.left
  dsimp only at *
  obtain rfl | ⟨before, c, rfl⟩ := List.eq_nil_or_concat before
  · rw [if_neg (by rw [hthis]; exact Nat.lt_irrefl 0)]
    exact ⟨⟨rest, hrest, hline, hlength, hthis, hend⟩, rfl⟩
  · rw [List.concat_eq_append] at *
    rw [List.length_append, List.length_singleton] at hthis hend
    rw [if_pos (by omega), List.dropLast_concat, List.getLast?_concat]
    refine ⟨⟨rest, hrest, ?_, hlength, ?_, ?_⟩, rfl⟩
    · rw [hline]
      simp only [Option.toList_some, List.append_assoc, List.cons_append, List.nil_append]
    · show l.thisaddr - 1 = before.length
      omega
    · show l.endaddr = before.length + (behind.length + 1)
      omega

theorem Shows.right (h : l.Shows t) : l.forward_char.Shows t.right ∧ l.forward_char.maxaddr = l.maxaddr := by
  obtain ⟨rest, hrest, hline, hlength, hthis, hend⟩ := h
  obtain ⟨before, behind⟩ := t
  unfold Line.forward_char Text.right
  dsimp only at *
  cases behind with
  | nil =>
    rw [if_neg (by rw [hthis, hend]; exact Nat.lt_irrefl _), List.head?_nil, Option.toList_none, List.append_nil]
    exact ⟨⟨rest, hrest, hline, hlength, hthis, hend⟩, rfl⟩
  | cons c behind =>
    rw [List.length_cons] at hend
    rw [if_pos (by omega)]
    refine ⟨⟨rest, hrest, ?_, hlength, ?_, ?_⟩, rfl⟩
    · rw [hline]
      simp only [List.head?_cons, Option.toList_some, List.tail_cons, List.append_assoc, List.cons_append,
        List.nil_append]
    · show l.thisaddr + 1 = (before ++ [c]).length
      rw [List.length_append, List.length_singleton, hthis]
    · show l.endaddr = (before ++ [c]).length + behind.length
      rw [List.length_append, List.length_singleton]
      omega

/-- The character in front of the cursor goes, and what is behind it is moved over it. -/
theorem Shows.erase_char (h : l.Shows t) :
    ∃ l', l.erase_char = some l' ∧ l'.maxaddr = l.maxaddr ∧ l'.Shows t.eraseLeft := by
  obtain ⟨rest, hrest, hline, hlength, hthis, hend⟩ := h
  obtain ⟨before, behind⟩ := t
  unfold Line.erase_char Text.eraseLeft
  dsimp only at *
  obtain rfl | ⟨before, c, rfl⟩ := List.eq_nil_or_concat before
  · rw [if_neg (by rw [hthis]; exact Nat.lt_irrefl 0)]
    exact ⟨l, rfl, rfl, rest, hrest, hline, hlength, hthis, hend⟩
  · rw [List.concat_eq_append] at *
    rw [List.length_append, List.length_singleton] at hthis hend
    obtain ⟨d, hshift⟩ := shift_down_eq before behind rest c
    have hcount : l.endaddr - 1 - (l.thisaddr - 1) = behind.length := by omega
    have hplace : l.thisaddr - 1 = before.length := by omega
    rw [if_pos (by omega), hcount, hplace, hline, List.append_assoc before, List.singleton_append, hshift,
      Option.map_some, List.dropLast_concat]
    refine ⟨_, rfl, rfl, d :: rest, List.cons_ne_nil d rest, rfl, ?_, rfl, ?_⟩
    · rw [hline] at hlength
      simp only [List.length_append, List.length_cons, List.length_nil] at hlength ⊢
      omega
    · show l.endaddr - 1 = before.length + behind.length
      omega

/-- The character under the cursor. -/
theorem Shows.under (h : l.Shows t) {c : UInt8} {behind : Bytes} (ht : t.behind = c :: behind) :
    l.line[l.thisaddr]? = some c ∧ l.thisaddr < l.endaddr := by
  obtain ⟨rest, -, hline, -, hthis, hend⟩ := h
  rw [ht] at hline hend
  rw [List.length_cons] at hend
  refine ⟨?_, by omega⟩
  rw [hline, hthis, List.append_assoc]
  exact getElem?_middle _ _ c

/-- The character in front of the cursor. -/
theorem Shows.inFront (h : l.Shows t) {c : UInt8} {before : Bytes} (ht : t.before = before ++ [c]) :
    l.line[l.thisaddr - 1]? = some c ∧ 0 < l.thisaddr := by
  obtain ⟨rest, -, hline, -, hthis, hend⟩ := h
  rw [ht] at hline hthis
  rw [List.length_append, List.length_singleton] at hthis
  refine ⟨?_, by omega⟩
  have hplace : l.thisaddr - 1 = before.length := by omega
  rw [hline, hplace, List.append_assoc, List.append_assoc]
  exact getElem?_middle before _ c

theorem Shows.rightWhile (h : l.Shows t) (q : UInt8 → Bool) {turns : Nat} (hturns : turns = t.behind.length) :
    ∃ l', forward_while q turns l = some l' ∧ l'.maxaddr = l.maxaddr ∧ l'.Shows (t.rightWhile q) := by
  subst hturns
  obtain ⟨before, behind⟩ := t
  induction behind generalizing l before with
  | nil => exact ⟨l, rfl, rfl, by rwa [Text.rightWhile, List.takeWhile_nil, List.dropWhile_nil, List.append_nil]⟩
  | cons c behind ih =>
    obtain ⟨hread, hinside⟩ := h.under rfl
    rw [List.length_cons, forward_while, if_pos hinside, hread, Option.bind_some]
    by_cases hq : q c = true
    · have hright := h.right
      rw [Line.forward_char, if_pos hinside] at hright
      obtain ⟨l', hrun, hmax, hshows⟩ := ih (before ++ [c]) hright.1
      rw [if_pos hq]
      refine ⟨l', hrun, hmax, ?_⟩
      rw [Text.rightWhile, List.takeWhile_cons_of_pos hq, List.dropWhile_cons_of_pos hq, List.append_cons]
      exact hshows
    · rw [if_neg hq]
      refine ⟨l, rfl, rfl, ?_⟩
      rw [Text.rightWhile, List.takeWhile_cons_of_neg hq, List.dropWhile_cons_of_neg hq, List.append_nil]
      exact h

theorem Shows.leftWhile (h : l.Shows t) (q : UInt8 → Bool) {turns : Nat} (hturns : turns = t.before.length) :
    ∃ l', backward_while q turns l = some l' ∧ l'.maxaddr = l.maxaddr ∧ l'.Shows (t.leftWhile q) := by
  subst hturns
  obtain ⟨before, behind⟩ := t
  induction before using List.reverseRecOn generalizing l behind with
  | nil => exact ⟨l, rfl, rfl, h⟩
  | append_singleton before c ih =>
    obtain ⟨hread, hinside⟩ := h.inFront rfl
    rw [List.length_append, List.length_singleton, backward_while, if_pos hinside, hread, Option.bind_some]
    by_cases hq : q c = true
    · have hleft := h.left
      rw [Line.backward_char, if_pos hinside, Text.left, List.dropLast_concat, List.getLast?_concat] at hleft
      obtain ⟨l', hrun, hmax, hshows⟩ := ih (c :: behind) hleft.1
      rw [if_pos hq]
      refine ⟨l', hrun, hmax, ?_⟩
      rw [Text.leftWhile, List.rdropWhile_concat_pos _ _ _ hq, List.rtakeWhile_concat_pos _ _ _ hq, List.append_assoc]
      exact hshows
    · rw [if_neg hq]
      refine ⟨l, rfl, rfl, ?_⟩
      rw [Text.leftWhile, List.rdropWhile_concat_neg _ _ _ hq, List.rtakeWhile_concat_neg _ _ _ hq]
      exact h

/-- The characters in front of the cursor go while they are such. -/
theorem Shows.eraseWhile (h : l.Shows t) (q : UInt8 → Bool) {turns : Nat} (hturns : turns = t.before.length) :
    ∃ l', erase_while q turns l = some l' ∧ l'.maxaddr = l.maxaddr ∧
      l'.Shows { t with before := t.before.rdropWhile q } := by
  subst hturns
  obtain ⟨before, behind⟩ := t
  induction before using List.reverseRecOn generalizing l with
  | nil => exact ⟨l, rfl, rfl, h⟩
  | append_singleton before c ih =>
    obtain ⟨hread, hinside⟩ := h.inFront rfl
    rw [List.length_append, List.length_singleton, erase_while, if_pos hinside, hread, Option.bind_some]
    by_cases hq : q c = true
    · obtain ⟨next, hnext, hmax, hshows⟩ := h.erase_char
      rw [Text.eraseLeft, List.dropLast_concat] at hshows
      obtain ⟨l', hrun, hmax', hshows'⟩ := ih hshows
      rw [if_pos hq, hnext, Option.bind_some]
      refine ⟨l', hrun, hmax'.trans hmax, ?_⟩
      rw [List.rdropWhile_concat_pos _ _ _ hq]
      exact hshows'
    · rw [if_neg hq]
      refine ⟨l, rfl, rfl, ?_⟩
      rw [List.rdropWhile_concat_neg _ _ _ hq]
      exact h

theorem Shows.home (h : l.Shows t) : l.home.Shows t.start := by
  obtain ⟨rest, hrest, hline, hlength, hthis, hend⟩ := h
  refine ⟨rest, hrest, hline, hlength, rfl, ?_⟩
  show l.endaddr = 0 + (t.before ++ t.behind).length
  rw [Nat.zero_add, List.length_append, hend]

theorem Shows.toEnd (h : l.Shows t) : l.toEnd.Shows t.finish := by
  obtain ⟨rest, hrest, hline, hlength, hthis, hend⟩ := h
  have hboth : l.endaddr = (t.before ++ t.behind).length := by rw [List.length_append, hend]
  refine ⟨rest, hrest, ?_, hlength, ?_, hboth⟩
  · show l.line = t.before ++ t.behind ++ [] ++ rest
    rw [List.append_nil, hline]
  · show max l.thisaddr l.endaddr = (t.before ++ t.behind).length
    rw [← hboth]
    omega

theorem Shows.erase_line (h : l.Shows t) :
    ∃ l', l.erase_line = some l' ∧ l'.maxaddr = l.maxaddr ∧ l'.Shows ⟨[], []⟩ := by
  have hend := h.toEnd
  have hturns : l.toEnd.thisaddr = t.finish.before.length := by
    obtain ⟨_, -, -, -, hthis, -⟩ := hend
    exact hthis
  obtain ⟨l', hrun, hmax, hshows⟩ := hend.eraseWhile (fun _ => true) hturns
  have hnil : t.finish.before.rdropWhile (fun _ => true) = [] := List.rdropWhile_eq_nil_iff.mpr fun _ _ => rfl
  rw [hnil] at hshows
  rw [Line.erase_line, hrun, Option.map_some]
  obtain ⟨rest, hrest, hline, hlength, hthis, _⟩ := hshows
  exact ⟨_, rfl, hmax, rest, hrest, hline, hlength, hthis, rfl⟩

theorem Shows.behind_length (h : l.Shows t) : l.endaddr - l.thisaddr = t.behind.length := by
  obtain ⟨_, -, -, -, hthis, hend⟩ := h
  omega

theorem Shows.before_length (h : l.Shows t) : l.thisaddr = t.before.length := by
  obtain ⟨_, -, -, -, hthis, -⟩ := h
  exact hthis

theorem Shows.forward_word (h : l.Shows t) :
    ∃ l', l.forward_word = some l' ∧ l'.maxaddr = l.maxaddr ∧ l'.Shows t.wordRight := by
  obtain ⟨first, hfirst, hmax, hshows⟩ := h.rightWhile is_word_delim h.behind_length
  obtain ⟨second, hsecond, hmax', hshows'⟩ := hshows.rightWhile (fun c => !is_word_delim c) hshows.behind_length
  obtain ⟨last, hlast, hmax'', hshows''⟩ := hshows'.rightWhile is_word_delim hshows'.behind_length
  refine ⟨last, ?_, hmax''.trans (hmax'.trans hmax), hshows''⟩
  rw [Line.forward_word, hfirst, Option.bind_some, hsecond, Option.bind_some, hlast]

theorem Shows.backward_word (h : l.Shows t) :
    ∃ l', l.backward_word = some l' ∧ l'.maxaddr = l.maxaddr ∧ l'.Shows t.wordLeft := by
  obtain ⟨first, hfirst, hmax, hshows⟩ := h.leftWhile is_word_delim h.before_length
  obtain ⟨last, hlast, hmax', hshows'⟩ := hshows.leftWhile (fun c => !is_word_delim c) hshows.before_length
  rw [Line.backward_word]
  by_cases hempty : l.endaddr ≤ 0
  · rw [if_pos hempty]
    refine ⟨l, rfl, rfl, ?_⟩
    have hordered := h.ordered
    have hbefore : t.before = [] := List.eq_nil_of_length_eq_zero (by rw [← h.before_length]; omega)
    have hsame : t.wordLeft = t := by
      obtain ⟨before, behind⟩ := t
      subst hbefore
      rfl
    rwa [hsame]
  · rw [if_neg hempty, hfirst, Option.bind_some]
    exact ⟨last, hlast, hmax'.trans hmax, hshows'⟩

/-- A key that deletes to the right steps over the character first. -/
theorem Shows.erase_right (h : l.Shows t) (hinside : l.thisaddr < l.endaddr) :
    ∃ l', l.forward_char.erase_char = some l' ∧ l'.maxaddr = l.maxaddr ∧ l'.Shows t.eraseRight := by
  obtain ⟨hshows, hmax⟩ := h.right
  obtain ⟨l', herase, hmax', hshows'⟩ := hshows.erase_char
  refine ⟨l', herase, hmax'.trans hmax, ?_⟩
  obtain ⟨before, behind⟩ := t
  cases behind with
  | nil =>
    have hnone := h.behind_length
    rw [List.length_nil] at hnone
    omega
  | cons c behind =>
    rw [Text.right, Text.eraseLeft, List.head?_cons, Option.toList_some, List.dropLast_concat] at hshows'
    exact hshows'

/-- What is behind the cursor goes to `killbuf`, with a NUL behind it. -/
theorem Shows.kill_loop (done : Bytes) {before behind later : Bytes} (h : l.Shows ⟨before, behind⟩)
    (hroom : behind.length < later.length) :
    ∃ later' l', Line.kill_loop behind.length done.length (done ++ later, l) =
      some (done ++ behind ++ 0 :: later', l') ∧
      l'.maxaddr = l.maxaddr ∧ l'.Shows ⟨before, []⟩ ∧ behind.length + (later'.length + 1) = later.length := by
  induction behind generalizing l done later with
  | nil =>
    obtain ⟨d, later, rfl⟩ := List.exists_cons_of_length_pos hroom
    refine ⟨later, l, ?_, rfl, h, by rw [List.length_cons, List.length_nil, Nat.zero_add]⟩
    rw [List.length_nil, Line.kill_loop, store_middle, Option.map_some, List.append_nil]
  | cons c behind ih =>
    obtain ⟨hread, hinside⟩ := h.under rfl
    obtain ⟨d, later, rfl⟩ := List.exists_cons_of_length_pos (Nat.zero_lt_of_lt hroom)
    obtain ⟨next, hnext, hmax, hshows⟩ := h.erase_right hinside
    rw [List.length_cons, List.length_cons] at hroom
    obtain ⟨later', l', hrun, hmax', hshows', hlength⟩ := ih (done ++ [c]) hshows (Nat.lt_of_succ_lt_succ hroom)
    refine ⟨later', l', ?_, hmax'.trans hmax, hshows', ?_⟩
    · rw [List.length_append, List.length_singleton, List.append_assoc, List.singleton_append] at hrun
      rw [List.length_cons, Line.kill_loop, if_pos hinside, hread, Option.bind_some, store_middle, Option.bind_some,
        hnext,
        Option.bind_some, hrun]
      simp only [List.append_assoc, List.cons_append, List.nil_append]
    · rw [List.length_cons, List.length_cons]
      omega

theorem Shows.kill_forward {killbuf : Bytes} (h : l.Shows t) (hroom : t.behind.length < killbuf.length) :
    ∃ later l', l.kill_forward killbuf = some (t.behind ++ 0 :: later, l') ∧ l'.maxaddr = l.maxaddr ∧
      l'.Shows ⟨t.before, []⟩ ∧ (t.behind ++ 0 :: later).length = killbuf.length := by
  obtain ⟨later, l', hrun, hmax, hshows, hlength⟩ := Shows.kill_loop [] (h : l.Shows ⟨t.before, t.behind⟩) hroom
  refine ⟨later, l', ?_, hmax, hshows, by rw [List.length_append, List.length_cons, hlength]⟩
  rw [Line.kill_forward, h.behind_length]
  exact hrun

/-- Where it does not fit, there is a store behind the end of `killbuf`. -/
theorem Shows.kill_loop_overflow {killbuf before behind : Bytes} {p : Nat} (h : l.Shows ⟨before, behind⟩)
    (hfull : killbuf.length ≤ p + behind.length) : Line.kill_loop behind.length p (killbuf, l) = none := by
  induction behind generalizing l killbuf p with
  | nil => rw [List.length_nil, Line.kill_loop, store, if_neg (by simpa using hfull), Option.map_none]
  | cons c behind ih =>
    obtain ⟨hread, hinside⟩ := h.under rfl
    obtain ⟨next, hnext, hmax, hshows⟩ := h.erase_right hinside
    rw [List.length_cons] at hfull
    rw [List.length_cons, Line.kill_loop, if_pos hinside, hread, Option.bind_some]
    cases hstore : store killbuf p c with
    | none => rfl
    | some killbuf' =>
      rw [Option.bind_some, hnext, Option.bind_some]
      exact ih hshows (by rw [store_length hstore]; omega)

theorem Shows.yank {killbuf : Bytes} (h : l.Shows t) (hend : 0 ∈ killbuf) :
    ∃ l', l.yank killbuf = some l' ∧ l'.maxaddr = l.maxaddr ∧ l'.Shows (t.inserts l.maxaddr (c_str killbuf)) := by
  rw [Line.yank, if_pos hend]
  exact h.addchars (c_str killbuf)

end Line

end DuneWeaver.Lineedit
