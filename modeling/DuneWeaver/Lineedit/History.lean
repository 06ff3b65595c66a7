import DuneWeaver.Lineedit.Line

namespace DuneWeaver.Lineedit

def MAXHISTORY : Nat := 400

/-- The lines that can be recalled, each with a NUL behind it, and how far they go. -/
structure History where
  lastline : Bytes := List.replicate MAXHISTORY 0
  saved_length : Nat := 0
  deriving DecidableEq

namespace History

def validate_history (h : History) : History :=
  if h.saved_length = 0 ∨ MAXHISTORY < h.saved_length ∨ h.lastline.any fun c => c &&& 0x80 ≠ 0 then {} else h

/-- `while (*p != '\0') ++p;`, which needs a NUL to end inside of the buffer. -/
def terminator (buffer : Bytes) (p : Nat) : Option Nat :=
  if 0 ∈ buffer.drop p then some (p + (c_str (buffer.drop p)).length) else none

/-- The loop of `already_in_history`, up to the entry that is the line. -/
@[grind =] def find (lastline adr : Bytes) (len : Nat) : Nat → Nat → Nat → Nat → Option (Option Nat)
  | 0, _, _, _ => none
  | turns + 1, p, first, thischar =>
    if p < MAXHISTORY then
      lastline[p]?.bind fun c =>
        if c = 0 then
          if p - first = len then some (some first)
          else if p + 1 = MAXHISTORY then some none
          else find lastline adr len turns (p + 1) (p + 1) 0
        else adr[thischar]?.bind fun d =>
          if c = d then find lastline adr len turns (p + 1) first (thischar + 1)
          else (terminator lastline (p + 1)).bind fun p => find lastline adr len turns (p + 1) (p + 1) 0
    else some none

/-- The entry at `first` is put in front of the others, by a copy of these within the array. -/
def reorder (adr : Bytes) (len first : Nat) (lastline : Bytes) : Option Bytes :=
  (shift_up (len + 1) (len + 1) (first + len) lastline).bind fun lastline =>
    (store lastline (if first = 0 then len - 1 else len) 0).bind fun lastline => store_all lastline 0 (adr.take len)

def already_in_history (adr : Bytes) (len : Nat) (h : History) : Option (Bool × History) :=
  if h.saved_length = 0 then some (false, h)
  else (find h.lastline adr len (MAXHISTORY + 1) 0 0 0).bind fun found =>
    match found with
    | none => some (false, h)
    | some first => (reorder adr len first h.lastline).map fun lastline => (true, { h with lastline })

/-- `while (--i >= 0) lastline[i] = adr[i];` -/
def copy_down (adr : Bytes) : Nat → Bytes → Option Bytes
  | 0, lastline => some lastline
  | i + 1, lastline => adr[i]?.bind fun c => (store lastline i c).bind (copy_down adr i)

/-- Room is made at the front for a line of this length, with its NUL, and the line is put there. -/
def insert (adr : Bytes) (len : Nat) (h : History) : Option History :=
  let len := len + 1
  let new_length := if MAXHISTORY < len then MAXHISTORY else len
  (shift_up new_length new_length MAXHISTORY h.lastline).bind fun lastline =>
    (store lastline (MAXHISTORY - 1) 0).bind fun lastline =>
      (store lastline (new_length - 1) 0).bind fun lastline =>
        (copy_down adr (new_length - 1) lastline).map fun lastline =>
          let saved_length := h.saved_length + new_length
          ⟨lastline, if MAXHISTORY < saved_length then MAXHISTORY else saved_length⟩

def add_to_history (adr : Bytes) (len : Nat) (h : History) : Option History :=
  let h := h.validate_history
  if len ≠ 0 then
    (h.already_in_history adr len).bind fun (found, h) => if found then some h else h.insert adr len
  else some h

/-- The loop of `get_history` over the entries in front of the one that is asked for. -/
def seek (h : History) : Nat → Nat → Option (Option Nat)
  | 0, p => some (some p)
  | hn + 1, p =>
    (terminator h.lastline p).bind fun p => if h.saved_length ≤ p + 1 then some none else h.seek hn (p + 1)

/-- The loop of `get_history` that fills the line. -/
def fill (lastline : Bytes) : Nat → Nat → Line → Option Line
  | 0, _, l => some l
  | turns + 1, p, l =>
    lastline[p]?.bind fun c => if c = 0 then some l else (l.addchar c).bind (fill lastline turns (p + 1))

def get_history (history_num : Int) (l : Line) (h : History) : Option (Bool × Line × History) :=
  let h := h.validate_history
  if h.saved_length = 0 then some (false, l, h)
  else if history_num < 0 then some (false, l, h)
  else (h.seek history_num.toNat 0).bind fun p =>
    match p with
    | none => some (false, l, h)
    | some p => l.erase_line.bind fun l => (fill h.lastline (l.maxaddr - 1) p l).map fun l => (true, l, h)

end History

/-- Strings with a NUL behind each. -/
def joined (lines : List Bytes) : Bytes := lines.flatMap fun line => line ++ [0]

section Joined

variable {lines segs : List Bytes} {text rest : Bytes}

@[simp] theorem joined_nil : joined [] = [] := rfl

@[simp] theorem joined_cons (line : Bytes) (lines : List Bytes) :
    joined (line :: lines) = line ++ 0 :: joined lines := by
  rw [joined, List.flatMap_cons, List.append_assoc]
  rfl

theorem joined_append (first second : List Bytes) : joined (first ++ second) = joined first ++ joined second :=
  List.flatMap_append

end Joined

namespace History

section Find

variable {lastline adr : Bytes} {len : Nat}

theorem terminator_eq (front string later : Bytes) (hzero : 0 ∉ string) :
    terminator (front ++ (string ++ 0 :: later)) front.length = some (front.length + string.length) := by
  rw [terminator, List.drop_left, c_str_before_nul, c_str_eq_self hzero,
    if_pos (List.mem_append_right _ List.mem_cons_self)]

/-- The loop within one entry, of which the line has agreed with the first characters. -/
theorem find_entry (turns : Nat) (seen : Bytes) {front entry later : Bytes} (hzero : 0 ∉ entry)
    (hlen : len ≤ adr.length)
    (hroom : seen.length + entry.length ≤ adr.length) (hseen : adr.take seen.length = seen)
    (hlastline : lastline = front ++ seen ++ (entry ++ 0 :: later)) (hlength : lastline.length = MAXHISTORY)
    (hturns : MAXHISTORY < front.length + seen.length + turns) :
    if adr.take len = seen ++ entry then
      find lastline adr len turns (front.length + seen.length) front.length seen.length = some (some front.length)
    else if later = [] then
      find lastline adr len turns (front.length + seen.length) front.length seen.length = some none
    else ∃ turns', MAXHISTORY < (front ++ seen ++ entry ++ [0]).length + turns' ∧
      find lastline adr len turns (front.length + seen.length) front.length seen.length =
        find lastline adr len turns' (front ++ seen ++ entry ++ [0]).length (front ++ seen ++ entry ++ [0]).length
          0 := by
  have hinside : front.length + seen.length + entry.length + 1 + later.length = MAXHISTORY := by
    rw [← hlength, hlastline]
    simp only [List.length_append, List.length_cons]
    omega
  have hbehind : later = [] ↔ front.length + seen.length + entry.length + 1 = MAXHISTORY := by
    rw [← List.length_eq_zero_iff]
    omega
  induction entry generalizing seen turns with
  | nil =>
    obtain ⟨turns, rfl⟩ : ∃ fewer, turns = fewer + 1 := ⟨turns - 1, by omega⟩
    have hread : lastline[front.length + seen.length]? = some 0 := by
      rw [hlastline, ← List.length_append]
      exact getElem?_middle _ _ _
    rw [List.length_nil, Nat.add_zero] at hbehind hroom
    have hturn : find lastline adr len (turns + 1) (front.length + seen.length) front.length seen.length =
        if front.length + seen.length - front.length = len then some (some front.length)
        else if front.length + seen.length + 1 = MAXHISTORY then some none
        else find lastline adr len turns (front.length + seen.length + 1) (front.length + seen.length + 1) 0 := by
      rw [find, if_pos (by omega), hread, Option.bind_some, if_pos rfl]
    rw [hturn, List.append_nil, List.append_nil]
    have hagree : adr.take len = seen ↔ front.length + seen.length - front.length = len := by
      rw [Nat.add_sub_cancel_left]
      constructor
      · intro h
        have hboth := congrArg List.length h
        rw [List.length_take] at hboth
        omega
      · rintro rfl
        exact hseen
    by_cases hsame : adr.take len = seen
    · rw [if_pos hsame, if_pos (hagree.mp hsame)]
    · rw [if_neg hsame, if_neg (mt hagree.mpr hsame)]
      by_cases hlast : later = []
      · rw [if_pos hlast, if_pos (hbehind.mp hlast)]
      · rw [if_neg hlast, if_neg (mt hbehind.mpr hlast)]
        have hplace : (front ++ seen ++ [0]).length = front.length + seen.length + 1 := by
          rw [List.length_append, List.length_append, List.length_singleton]
        rw [hplace]
        exact ⟨turns, by omega, rfl⟩
  | cons c entry ih =>
    obtain ⟨turns, rfl⟩ : ∃ fewer, turns = fewer + 1 := ⟨turns - 1, by omega⟩
    rw [List.length_cons] at hinside hbehind hroom
    rw [List.mem_cons, not_or] at hzero
    have hread : lastline[front.length + seen.length]? = some c := by
      rw [hlastline, ← List.length_append]
      exact getElem?_middle _ _ _
    obtain ⟨d, hd⟩ : ∃ d, adr[seen.length]? = some d := ⟨_, List.getElem?_eq_getElem (by omega)⟩
    have hturn : find lastline adr len (turns + 1) (front.length + seen.length) front.length seen.length =
        if c = d then find lastline adr len turns (front.length + seen.length + 1) front.length (seen.length + 1)
        else (terminator lastline (front.length + seen.length + 1)).bind fun p =>
          find lastline adr len turns (p + 1) (p + 1) 0 := by
      rw [find, if_pos (by omega), hread, Option.bind_some, if_neg (Ne.symm hzero.1), hd, Option.bind_some]
    rw [hturn]
    have hplace : (front ++ seen ++ (c :: entry) ++ [0]).length = front.length + seen.length + 1 + entry.length +
        1 := by
      simp only [List.length_append, List.length_cons, List.length_nil]
      omega
    by_cases hsame : c = d
    · rw [if_pos hsame]
      have hnext : seen ++ c :: entry = (seen ++ [c]) ++ entry := by rw [List.append_assoc, List.singleton_append]
      have hcount : (seen ++ [c]).length = seen.length + 1 := by rw [List.length_append, List.length_singleton]
      have hrest := ih turns (seen ++ [c]) hzero.2 (by omega)
        (by rw [hcount, List.take_add_one, hseen, hd, hsame]; rfl)
        (by rw [hlastline]; simp only [List.append_assoc, List.cons_append, List.nil_append]) (by omega) (by omega)
        (by rw [hbehind]; omega)
      rw [hnext, List.append_assoc front seen, hnext, ← List.append_assoc front (seen ++ [c])]
      rw [hcount, ← Nat.add_assoc] at hrest
      exact hrest
    · rw [if_neg hsame]
      have hother : adr.take len ≠ seen ++ c :: entry := by
        intro h
        have hget : (adr.take len)[seen.length]? = (seen ++ c :: entry)[seen.length]? := by rw [h]
        rw [getElem?_middle, List.getElem?_take] at hget
        split_ifs at hget
        rw [hd] at hget
        exact hsame (Option.some.inj hget).symm
      have hskip : terminator lastline (front.length + seen.length + 1) =
          some (front.length + seen.length + 1 + entry.length) := by
        have hfront : front.length + seen.length + 1 = (front ++ seen ++ [c]).length := by
          rw [List.length_append, List.length_append, List.length_singleton]
        have harray : lastline = (front ++ seen ++ [c]) ++ (entry ++ 0 :: later) := by
          rw [hlastline]
          simp only [List.append_assoc, List.cons_append, List.nil_append]
        rw [hfront, harray]
        exact terminator_eq _ _ _ hzero.2
      rw [hskip, Option.bind_some, if_neg hother, hplace]
      by_cases hlast : later = []
      · rw [if_pos hlast]
        have hend := hbehind.mp hlast
        obtain ⟨turns, rfl⟩ : ∃ fewer, turns = fewer + 1 := ⟨turns - 1, by omega⟩
        rw [find, if_neg (by omega)]
      · rw [if_neg hlast]
        exact ⟨turns, by omega, rfl⟩

/-- The loop finds the first entry that is the line, and it ends where there is none. -/
theorem find_eq {segs : List Bytes} (turns : Nat) (front : Bytes) (hsegs : ∀ seg ∈ segs, 0 ∉ seg)
    (hfits : ∀ seg ∈ segs, seg.length ≤ adr.length) (hlen : len ≤ adr.length)
    (hlastline : lastline = front ++ joined segs)
    (hlength : lastline.length = MAXHISTORY) (hne : segs ≠ []) (hturns : MAXHISTORY < front.length + turns) :
    (adr.take len ∉ segs ∧ find lastline adr len turns front.length front.length 0 = some none) ∨
      ∃ before after, segs = before ++ adr.take len :: after ∧ adr.take len ∉ before ∧
        find lastline adr len turns front.length front.length 0 = some (some (front ++ joined before).length) := by
  induction segs generalizing front turns with
  | nil => exact absurd rfl hne
  | cons seg segs ih =>
    rw [joined_cons] at hlastline
    have hentry := find_entry turns [] (hsegs seg List.mem_cons_self) hlen
      (by rw [List.length_nil, Nat.zero_add]; exact hfits seg List.mem_cons_self) rfl
      (by rw [List.append_nil]; exact hlastline) hlength (by rw [List.length_nil, Nat.add_zero]; exact hturns)
    rw [List.length_nil, Nat.add_zero, List.nil_append, List.append_nil] at hentry
    by_cases hsame : adr.take len = seg
    · rw [if_pos hsame] at hentry
      exact .inr ⟨[], segs, by rw [hsame]; rfl, List.not_mem_nil, by rw [hentry, joined_nil, List.append_nil]⟩
    · rw [if_neg hsame] at hentry
      cases segs with
      | nil =>
        rw [joined_nil, if_pos rfl] at hentry
        exact .inl ⟨by rw [List.mem_singleton]; exact hsame, hentry⟩
      | cons next segs =>
        have hlater : joined (next :: segs) ≠ [] := by
          rw [joined_cons]
          exact List.append_ne_nil_of_right_ne_nil next (List.cons_ne_nil 0 _)
        rw [if_neg hlater] at hentry
        obtain ⟨turns', hturns', hgo⟩ := hentry
        rw [hgo]
        have hfront : lastline = (front ++ seg ++ [0]) ++ joined (next :: segs) := by
          rw [hlastline]
          simp only [List.append_assoc, List.cons_append, List.nil_append]
        rcases ih turns' (front ++ seg ++ [0]) (fun s hs => hsegs s (List.mem_cons_of_mem _ hs))
          (fun s hs => hfits s (List.mem_cons_of_mem _ hs)) hfront (List.cons_ne_nil _ _) hturns' with
          ⟨hnot, hrun⟩ | ⟨before, after, hsplit, hnot, hrun⟩
        · refine .inl ⟨?_, hrun⟩
          rw [List.mem_cons, not_or]
          exact ⟨hsame, hnot⟩
        · refine .inr ⟨seg :: before, after, by rw [hsplit]; rfl, ?_, ?_⟩
          · rw [List.mem_cons, not_or]
            exact ⟨hsame, hnot⟩
          · rw [hrun, joined_cons]
            simp only [List.append_assoc, List.cons_append, List.nil_append]

end Find

section Stored

variable {lastline adr text : Bytes} {len : Nat}

theorem copy_down_eq (front later : Bytes) (adr : Bytes) (hadr : front.length ≤ adr.length) :
    copy_down adr front.length (front ++ later) = some (adr.take front.length ++ later) := by
  induction front using List.reverseRecOn generalizing later with
  | nil => rfl
  | append_singleton front d ih =>
    rw [List.length_append, List.length_singleton] at hadr ⊢
    have hread : adr[front.length]? = some (adr[front.length]) := List.getElem?_eq_getElem (by omega)
    rw [copy_down, hread, Option.bind_some, List.append_assoc, List.singleton_append, store_middle, Option.bind_some,
      ih _ (by omega), List.take_add_one, hread, List.append_assoc]
    rfl

/-- A string of the same length is stored over the front. -/
theorem store_all_front (front later text : Bytes) (htext : text.length = front.length) :
    store_all (front ++ later) 0 text = some (text ++ later) := by
  suffices h : ∀ done : Bytes, store_all (done ++ front ++ later) done.length text =
    some (done ++ text ++ later) from h []
  induction text generalizing front with
  | nil =>
    intro done
    rw [List.eq_nil_of_length_eq_zero htext.symm]
    rfl
  | cons c text ih =>
    intro done
    obtain ⟨d, front, rfl⟩ := List.exists_cons_of_length_eq_add_one (htext.symm.trans List.length_cons)
    have hnext := ih front (by simpa using htext) (done ++ [c])
    rw [store_all, List.append_assoc, List.cons_append, store_middle, Option.bind_some]
    rw [List.length_append, List.length_singleton] at hnext
    simpa only [List.append_assoc, List.cons_append, List.nil_append] using hnext

/-- The entry is put in front, and those before it behind it. -/
theorem reorder_eq {before after : List Bytes} (hlen : text.length = len) (hpos : 0 < len)
    (hadr : adr.take len = text) :
    reorder adr len (joined before).length (joined before ++ text ++ 0 :: joined after) =
      some (text ++ 0 :: (joined before ++ joined after)) := by
  rw [reorder, hadr]
  obtain hnil | ⟨m, hm⟩ : joined before = [] ∨ ∃ m, joined before = m ++ [0] := by
    rcases List.eq_nil_or_concat before with rfl | ⟨lines, line, rfl⟩
    · exact .inl rfl
    · rw [List.concat_eq_append, joined_append, joined_cons, joined_nil]
      exact .inr ⟨joined lines ++ line, by rw [List.append_assoc]⟩
  · -- It is in front already, and only its last character is stored again.
    obtain ⟨init, c, rfl⟩ := List.eq_nil_or_concat text |>.resolve_left (by
      rintro rfl
      rw [List.length_nil] at hlen
      omega)
    rw [List.concat_eq_append] at hlen ⊢
    rw [List.length_append, List.length_singleton] at hlen
    have hshift : ∀ buffer : Bytes, shift_up (len + 1) (len + 1) len buffer = some buffer := by
      intro buffer
      obtain ⟨n, rfl⟩ : ∃ n, len = n + 1 := ⟨len - 1, by omega⟩
      rw [shift_up, if_neg (by omega)]
    rw [hnil, List.length_nil, Nat.zero_add, hshift, Option.bind_some, if_pos rfl, ← hlen, Nat.add_sub_cancel,
      List.nil_append, List.nil_append, List.append_assoc, List.singleton_append, store_middle, Option.bind_some,
      List.append_cons init 0, store_all_front (init ++ [0]) _ (init ++ [c])
        (by simp only [List.length_append, List.length_singleton])]
    simp only [List.append_assoc, List.cons_append, List.nil_append]
  · have harray : joined before ++ text ++ 0 :: joined after = [] ++ (m ++ (0 :: text)) ++ (0 :: joined after) := by
      rw [hm]
      simp only [List.append_assoc, List.cons_append, List.nil_append]
    have hcount : (joined before).length + len = ([] : Bytes).length + m.length + (len + 1) := by
      rw [hm, List.length_append, List.length_singleton, List.length_nil]
      omega
    have hshift :
        shift_up (len + 1) (len + 1) ((joined before).length + len) (joined before ++ text ++ 0 :: joined after) =
        some ((m ++ 0 :: text).take (len + 1) ++ m ++ 0 :: joined after) := by
      have hcopy := shift_up_eq (Nat.succ_pos len) [] m (0 :: text) (0 :: joined after) (by rw [List.length_cons, hlen])
      rw [List.length_nil, Nat.zero_add, List.nil_append] at hcopy
      rw [harray, hcount, List.length_nil, List.nil_append]
      exact hcopy
    obtain ⟨front, c, hfront, hlength⟩ : ∃ front c, (m ++ 0 :: text).take (len + 1) = front ++ [c] ∧
      front.length = len := by
      obtain ⟨front, c, hfront⟩ := List.eq_nil_or_concat ((m ++ 0 :: text).take (len + 1)) |>.resolve_left (by
        intro hnil
        have hboth := congrArg List.length hnil
        rw [List.length_take, List.length_append, List.length_cons, List.length_nil] at hboth
        omega)
      rw [List.concat_eq_append] at hfront
      refine ⟨front, c, hfront, ?_⟩
      have hboth := congrArg List.length hfront
      rw [List.length_take, List.length_append, List.length_cons, List.length_append, List.length_singleton] at hboth
      omega
    have hnonempty : (joined before).length ≠ 0 := by
      rw [hm, List.length_append, List.length_singleton]
      omega
    rw [hshift, Option.bind_some, if_neg hnonempty, hfront, ← hlength, List.append_assoc, List.append_assoc,
      List.singleton_append, store_middle, Option.bind_some, store_all_front front _ text (hlen.trans hlength.symm), hm]
    simp only [List.append_assoc, List.cons_append, List.nil_append]

end Stored

end History

/-- The front of the lines that fits, of the last one as much as there is room for. -/
def stored : Nat → List Bytes → List Bytes
  | _, [] => []
  | room, line :: lines =>
    line.take room :: if line.length < room then stored (room - line.length - 1) lines else []

/-- The array with these lines. -/
def filled (lines : List Bytes) : Bytes :=
  (joined lines ++ List.replicate MAXHISTORY 0).take (MAXHISTORY - 1) ++ [0]

section Filled

variable {lines : List Bytes} {text : Bytes} {room : Nat}

theorem joined_replicate (n : Nat) : joined (List.replicate n []) = List.replicate n 0 := by
  induction n with
  | zero => rfl
  | succ n ih =>
    rw [List.replicate_succ, List.replicate_succ, joined_cons, ih]
    rfl

theorem joined_stored (lines : List Bytes) {room zeros : Nat} (hzeros : room ≤ zeros) :
    ∃ n, (joined lines ++ List.replicate zeros 0).take room ++ [0] =
      joined (stored room lines ++ List.replicate n []) := by
  induction lines generalizing room zeros with
  | nil =>
    refine ⟨room + 1, ?_⟩
    rw [joined_nil, List.nil_append, List.take_replicate, Nat.min_eq_left hzeros, stored, List.nil_append,
      joined_replicate,
      List.replicate_succ']
  | cons line lines ih =>
    by_cases hroom : line.length < room
    · obtain ⟨n, hn⟩ := @ih (room - line.length - 1) zeros (by omega)
      refine ⟨n, ?_⟩
      obtain ⟨more, hmore⟩ : ∃ more, room = line.length + (more + 1) := ⟨room - line.length - 1, by omega⟩
      have hrest : room - line.length - 1 = more := by omega
      rw [hrest] at hn
      rw [stored, if_pos hroom, List.take_of_length_le hroom.le, hrest, List.cons_append, joined_cons, joined_cons,
        List.append_assoc, List.cons_append, hmore, List.take_length_add_append, List.take_succ_cons, List.append_assoc,
        List.cons_append, hn]
    · refine ⟨0, ?_⟩
      rw [stored, if_neg hroom, List.replicate_zero, List.append_nil, joined_cons, joined_cons, joined_nil,
        List.append_assoc, List.take_append_of_le_length (by omega)]

theorem filled_length (lines : List Bytes) : (filled lines).length = MAXHISTORY := by
  rw [filled, List.length_append, List.length_take, List.length_append, List.length_replicate, List.length_singleton]
  unfold MAXHISTORY
  omega

/-- The array is its lines with empty strings behind them. -/
theorem filled_eq (lines : List Bytes) :
    ∃ n, filled lines = joined (stored (MAXHISTORY - 1) lines ++ List.replicate n []) :=
  joined_stored lines (by decide)

theorem mem_stored {seg : Bytes} (hseg : seg ∈ stored room lines) : ∃ line ∈ lines, seg <+: line := by
  induction lines generalizing room with
  | nil => exact absurd hseg List.not_mem_nil
  | cons line lines ih =>
    rw [stored, List.mem_cons] at hseg
    rcases hseg with rfl | hseg
    · exact ⟨line, List.mem_cons_self, List.take_prefix _ _⟩
    · split_ifs at hseg
      · obtain ⟨other, hother, hcut⟩ := ih hseg
        exact ⟨other, List.mem_cons_of_mem _ hother, hcut⟩
      · exact absurd hseg List.not_mem_nil

/-- What is found in the array is a line, or the front of the one that is cut. -/
theorem stored_split {before after : List Bytes} (h : stored room lines = before ++ text :: after) :
    (∃ rest, lines = before ++ text :: rest) ∨
      ∃ more rest, more ≠ [] ∧ lines = before ++ (text ++ more) :: rest ∧
      (joined before).length + text.length = room := by
  induction lines generalizing room before with
  | nil => exact absurd h.symm (List.append_ne_nil_of_right_ne_nil before (List.cons_ne_nil text after))
  | cons line lines ih =>
    rw [stored] at h
    cases before with
    | nil =>
      rw [List.nil_append, List.cons.injEq] at h
      by_cases hroom : line.length ≤ room
      · rw [List.take_of_length_le hroom] at h
        exact .inl ⟨lines, by rw [h.1]; rfl⟩
      · refine .inr ⟨line.drop room, lines, ?_, ?_, ?_⟩
        · intro hnil
          have hlength := congrArg List.length hnil
          rw [List.length_drop, List.length_nil] at hlength
          omega
        · rw [← h.1, List.take_append_drop]
          rfl
        · rw [← h.1, joined_nil, List.length_nil, Nat.zero_add, List.length_take]
          omega
    | cons first before =>
      rw [List.cons_append, List.cons.injEq] at h
      obtain ⟨hfirst, hrest⟩ := h
      split_ifs at hrest with hroom
      · rw [List.take_of_length_le hroom.le] at hfirst
        subst hfirst
        rcases ih hrest with ⟨rest, rfl⟩ | ⟨more, rest, hmore, rfl, hlength⟩
        · exact .inl ⟨rest, rfl⟩
        · refine .inr ⟨more, rest, hmore, rfl, ?_⟩
          rw [joined_cons, List.length_append, List.length_cons]
          omega
      · exact absurd hrest.symm (List.append_ne_nil_of_right_ne_nil before (List.cons_ne_nil text after))

/-- A line for which there is room is there. -/
theorem stored_of_room {before after : List Bytes} (hroom : (joined before).length + text.length ≤ room) :
    text ∈ stored room (before ++ text :: after) := by
  induction before generalizing room with
  | nil =>
    rw [joined_nil, List.length_nil, Nat.zero_add] at hroom
    rw [List.nil_append, stored, List.take_of_length_le hroom]
    exact List.mem_cons_self
  | cons line before ih =>
    rw [joined_cons, List.length_append, List.length_cons] at hroom
    rw [List.cons_append, stored, if_pos (by omega)]
    exact List.mem_cons_of_mem _ (ih (by omega))

/-- An array that ends with a NUL and agrees in front of it. -/
theorem eq_filled {segs : List Bytes} (hne : segs ≠ []) (hlength : (joined segs).length = MAXHISTORY)
    (htake : (joined segs).take (MAXHISTORY - 1) =
    (joined lines ++ List.replicate MAXHISTORY 0).take (MAXHISTORY - 1)) :
    joined segs = filled lines := by
  obtain ⟨init, last, rfl⟩ := List.eq_nil_or_concat segs |>.resolve_left hne
  rw [List.concat_eq_append, joined_append, joined_cons, joined_nil, List.append_cons last, List.append_nil,
    ← List.append_assoc] at *
  rw [List.length_append, List.length_singleton] at hlength
  have hend : (joined init ++ last).length = MAXHISTORY - 1 := by omega
  rw [filled, ← htake, ← hend, List.take_left]

theorem take_swap {front front' first second : Bytes} {n : Nat} (hlength : front.length = front'.length)
    (h : (front ++ first).take n = (front ++ second).take n) :
    (front' ++ first).take n = (front' ++ second).take n := by
  rw [List.take_append, List.take_append] at h ⊢
  rw [← hlength, List.append_cancel_left h]

end Filled

/-- The lines, the one used last in front, after another one is finished. -/
def used (text : Bytes) (lines : List Bytes) : List Bytes := if text = [] then lines else text :: lines.erase text

/-- The array holds these lines. -/
structure History.Holds (linelen : Nat) (lines : List Bytes) (h : History) : Prop where
  lastline : h.lastline = filled lines
  saved_length : h.saved_length = min MAXHISTORY (joined lines).length
  nonempty : ∀ line ∈ lines, line ≠ []
  zero : ∀ line ∈ lines, 0 ∉ line
  fits : ∀ line ∈ lines, line.length ≤ linelen
  nodup : lines.Nodup

/-- A byte of the array makes the whole of it invalid. -/
def Invalid (lines : List Bytes) : Bool := (filled lines).any fun c => c &&& 0x80 ≠ 0

/-- The lines that are left when it is looked whether the array is valid. -/
def valid (lines : List Bytes) : List Bytes := if Invalid lines then [] else lines

namespace History

variable {linelen : Nat} {lines : List Bytes} {h : History} {text adr rest : Bytes}

theorem holds_nil (linelen : Nat) : ({} : History).Holds linelen [] where
  lastline := by
    rw [filled, joined_nil, List.nil_append, List.take_replicate]
    exact List.replicate_succ'
  saved_length := rfl
  nonempty := fun _ hline => absurd hline List.not_mem_nil
  zero := fun _ hline => absurd hline List.not_mem_nil
  fits := fun _ hline => absurd hline List.not_mem_nil
  nodup := List.nodup_nil

theorem Holds.empty_iff (hholds : h.Holds linelen lines) : h.saved_length = 0 ↔ lines = [] := by
  rw [hholds.saved_length]
  cases lines with
  | nil => exact ⟨fun _ => rfl, fun _ => rfl⟩
  | cons line lines =>
    rw [joined_cons, List.length_append, List.length_cons]
    refine iff_of_false ?_ (List.cons_ne_nil line lines)
    unfold MAXHISTORY
    omega

theorem Holds.validate (hholds : h.Holds linelen lines) : h.validate_history.Holds linelen (valid lines) := by
  have hlong : ¬MAXHISTORY < h.saved_length := by
    rw [hholds.saved_length]
    omega
  have hbytes : (h.lastline.any fun c => c &&& 0x80 ≠ 0) = Invalid lines := by rw [hholds.lastline, Invalid]
  unfold validate_history valid
  by_cases hinvalid : Invalid lines = true
  · rw [if_pos hinvalid, if_pos (.inr (.inr (hbytes.trans hinvalid)))]
    exact holds_nil linelen
  · rw [if_neg hinvalid]
    by_cases hnil : lines = []
    · rw [if_pos (.inl (hholds.empty_iff.mpr hnil)), hnil]
      exact holds_nil linelen
    · have hnone : ¬(h.saved_length = 0 ∨ MAXHISTORY < h.saved_length ∨ h.lastline.any fun c => c &&& 0x80 ≠ 0) := by
        rintro (hempty | hover | hbyte)
        · exact hnil (hholds.empty_iff.mp hempty)
        · exact hlong hover
        · exact hinvalid (hbytes.symm.trans hbyte)
      rw [if_neg hnone]
      exact hholds

/-- The strings that the array is joined from. -/
theorem Holds.segments (hholds : h.Holds linelen lines) :
    ∃ n, h.lastline = joined (stored (MAXHISTORY - 1) lines ++ List.replicate n []) ∧
      ∀ seg ∈ stored (MAXHISTORY - 1) lines ++ List.replicate n [], 0 ∉ seg ∧ seg.length ≤ linelen := by
  obtain ⟨n, hn⟩ := filled_eq lines
  refine ⟨n, hholds.lastline.trans hn, fun seg hseg => ?_⟩
  rcases List.mem_append.mp hseg with hseg | hseg
  · obtain ⟨line, hline, hcut⟩ := mem_stored hseg
    exact ⟨fun hzero => hholds.zero line hline (hcut.subset hzero), hcut.length_le.trans (hholds.fits line hline)⟩
  · rw [List.eq_of_mem_replicate hseg]
    exact ⟨List.not_mem_nil, Nat.zero_le linelen⟩

theorem Holds.used_lines (hholds : h.Holds linelen lines) (hne : text ≠ []) (hzero : 0 ∉ text)
    (hfits : text.length ≤ linelen) :
    (∀ line ∈ text :: lines.erase text, line ≠ []) ∧ (∀ line ∈ text :: lines.erase text, 0 ∉ line) ∧
      (∀ line ∈ text :: lines.erase text, line.length ≤ linelen) ∧ (text :: lines.erase text).Nodup := by
  refine ⟨?_, ?_, ?_, ?_⟩
  · rintro line (_ | ⟨_, hline⟩)
    · exact hne
    · exact hholds.nonempty line (List.mem_of_mem_erase hline)
  · rintro line (_ | ⟨_, hline⟩)
    · exact hzero
    · exact hholds.zero line (List.mem_of_mem_erase hline)
  · rintro line (_ | ⟨_, hline⟩)
    · exact hfits
    · exact hholds.fits line (List.mem_of_mem_erase hline)
  · rw [List.nodup_cons]
    exact ⟨hholds.nodup.not_mem_erase, hholds.nodup.erase text⟩

/-- A line that is found goes to the front. -/
theorem Holds.reorder {n : Nat} {before after : List Bytes} (hholds : h.Holds linelen lines) (hne : text ≠ [])
    (hadr : adr.take text.length = text)
    (hlastline : h.lastline = joined (stored (MAXHISTORY - 1) lines ++ List.replicate n []))
    (hsplit : stored (MAXHISTORY - 1) lines ++ List.replicate n [] = before ++ text :: after) (hnot : text ∉ before) :
    reorder adr text.length (joined before).length h.lastline = some (filled (text :: lines.erase text)) ∧
      min MAXHISTORY (joined (text :: lines.erase text)).length = min MAXHISTORY (joined lines).length := by
  rw [hsplit, joined_append, joined_cons, ← List.append_assoc] at hlastline
  have hfilled := hholds.lastline.symm.trans hlastline
  have hlength : (joined before ++ text ++ 0 :: joined after).length = MAXHISTORY := by
    rw [← hfilled, filled_length]
  have htake : (joined before ++ text ++ 0 :: joined after).take (MAXHISTORY - 1) =
      (joined lines ++ List.replicate MAXHISTORY 0).take (MAXHISTORY - 1) := by
    rw [← hfilled, filled, List.take_append_of_le_length, List.take_take, Nat.min_self]
    rw [List.length_take, List.length_append, List.length_replicate]
    omega
  rw [hlastline, reorder_eq rfl (List.length_pos_of_ne_nil hne) hadr]
  obtain ⟨tail, htail⟩ : ∃ tail, stored (MAXHISTORY - 1) lines = before ++ text :: tail := by
    rcases List.append_eq_append_iff.mp hsplit with ⟨empties, hbefore, hempties⟩ | ⟨tail, hstored, htail⟩
    · refine absurd (List.eq_of_mem_replicate (?_ : text ∈ List.replicate n [])) hne
      rw [hempties]
      exact List.mem_append_right _ List.mem_cons_self
    · cases tail with
      | nil =>
        refine absurd (List.eq_of_mem_replicate (?_ : text ∈ List.replicate n [])) hne
        rw [List.nil_append] at htail
        rw [← htail]
        exact List.mem_cons_self
      | cons first tail =>
        rw [List.cons_append, List.cons.injEq] at htail
        exact ⟨tail, by rw [hstored, htail.1]⟩
  have hjoined : text ++ 0 :: (joined before ++ joined after) = joined (text :: (before ++ after)) := by
    rw [joined_cons, joined_append]
  have hlength' : (joined (text :: (before ++ after))).length = MAXHISTORY := by
    rw [← hlength, ← hjoined]
    simp only [List.length_append, List.length_cons]
    omega
  have hfront : (joined before ++ text ++ [0]).length = (text ++ 0 :: joined before).length := by
    simp only [List.length_append, List.length_cons, List.length_nil]
    omega
  rcases stored_split htail with ⟨others, rfl⟩ | ⟨more, others, hmore, rfl, hend⟩
  · have herase : (before ++ text :: others).erase text = before ++ others := by
      rw [List.erase_append_right _ hnot, List.erase_cons_head]
    rw [herase]
    refine ⟨?_, ?_⟩
    · rw [hjoined]
      refine congrArg some (eq_filled (List.cons_ne_nil _ _) hlength' ?_)
      have hagree : ((joined before ++ text ++ [0]) ++ joined after).take (MAXHISTORY - 1) =
          ((joined before ++ text ++ [0]) ++ (joined others ++ List.replicate MAXHISTORY 0)).take (MAXHISTORY - 1) := by
        rw [joined_append, joined_cons] at htake
        simpa only [List.append_assoc, List.cons_append, List.nil_append] using htake
      have hswap := take_swap hfront hagree
      rw [joined_cons, joined_append, joined_cons, joined_append]
      simpa only [List.append_assoc, List.cons_append, List.nil_append] using hswap
    · rw [joined_cons, joined_append, joined_append, joined_cons]
      simp only [List.length_append, List.length_cons]
      congr 1
      omega
  · have hafter : joined after = [] := by
      apply List.eq_nil_of_length_eq_zero
      simp only [List.length_append, List.length_cons] at hlength
      unfold MAXHISTORY at hlength hend
      omega
    have hother : ¬(text ++ more == text) = true := by
      rw [beq_iff_eq]
      intro hsame
      exact hmore (List.append_right_eq_self.mp hsame)
    have herase : (before ++ (text ++ more) :: others).erase text = before ++ (text ++ more) :: others.erase text := by
      rw [List.erase_append_right _ hnot, List.erase_cons_tail hother]
    rw [herase]
    refine ⟨?_, ?_⟩
    · rw [hjoined]
      refine congrArg some (eq_filled (List.cons_ne_nil _ _) hlength' ?_)
      have hnil : joined (before ++ after) = joined before := by rw [joined_append, hafter, List.append_nil]
      rw [joined_cons, hnil] at hlength' ⊢
      have hfar : joined (text :: (before ++ (text ++ more) :: others.erase text)) ++ List.replicate MAXHISTORY 0 =
          (text ++ 0 :: joined before) ++
            (joined ((text ++ more) :: others.erase text) ++ List.replicate MAXHISTORY 0) := by
        rw [joined_cons, joined_append]
        simp only [List.append_assoc, List.cons_append]
      rw [hfar]
      exact (List.take_append_of_le_length (by rw [hlength']; exact Nat.sub_le _ _)).symm
    · rw [joined_cons, joined_append, joined_append, joined_cons, joined_cons]
      have hpos := List.length_pos_of_ne_nil hmore
      simp only [List.length_append, List.length_cons]
      unfold MAXHISTORY at hend ⊢
      omega

/-- A new line is put in front of as much of the others as there is room for. -/
theorem insert_eq (hlength : h.lastline.length = MAXHISTORY) (hadr : adr.take text.length = text) :
    h.insert adr text.length = some ⟨(text ++ 0 :: h.lastline).take (MAXHISTORY - 1) ++ [0],
      min MAXHISTORY (h.saved_length + min MAXHISTORY (text.length + 1))⟩ := by
  have hroom : text.length ≤ adr.length := by
    have hboth := congrArg List.length hadr
    rw [List.length_take] at hboth
    omega
  obtain ⟨new_length, hnew⟩ : ∃ new_length,
      new_length = if MAXHISTORY < text.length + 1 then MAXHISTORY else text.length + 1 := ⟨_, rfl⟩
  have hmin : new_length = min MAXHISTORY (text.length + 1) := by
    rw [hnew]
    split_ifs <;> omega
  have hpos : 0 < new_length := by
    unfold MAXHISTORY at hmin
    omega
  have hshift : shift_up new_length new_length MAXHISTORY h.lastline =
      some (h.lastline.take new_length ++ h.lastline.take (MAXHISTORY - new_length)) := by
    have hjunk : (h.lastline.drop (MAXHISTORY - new_length)).length = new_length := by
      rw [List.length_drop]
      omega
    have hcopy := shift_up_eq hpos [] (h.lastline.take (MAXHISTORY - new_length)) _ [] hjunk
    have hcount : ([] : Bytes).length + (h.lastline.take (MAXHISTORY - new_length)).length + new_length =
        MAXHISTORY := by
      rw [List.length_nil, List.length_take]
      omega
    rw [hcount, List.length_nil, Nat.zero_add, List.take_append_drop, List.nil_append, List.append_nil, List.nil_append,
      List.append_nil] at hcopy
    exact hcopy
  have hall : (h.lastline.take new_length ++ h.lastline.take (MAXHISTORY - new_length)).length = MAXHISTORY := by
    rw [List.length_append, List.length_take, List.length_take]
    omega
  obtain ⟨body, last, hbody, hbodylength⟩ : ∃ body last,
      h.lastline.take new_length ++ h.lastline.take (MAXHISTORY - new_length) = body ++ [last] ∧
        body.length = MAXHISTORY - 1 := by
    obtain ⟨body, last, hbody⟩ := List.eq_nil_or_concat (h.lastline.take new_length ++
      h.lastline.take (MAXHISTORY - new_length)) |>.resolve_left (List.ne_nil_of_length_pos (by rw [hall]; decide))
    rw [List.concat_eq_append] at hbody
    refine ⟨body, last, hbody, ?_⟩
    rw [hbody, List.length_append, List.length_singleton] at hall
    omega
  have hcut :
      body = (h.lastline.take new_length ++ h.lastline.take (MAXHISTORY - new_length)).take (MAXHISTORY - 1) := by
    rw [hbody, ← hbodylength, List.take_left]
  obtain ⟨front, d, later, hfront, hfrontlength⟩ : ∃ front d later,
      body ++ [0] = front ++ d :: later ∧ front.length = new_length - 1 := by
    obtain ⟨d, later, hdrop⟩ := List.exists_cons_of_length_pos (l := (body ++ [0]).drop (new_length - 1)) (by
      rw [List.length_drop, List.length_append, List.length_singleton]
      omega)
    refine ⟨(body ++ [0]).take (new_length - 1), d, later, by rw [← hdrop, List.take_append_drop], ?_⟩
    rw [List.length_take, List.length_append, List.length_singleton]
    omega
  have hlater : later = (body ++ [0]).drop new_length := by
    have hnext : new_length = front.length + 1 := by omega
    rw [hfront, hnext, List.drop_length_add_append, List.drop_succ_cons, List.drop_zero]
  have hstore : store (body ++ [last]) (MAXHISTORY - 1) 0 = some (body ++ [0]) := by
    rw [← hbodylength]
    exact store_middle body [] last 0
  have hcopied : copy_down adr (new_length - 1) (front ++ 0 :: later) =
      some (adr.take (new_length - 1) ++ 0 :: later) := by
    rw [← hfrontlength]
    exact copy_down_eq front (0 :: later) adr (by omega)
  unfold History.insert
  dsimp only
  rw [← hnew, hshift, Option.bind_some, hbody, hstore, Option.bind_some, hfront, ← hfrontlength, store_middle,
    Option.bind_some, hfrontlength, hcopied, Option.map_some]
  have hsaved : (if MAXHISTORY < h.saved_length + new_length then MAXHISTORY else h.saved_length + new_length) =
      min MAXHISTORY (h.saved_length + new_length) := by
    split_ifs <;> omega
  refine congrArg some (congrArg₂ History.mk ?_ (by rw [hsaved, hmin]))
  by_cases hshort : text.length + 1 < MAXHISTORY
  · have hnl : new_length = text.length + 1 := by omega
    have htaken : (h.lastline.take new_length).length = new_length := by
      rw [List.length_take]
      omega
    have htail : later = h.lastline.take (MAXHISTORY - 1 - new_length) ++ [0] := by
      rw [hlater, hcut, List.take_append, List.take_of_length_le (by omega), htaken, List.append_assoc,
        List.drop_left' htaken, List.take_take, Nat.min_eq_left (by omega)]
    have hcount : MAXHISTORY - 1 = text.length + (MAXHISTORY - 1 - new_length + 1) := by omega
    rw [htail, hcount, List.take_length_add_append, List.take_succ_cons, ← hcount, hnl, Nat.add_sub_cancel, hadr,
      List.append_assoc]
    rfl
  · have hnl : new_length = MAXHISTORY := by omega
    have htail : later = [] := by
      rw [hlater]
      apply List.drop_of_length_le
      rw [List.length_append, List.length_singleton]
      omega
    have hfront' : adr.take (new_length - 1) = text.take (MAXHISTORY - 1) := by
      rw [← hadr, List.take_take, hnl, Nat.min_eq_left (by omega)]
    rw [htail, hfront', List.take_append_of_le_length (by omega)]

/-- A line that is not found is put in front. If it is among the lines there was no room for all of it. -/
theorem Holds.insert (hholds : h.Holds linelen lines) (hadr : adr.take text.length = text)
    (hnot : text ∉ stored (MAXHISTORY - 1) lines) :
    h.insert adr text.length = some ⟨filled (text :: lines.erase text),
      min MAXHISTORY (joined (text :: lines.erase text)).length⟩ := by
  have hlength : h.lastline.length = MAXHISTORY := by rw [hholds.lastline, filled_length]
  rw [insert_eq hlength hadr, hholds.saved_length, hholds.lastline]
  obtain ⟨hfront, hcount⟩ : (filled lines).take (MAXHISTORY - 1 - (text.length + 1)) =
        (joined (lines.erase text) ++ List.replicate MAXHISTORY 0).take (MAXHISTORY - 1 - (text.length + 1)) ∧
      min MAXHISTORY (min MAXHISTORY (joined lines).length + min MAXHISTORY (text.length + 1)) =
        min MAXHISTORY (text.length + 1 + (joined (lines.erase text)).length) := by
    have hwhole : (filled lines).take (MAXHISTORY - 1 - (text.length + 1)) =
        (joined lines ++ List.replicate MAXHISTORY 0).take (MAXHISTORY - 1 - (text.length + 1)) := by
      rw [filled, List.take_append_of_le_length, List.take_take, Nat.min_eq_left (Nat.sub_le _ _)]
      rw [List.length_take, List.length_append, List.length_replicate]
      omega
    by_cases hmem : text ∈ lines
    · obtain ⟨before, after, rfl, hbefore⟩ := List.eq_append_cons_of_mem hmem
      have hroom : MAXHISTORY - 1 < (joined before).length + text.length := by
        by_contra hroom
        exact hnot (stored_of_room (Nat.le_of_not_lt hroom))
      have herase : (before ++ text :: after).erase text = before ++ after := by
        rw [List.erase_append_right _ hbefore, List.erase_cons_head]
      rw [herase, hwhole, joined_append, joined_append, joined_cons]
      refine ⟨?_, ?_⟩
      · have hleft : ∀ rest : Bytes, (joined before ++ rest).take (MAXHISTORY - 1 - (text.length + 1)) =
            (joined before).take (MAXHISTORY - 1 - (text.length + 1)) :=
          fun rest => List.take_append_of_le_length (by omega)
        rw [List.append_assoc, hleft, List.append_assoc, hleft]
      · rw [List.length_append, List.length_append, List.length_append, List.length_cons]
        omega
    · rw [List.erase_of_not_mem hmem]
      refine ⟨hwhole, ?_⟩
      omega
  refine congrArg some (congrArg₂ History.mk ?_ ?_)
  · have hline : joined (text :: lines.erase text) ++ List.replicate MAXHISTORY 0 =
        (text ++ [0]) ++ (joined (lines.erase text) ++ List.replicate MAXHISTORY 0) := by
      rw [joined_cons]
      simp only [List.append_assoc, List.cons_append, List.nil_append]
    have hcount : (text ++ [0]).length = text.length + 1 := by rw [List.length_append, List.length_singleton]
    have hnew : filled (text :: lines.erase text) =
        ((text ++ [0]) ++ (joined (lines.erase text) ++ List.replicate MAXHISTORY 0)).take (MAXHISTORY - 1) ++ [0] := by
      rw [filled, hline]
    have hold : text ++ 0 :: filled lines = (text ++ [0]) ++ filled lines := List.append_cons text 0 (filled lines)
    have hcut : ∀ later : Bytes, ((text ++ [0]) ++ later).take (MAXHISTORY - 1) =
        (text ++ [0]).take (MAXHISTORY - 1) ++ later.take (MAXHISTORY - 1 - (text.length + 1)) := by
      intro later
      rw [← hcount]
      exact List.take_append
    rw [hnew, hold, hcut, hcut, hfront]
  · rw [hcount, joined_cons, List.length_append, List.length_cons]
    congr 1
    omega

/-- A finished line becomes the first one, whatever the buffer holds behind it. -/
theorem Holds.add_to_history (hholds : h.Holds linelen lines) (hadr : adr.take text.length = text) (hzero : 0 ∉ text)
    (hfits : text.length ≤ linelen) (hroom : linelen ≤ adr.length) :
    ∃ h', h.add_to_history adr text.length = some h' ∧ h'.Holds linelen (used text (valid lines)) := by
  have hvalid := hholds.validate
  unfold History.add_to_history used
  generalize h.validate_history = h at hvalid ⊢
  generalize valid lines = lines at hvalid ⊢
  by_cases hne : text = []
  · rw [if_neg (by rw [hne]; exact not_not_intro rfl), if_pos hne]
    exact ⟨h, rfl, hvalid⟩
  · have hpos := List.length_pos_of_ne_nil hne
    obtain ⟨hnonempty', hzero', hfits', hnodup'⟩ := hvalid.used_lines hne hzero hfits
    rw [if_pos (by omega), if_neg hne]
    unfold already_in_history
    by_cases hempty : h.saved_length = 0
    · have hnil := hvalid.empty_iff.mp hempty
      rw [if_pos hempty, Option.bind_some]
      exact ⟨_, hvalid.insert hadr (by rw [hnil]; exact List.not_mem_nil), rfl, rfl, hnonempty', hzero', hfits',
        hnodup'⟩
    · rw [if_neg hempty]
      obtain ⟨n, hlastline, hsegs⟩ := hvalid.segments
      have hlength : h.lastline.length = MAXHISTORY := by rw [hvalid.lastline, filled_length]
      have hsegsne : stored (MAXHISTORY - 1) lines ++ List.replicate n [] ≠ [] := by
        intro hnil
        rw [hlastline, hnil] at hlength
        exact absurd hlength (by decide)
      rcases find_eq (MAXHISTORY + 1) [] (fun seg hseg => (hsegs seg hseg).1)
        (fun seg hseg => (hsegs seg hseg).2.trans hroom) (hfits.trans hroom) hlastline hlength hsegsne (by decide) with
        ⟨hnot, hrun⟩ | ⟨before, after, hsplit, hnot, hrun⟩
      · rw [hadr] at hnot
        rw [List.length_nil] at hrun
        rw [hrun, Option.bind_some, Option.bind_some]
        exact ⟨_, hvalid.insert hadr fun hmem => hnot (List.mem_append_left _ hmem), rfl, rfl, hnonempty', hzero',
          hfits',
          hnodup'⟩
      · rw [hadr] at hsplit hnot
        rw [List.length_nil, List.nil_append] at hrun
        obtain ⟨hreorder, hsaved⟩ := hvalid.reorder hne hadr hlastline hsplit hnot
        rw [hrun, Option.bind_some]
        dsimp only
        rw [hreorder, Option.map_some, Option.bind_some]
        exact ⟨_, rfl, rfl, hvalid.saved_length.trans hsaved.symm, hnonempty', hzero', hfits', hnodup'⟩

end History

end DuneWeaver.Lineedit
