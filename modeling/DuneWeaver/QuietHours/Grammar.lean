import DuneWeaver.Decimal.Numeral
import DuneWeaver.Settings.Setting
import Mathlib.Data.List.Forall2
import Mathlib.Data.Nat.Bitwise

open Decimal

namespace DuneWeaver.QuietHours

/-- `days` has bit 0 for Sunday to bit 6 for Saturday. -/
structure Slot where
  start_min : Nat
  end_min : Nat
  days : Nat
  deriving DecidableEq

def dayNames : List Bytes :=
  [bytes "sun", bytes "mon", bytes "tue", bytes "wed", bytes "thu", bytes "fri", bytes "sat"]

/-- The characters of `" \t"`. -/
def blank (c : UInt8) : Bool := c = 32 || c = 9

def trim (s : Bytes) : Bytes := (s.dropWhile blank).rdropWhile blank

/-- What `%u` of `sscanf` reads, as `strtoul` reads it: white space and a sign are let
through, a negative number wraps and one too large gives the largest there is. -/
def scan_u (s : Bytes) : Option (UInt32 × Bytes) :=
  let s := s.dropWhile isspace
  let body := if s.head? = some 45 ∨ s.head? = some 43 then s.tail else s
  let digits := body.takeWhile isdigit
  if digits = [] then none
  else
    let value :=
      if number digits < 2 ^ 32 then
        if s.head? = some 45 then 0 - UInt32.ofNat (number digits) else UInt32.ofNat (number digits)
      else 4294967295
    some (value, body.dropWhile isdigit)

/-- `sscanf` with `"%u:%u"`, which does not look at what follows. -/
def parseTime (s : Bytes) : Option Nat :=
  match scan_u (c_str s) with
  | none => none
  | some (h, rest) =>
    if rest.head? ≠ some 58 then none
    else
      match scan_u rest.tail with
      | none => none
      | some (m, _) => if h > 23 ∨ m > 59 then none else some (h.toNat * 60 + m.toNat)

/-- The loop of `parseDays` over the names between the `+` signs. -/
def parseNames (s : Bytes) (days : Nat) : Option Nat :=
  match dayNames.idxOf? (trim (s.takeWhile (· ≠ 43))) with
  | none => none
  | some d =>
    let days := days ||| 1 <<< d
    if s.dropWhile (· ≠ 43) = [] then if days ≠ 0 then some days else none
    else parseNames (s.dropWhile (· ≠ 43)).tail days
termination_by s.length
decreasing_by
  rename_i hmore
  have hsuffix := (List.dropWhile_suffix (l := s) (· ≠ (43 : UInt8))).length_le
  have hpos := List.length_pos_of_ne_nil hmore
  rw [List.length_tail]
  omega

def parseDays (s : Bytes) : Option Nat :=
  if s = bytes "daily" then some 0x7f
  else if s = bytes "weekdays" then some 0x3e
  else if s = bytes "weekends" then some 0x41
  else parseNames s 0

/-- The text in front of the first dash. -/
def startText (item : Bytes) : Bytes := item.takeWhile (· ≠ 45)

/-- The text between the first dash and the first `@`. -/
def endText (item : Bytes) : Bytes := (item.dropWhile (· ≠ 45)).tail.takeWhile (· ≠ 64)

/-- The text behind the first `@`. -/
def daysText (item : Bytes) : Bytes := (item.dropWhile (· ≠ 64)).tail

/-- One item of a specification, or what is wrong with it. -/
def parseItem (item : Bytes) : Except Bytes Slot :=
  if item.dropWhile (· ≠ 45) = [] ∨ item.dropWhile (· ≠ 64) = [] ∨ 64 ∈ startText item then
    .error (bytes "expected HH:MM-HH:MM@days in '" ++ item ++ bytes "'")
  else
    match parseTime (trim (startText item)), parseTime (trim (endText item)) with
    | some start_min, some end_min =>
      match parseDays (trim (daysText item)) with
      | some days => .ok { start_min, end_min, days }
      | none => .error (bytes "bad day spec in '" ++ item ++ bytes "'")
    | _, _ => .error (bytes "bad time in '" ++ item ++ bytes "'")

/-- The loop of `parse` over what is left of the specification. -/
def parseItems (spec : Bytes) (slots : List Slot) : List Slot × Option Bytes :=
  if spec = [] then (slots, none)
  else
    let item := trim (spec.takeWhile (· ≠ 44))
    if item = [] then parseItems (spec.dropWhile (· ≠ 44)).tail slots
    else
      match parseItem item with
      | .error err => ([], some err)
      | .ok slot => parseItems (spec.dropWhile (· ≠ 44)).tail (slots ++ [slot])
termination_by spec.length
decreasing_by
  all_goals
    rename_i hmore _
    have hsuffix := (List.dropWhile_suffix (l := spec) (· ≠ (44 : UInt8))).length_le
    have hpos := List.length_pos_of_ne_nil hmore
    rw [List.length_tail]
    omega

/-- The slots of a specification, with the text for `err` if there is one. -/
def parse (spec : Bytes) : List Slot × Option Bytes := parseItems spec []

/-- The minute lies in the slot; a slot whose end is before its start spans midnight. -/
def Slot.covers (slot : Slot) (minute_of_day : Int) : Bool :=
  if slot.start_min ≤ slot.end_min then slot.start_min ≤ minute_of_day && minute_of_day ≤ slot.end_min
  else slot.start_min ≤ minute_of_day || minute_of_day ≤ slot.end_min

/-- `match`. -/
def matchSlots (slots : List Slot) (wday minute_of_day : Int) : Bool :=
  if wday < 0 ∨ wday > 6 then false
  else slots.any fun slot => slot.days &&& 1 <<< wday.toNat ≠ 0 && slot.covers minute_of_day

example : parse (bytes " 09:00-20:00@weekdays , 22:30-06:00@weekends ") =
    ([⟨540, 1200, 0x3e⟩, ⟨1350, 360, 0x41⟩], none) := by decide +kernel

/-- A window of the week: from one minute of the day to another, on some days. -/
structure Window where
  start : Nat
  stop : Nat
  days : List Nat

def Window.Covers (w : Window) (minute : Nat) : Prop :=
  if w.start ≤ w.stop then w.start ≤ minute ∧ minute ≤ w.stop else w.start ≤ minute ∨ minute ≤ w.stop

/-- Two digits, a colon and two digits. -/
structure Clock (h m text : Bytes) : Prop where
  hour : Numeral h
  minute : Numeral m
  hour_length : h.length = 2
  minute_length : m.length = 2
  text_eq : text = h ++ 58 :: m

/-- The text is written as `HH:MM`. -/
def Written (text : Bytes) : Prop := ∃ h m, Clock h m text

/-- A time of the day. -/
def Time (text : Bytes) (minutes : Nat) : Prop :=
  ∃ h m, Clock h m text ∧ number h ≤ 23 ∧ number m ≤ 59 ∧ minutes = number h * 60 + number m

/-- The name of the `d`-th day, with or without blanks around it. -/
def IsDay (name : Bytes) (d : Nat) : Prop := dayNames[d]? = some (trim name)

/-- The days an item names. -/
inductive Days : Bytes → List Nat → Prop
  | daily : Days (bytes "daily") [0, 1, 2, 3, 4, 5, 6]
  | weekdays : Days (bytes "weekdays") [1, 2, 3, 4, 5]
  | weekends : Days (bytes "weekends") [0, 6]
  | names {text : Bytes} {days : List Nat}
      (hnames : List.Forall₂ IsDay (text.splitOn 43) days) : Days text days

/-- `HH:MM-HH:MM@days`, with blanks around the fields. -/
def Item (text : Bytes) (w : Window) : Prop :=
  ∃ start stop days, text = start ++ 45 :: (stop ++ 64 :: days) ∧ Time (trim start) w.start ∧ Time (trim stop) w.stop ∧
    Days (trim days) w.days

/-- The items between the commas that are not empty. -/
def items (spec : Bytes) : List Bytes := ((spec.splitOn 44).map trim).filter (· ≠ [])

/-- What the documented syntax makes of a specification. -/
def Denotes (spec : Bytes) (windows : List Window) : Prop := List.Forall₂ Item (items spec) windows

/-- The bits of the days in a list. -/
def bits (days : List Nat) : Nat := days.foldl (fun bits d => bits ||| 1 <<< d) 0

/-- The slot stands for the window. -/
structure Slot.Shows (slot : Slot) (w : Window) : Prop where
  start : slot.start_min = w.start
  stop : slot.end_min = w.stop
  days : ∀ d, slot.days.testBit d = true ↔ d ∈ w.days

section Texts

variable {s front rest : Bytes} {c sep : UInt8}

theorem not_sep (hfront : sep ∉ front) : ∀ c ∈ front, decide (c ≠ sep) = true := by
  intro c hc
  rw [decide_eq_true_eq]
  rintro rfl
  exact hfront hc

theorem takeWhile_cut (hfront : sep ∉ front) : (front ++ sep :: rest).takeWhile (· ≠ sep) = front := by
  rw [List.takeWhile_append_of_pos (not_sep hfront), List.takeWhile_cons_of_neg (by simp), List.append_nil]

theorem dropWhile_cut (hfront : sep ∉ front) : (front ++ sep :: rest).dropWhile (· ≠ sep) = sep :: rest := by
  rw [List.dropWhile_append_of_pos (not_sep hfront), List.dropWhile_cons_of_neg (by simp)]

/-- Up to its first separator, a text is one of its parts. -/
theorem cut_cases (s : Bytes) (sep : UInt8) :
    (sep ∉ s ∧ s.takeWhile (· ≠ sep) = s ∧ s.dropWhile (· ≠ sep) = [] ∧ s.splitOn sep = [s]) ∨
      ∃ front rest, s = front ++ sep :: rest ∧ sep ∉ front ∧ s.takeWhile (· ≠ sep) = front ∧
        s.dropWhile (· ≠ sep) = sep :: rest ∧ s.splitOn sep = front :: rest.splitOn sep := by
  by_cases hmem : sep ∈ s
  · obtain ⟨front, rest, rfl, hfront⟩ := List.eq_append_cons_of_mem hmem
    exact .inr ⟨front, rest, rfl, hfront, takeWhile_cut hfront, dropWhile_cut hfront,
      List.splitOn_append_cons_self_of_not_mem hfront rest⟩
  · exact .inl ⟨hmem, List.takeWhile_eq_self_iff.mpr (not_sep hmem), List.dropWhile_eq_nil_iff.mpr (not_sep hmem),
      List.splitOn_eq_singleton hmem⟩

/-- Only blanks are trimmed. -/
theorem mem_trim (hc : c ∈ s) (hblank : blank c = false) : c ∈ trim s := by
  have hfront : c ∈ s.dropWhile blank := by
    have hsplit := hc
    rw [← List.takeWhile_append_dropWhile (p := blank) (l := s), List.mem_append] at hsplit
    refine hsplit.resolve_left fun htrimmed => ?_
    rw [List.mem_takeWhile_imp htrimmed] at hblank
    cases hblank
  have hsplit := hfront
  rw [← List.rdropWhile_append_rtakeWhile (p := blank) (l := s.dropWhile blank), List.mem_append] at hsplit
  refine hsplit.resolve_right fun htrimmed => ?_
  rw [List.mem_rtakeWhile_imp htrimmed] at hblank
  cases hblank

end Texts

section Times

variable {text h m rest : Bytes}

theorem isspace_of_isdigit {c : UInt8} (hc : isdigit c = true) : isspace c = false ∧ c ≠ 45 ∧ c ≠ 43 ∧ c ≠ 0 := by
  have hrange := isdigit_iff.mp hc
  have hother {n : UInt8} (hn : n.toNat < 48) : c ≠ n := by
    rintro rfl
    omega
  refine ⟨?_, hother (by decide), hother (by decide), hother (by decide)⟩
  simp only [isspace, Bool.or_eq_false_iff, Bool.and_eq_false_iff, decide_eq_false_iff_not, UInt8.le_iff_toNat_le]
  refine ⟨hother (by decide), .inr ?_⟩
  have hbound : (13 : UInt8).toNat = 13 := rfl
  omega

/-- A short numeral is read as the number it stands for. -/
theorem scan_u_numeral (hh : Numeral h) (hrest : Stops rest) (hlt : number h < 2 ^ 32) :
    scan_u (h ++ rest) = some (UInt32.ofNat (number h), rest) := by
  obtain ⟨c, tail, rfl⟩ := List.exists_cons_of_ne_nil hh.ne_nil
  obtain ⟨hspace, hminus, hplus, -⟩ := isspace_of_isdigit (hh.digits c List.mem_cons_self)
  have hskip : (c :: tail ++ rest).dropWhile isspace = c :: tail ++ rest := by
    rw [List.cons_append, List.dropWhile_cons_of_neg (by simp [hspace])]
  have hsign : ¬ ((c :: tail ++ rest).head? = some 45 ∨ (c :: tail ++ rest).head? = some 43) := by
    simp [hminus, hplus]
  have hdigits : (c :: tail ++ rest).takeWhile isdigit = c :: tail := takeWhile_digits hh.digits hrest
  have hbehind : (c :: tail ++ rest).dropWhile isdigit = rest := dropWhile_digits hh.digits hrest
  unfold scan_u
  rw [hskip]
  dsimp only
  rw [if_neg hsign, hdigits, hbehind, if_neg hh.ne_nil, if_pos hlt, if_neg (not_or.mp hsign).1]

theorem Clock.number_lt (hclock : Clock h m text) : number h < 100 ∧ number m < 100 := by
  have hhour := Decimal.number_lt hclock.hour.digits
  have hminute := Decimal.number_lt hclock.minute.digits
  rw [hclock.hour_length] at hhour
  rw [hclock.minute_length] at hminute
  exact ⟨hhour, hminute⟩

/-- A time that is written as `HH:MM` is read if it is one. -/
theorem Clock.parseTime_eq (hclock : Clock h m text) :
    parseTime text = if number h > 23 ∨ number m > 59 then none else some (number h * 60 + number m) := by
  obtain ⟨hhour, hminute⟩ := hclock.number_lt
  have hstring : c_str text = h ++ 58 :: m := by
    rw [hclock.text_eq]
    refine c_str_eq_self fun hmem => ?_
    rcases List.mem_append.mp hmem with hmem | hmem
    · exact (isspace_of_isdigit (hclock.hour.digits 0 hmem)).2.2.2 rfl
    · rcases List.mem_cons.mp hmem with hmem | hmem
      · cases hmem
      · exact (isspace_of_isdigit (hclock.minute.digits 0 hmem)).2.2.2 rfl
  have hread : scan_u (h ++ 58 :: m) = some (UInt32.ofNat (number h), 58 :: m) :=
    scan_u_numeral hclock.hour (stops_cons rfl) (by omega)
  have hread' : scan_u (m ++ []) = some (UInt32.ofNat (number m), []) :=
    scan_u_numeral hclock.minute stops_nil (by omega)
  rw [List.append_nil] at hread'
  have hh : (UInt32.ofNat (number h)).toNat = number h := by
    rw [UInt32.toNat_ofNat']
    omega
  have hm : (UInt32.ofNat (number m)).toNat = number m := by
    rw [UInt32.toNat_ofNat']
    omega
  have hrange : UInt32.ofNat (number h) > 23 ∨ UInt32.ofNat (number m) > 59 ↔ number h > 23 ∨ number m > 59 := by
    rw [gt_iff_lt, gt_iff_lt, UInt32.lt_iff_toNat_lt, UInt32.lt_iff_toNat_lt, hh, hm]
    rfl
  unfold parseTime
  rw [hstring, hread]
  dsimp only
  rw [if_neg (by simp), List.tail_cons, hread']
  dsimp only
  rw [hh, hm]
  simp only [hrange]

theorem Time.parseTime_eq {minutes : Nat} (htime : Time text minutes) : parseTime text = some minutes := by
  obtain ⟨h, m, hclock, hhour, hminute, rfl⟩ := htime
  rw [hclock.parseTime_eq, if_neg (by omega)]

theorem Written.time {minutes : Nat} (hwritten : Written text) (hread : parseTime text = some minutes) :
    Time text minutes := by
  obtain ⟨h, m, hclock⟩ := hwritten
  rw [hclock.parseTime_eq] at hread
  split_ifs at hread with hrange
  cases hread
  exact ⟨h, m, hclock, by omega, by omega, rfl⟩

theorem Time.written {minutes : Nat} (htime : Time text minutes) : Written text := by
  obtain ⟨h, m, hclock, -⟩ := htime
  exact ⟨h, m, hclock⟩

/-- Neither a dash nor an `@` stands in a time, with or without blanks around it. -/
theorem Time.notMem {minutes : Nat} {s : Bytes} {c : UInt8} (htime : Time (trim s) minutes) (hc : isdigit c = false)
    (hcolon : c ≠ 58) (hblank : blank c = false) : c ∉ s := by
  intro hmem
  obtain ⟨h, m, hclock, -⟩ := htime
  have htrim := mem_trim hmem hblank
  rw [hclock.text_eq, List.mem_append, List.mem_cons] at htrim
  rcases htrim with htrim | heq | htrim
  · rw [hclock.hour.digits c htrim] at hc
    cases hc
  · exact hcolon heq
  · rw [hclock.minute.digits c htrim] at hc
    cases hc

end Times

section DayNames

theorem dayNames_lt {d : Nat} {name : Bytes} (h : dayNames[d]? = some name) : d < 7 := by
  obtain ⟨hlt, -⟩ := List.getElem?_eq_some_iff.mp h
  exact hlt

/-- No two days have the same name. -/
theorem dayNames_inj {d e : Nat} {name : Bytes} (hd : dayNames[d]? = some name) (he : dayNames[e]? = some name) :
    d = e := by
  have hapart : ∀ d < 7, ∀ e < 7, dayNames[d]? = dayNames[e]? → d = e := by decide
  exact hapart d (dayNames_lt hd) e (dayNames_lt he) (hd.trans he.symm)

/-- The loop over `dayNames` finds the one day of that name. -/
theorem idxOf_dayNames {name : Bytes} {d : Nat} : dayNames.idxOf? name = some d ↔ dayNames[d]? = some name := by
  constructor
  · intro hfound
    obtain ⟨hlt, heq, -⟩ := List.idxOf?_eq_some_iff.mp hfound
    rw [List.getElem?_eq_getElem hlt, heq]
  · intro hname
    obtain ⟨hlt, heq⟩ := List.getElem?_eq_some_iff.mp hname
    rw [List.idxOf?_eq_some_iff]
    refine ⟨hlt, heq, fun j hj hsame => ?_⟩
    have hother : dayNames[j]? = some name := by rw [List.getElem?_eq_getElem (hj.trans hlt), hsame]
    exact absurd (dayNames_inj hother hname) (Nat.ne_of_lt hj)

theorem testBit_bits (days : List Nat) (acc d : Nat) :
    (days.foldl (fun bits d => bits ||| 1 <<< d) acc).testBit d = true ↔ acc.testBit d = true ∨ d ∈ days := by
  induction days generalizing acc with
  | nil => simp
  | cons e days ih =>
    rw [List.foldl_cons, ih, Nat.testBit_or, Bool.or_eq_true, Nat.one_shiftLeft, Nat.testBit_two_pow, List.mem_cons,
      decide_eq_true_eq, or_assoc, eq_comm (a := e)]

/-- The names between the `+` signs are all names of days, or one of them is not. -/
theorem parseNames_spec (s : Bytes) (acc : Nat) :
    (∃ days, List.Forall₂ IsDay (s.splitOn 43) days ∧
      parseNames s acc = some (days.foldl (fun bits d => bits ||| 1 <<< d) acc)) ∨
    ((¬ ∃ days, List.Forall₂ IsDay (s.splitOn 43) days) ∧ parseNames s acc = none) := by
  induction hlength : s.length using Nat.strongRecOn generalizing s acc with
  | ind n ih =>
    rw [parseNames]
    cases hname : dayNames.idxOf? (trim (s.takeWhile (· ≠ 43))) with
    | none =>
      right
      refine ⟨?_, rfl⟩
      rintro ⟨days, hdays⟩
      have hfirst : ∃ rest, s.splitOn 43 = s.takeWhile (· ≠ 43) :: rest := by
        obtain ⟨-, htake, -, hsplit⟩ | ⟨front, rest, -, -, htake, -, hsplit⟩ := cut_cases s 43
        · exact ⟨[], by rw [hsplit, htake]⟩
        · exact ⟨_, by rw [hsplit, htake]⟩
      obtain ⟨rest, hsplit⟩ := hfirst
      rw [hsplit] at hdays
      cases hdays with
      | cons hd _ =>
        rw [IsDay, ← idxOf_dayNames, hname] at hd
        cases hd
    | some d =>
      have hday := idxOf_dayNames.mp hname
      have hbits : acc ||| 1 <<< d ≠ 0 := by
        intro hzero
        have hbit : (acc ||| 1 <<< d).testBit d = true := by
          rw [Nat.testBit_or, Nat.one_shiftLeft, Nat.testBit_two_pow_self, Bool.or_true]
        rw [hzero, Nat.zero_testBit] at hbit
        cases hbit
      obtain ⟨-, htake, hdrop, hsplit⟩ | ⟨front, rest, heq, -, htake, hdrop, hsplit⟩ := cut_cases s 43
      · left
        rw [htake] at hday
        refine ⟨[d], ?_, ?_⟩
        · rw [hsplit]
          exact .cons hday .nil
        · dsimp only
          rw [if_pos hdrop, if_pos hbits]
          rfl
      · dsimp only
        rw [if_neg (by rw [hdrop]; exact List.cons_ne_nil _ _), hdrop, List.tail_cons, hsplit]
        rw [htake] at hday
        have hshorter : rest.length < n := by
          rw [← hlength, heq, List.length_append, List.length_cons]
          omega
        obtain ⟨days, hdays, hread⟩ | ⟨hnone, hread⟩ := ih rest.length hshorter rest (acc ||| 1 <<< d) rfl
        · exact .inl ⟨d :: days, .cons hday hdays, hread⟩
        · refine .inr ⟨?_, hread⟩
          rintro ⟨days, hdays⟩
          cases hdays with
          | cons _ hrest => exact hnone ⟨_, hrest⟩

theorem bits_shows {days : List Nat} (d : Nat) : (bits days).testBit d = true ↔ d ∈ days := by
  rw [bits, testBit_bits, Nat.zero_testBit]
  simp

/-- The days of an item are read exactly if it names some, and then they are these. -/
theorem Days.parseDays_eq {s : Bytes} {days : List Nat} (h : Days s days) : parseDays s = some (bits days) := by
  unfold parseDays
  cases h with
  | daily => rfl
  | weekdays => rfl
  | weekends => rfl
  | names hnames =>
    -- none of the three words is the name of a day
    have hother {word : Bytes} (hplus : 43 ∉ word) (hname : ∀ d < 7, dayNames[d]? ≠ some (trim word)) : s ≠ word := by
      rintro rfl
      rw [List.splitOn_eq_singleton hplus] at hnames
      cases hnames with
      | cons hd _ => exact hname _ (dayNames_lt hd) hd
    rw [if_neg (hother (by decide) (by decide)), if_neg (hother (by decide) (by decide)),
      if_neg (hother (by decide) (by decide))]
    obtain ⟨days', hdays, hread⟩ | ⟨hnone, -⟩ := parseNames_spec s 0
    · have hunique : Relator.RightUnique IsDay := fun _ _ _ hd he => dayNames_inj hd he
      have hsame := List.right_unique_forall₂' hunique hdays hnames
      rw [hread, hsame, bits]
    · exact absurd ⟨days, hnames⟩ hnone

theorem Days.exists_of_parseDays {s : Bytes} {bits : Nat} (h : parseDays s = some bits) : ∃ days, Days s days := by
  unfold parseDays at h
  split_ifs at h with hdaily hweekdays hweekends
  · rw [hdaily]
    exact ⟨_, .daily⟩
  · rw [hweekdays]
    exact ⟨_, .weekdays⟩
  · rw [hweekends]
    exact ⟨_, .weekends⟩
  · obtain ⟨days, hdays, -⟩ | ⟨-, hnone⟩ := parseNames_spec s 0
    · exact ⟨days, .names hdays⟩
    · rw [hnone] at h
      cases h

end DayNames

/-- The slot that a window is read as. -/
def Window.slot (w : Window) : Slot := ⟨w.start, w.stop, bits w.days⟩

/-- The specification is taken as the documented syntax has it: what it says is what
`match` answers by, and a text that says nothing leaves no slots and an error. -/
def Meets (spec : Bytes) : Prop :=
  (∀ windows, Denotes spec windows → ∃ slots, parse spec = (slots, none) ∧
    ∀ wday minute : Nat, wday ≤ 6 → minute ≤ 1439 →
      (matchSlots slots wday minute = true ↔ ∃ w ∈ windows, wday ∈ w.days ∧ w.Covers minute)) ∧
  ((¬ ∃ windows, Denotes spec windows) → ∃ err, parse spec = ([], some err))

/-- The dash or the `@` is missing or stands in the wrong place, a time is none that `sscanf` reads, or is out of range,
or a day is unknown. -/
def Refused (item : Bytes) : Prop :=
  45 ∉ item ∨ 64 ∉ item ∨ 64 ∈ startText item ∨ parseTime (trim (startText item)) = none ∨
    parseTime (trim (endText item)) = none ∨ parseDays (trim (daysText item)) = none

/-- Some item is refused, or all times are written as `HH:MM`. -/
def Tidy (spec : Bytes) : Prop :=
  (∃ item ∈ items spec, Refused item) ∨
    ∀ item ∈ items spec, Written (trim (startText item)) ∧ Written (trim (endText item))

section Items

variable {item : Bytes} {w : Window}

/-- Where the fields of an item are. -/
theorem fields_of_cut {start stop : Bytes} (days : Bytes) (hstart : 45 ∉ start ∧ 64 ∉ start) (hstop : 64 ∉ stop) :
    startText (start ++ 45 :: (stop ++ 64 :: days)) = start ∧ endText (start ++ 45 :: (stop ++ 64 :: days)) = stop ∧
      daysText (start ++ 45 :: (stop ++ 64 :: days)) = days ∧
      ¬ ((start ++ 45 :: (stop ++ 64 :: days)).dropWhile (· ≠ 45) = [] ∨
        (start ++ 45 :: (stop ++ 64 :: days)).dropWhile (· ≠ 64) = [] ∨
          64 ∈ startText (start ++ 45 :: (stop ++ 64 :: days))) := by
  have hdash : (start ++ 45 :: (stop ++ 64 :: days)).takeWhile (· ≠ 45) = start := takeWhile_cut hstart.1
  have hbehind : (start ++ 45 :: (stop ++ 64 :: days)).dropWhile (· ≠ 45) = 45 :: (stop ++ 64 :: days) :=
    dropWhile_cut hstart.1
  have hfront : (64 : UInt8) ∉ start ++ 45 :: stop := by
    simp only [List.mem_append, List.mem_cons, not_or]
    exact ⟨hstart.2, by decide, hstop⟩
  have hat : (start ++ 45 :: (stop ++ 64 :: days)).dropWhile (· ≠ 64) = 64 :: days := by
    have hregroup : start ++ 45 :: (stop ++ 64 :: days) = (start ++ 45 :: stop) ++ 64 :: days := by simp
    rw [hregroup, dropWhile_cut hfront]
  refine ⟨hdash, ?_, ?_, ?_⟩
  · rw [endText, hbehind, List.tail_cons, takeWhile_cut hstop]
  · rw [daysText, hat, List.tail_cons]
  · rw [startText, hbehind, hat, hdash]
    simp [hstart.2]

theorem dropWhile_sep_eq_nil_iff {sep : UInt8} : item.dropWhile (· ≠ sep) = [] ↔ sep ∉ item := by
  rw [List.dropWhile_eq_nil_iff]
  constructor
  · intro h hmem
    exact absurd (h sep hmem) (by simp)
  · exact not_sep

theorem refused_iff : (∃ err, parseItem item = .error err) ↔ Refused item := by
  unfold parseItem Refused
  simp only [dropWhile_sep_eq_nil_iff]
  by_cases hcut : 45 ∉ item ∨ 64 ∉ item ∨ 64 ∈ startText item
  · rw [if_pos hcut]
    refine iff_of_true ⟨_, rfl⟩ ?_
    obtain hdash | hat | hfront := hcut
    · exact .inl hdash
    · exact .inr (.inl hat)
    · exact .inr (.inr (.inl hfront))
  · rw [if_neg hcut]
    obtain ⟨hdash, hat, hfront⟩ := not_or.mp hcut |>.imp_right not_or.mp
    rw [or_iff_right hdash, or_iff_right hat, or_iff_right hfront]
    cases parseTime (trim (startText item)) with
    | none => simp
    | some start_min =>
      cases parseTime (trim (endText item)) with
      | none => simp
      | some end_min => cases parseDays (trim (daysText item)) <;> simp

/-- An item of the syntax is read as what it says. -/
theorem Item.parseItem_eq (h : Item item w) : parseItem item = .ok w.slot := by
  obtain ⟨start, stop, days, rfl, hstart, hstop, hdays⟩ := h
  obtain ⟨hstartText, hendText, hdaysText, hcut⟩ := fields_of_cut days
    ⟨hstart.notMem (c := 45) rfl (by decide) rfl, hstart.notMem (c := 64) rfl (by decide) rfl⟩
    (hstop.notMem (c := 64) rfl (by decide) rfl)
  unfold parseItem
  rw [if_neg hcut, hstartText, hendText, hdaysText, hstart.parseTime_eq, hstop.parseTime_eq, hdays.parseDays_eq]
  rfl

theorem Item.written (h : Item item w) : Written (trim (startText item)) ∧ Written (trim (endText item)) := by
  obtain ⟨start, stop, days, rfl, hstart, hstop, -⟩ := h
  obtain ⟨hstartText, hendText, -⟩ := fields_of_cut days
    ⟨hstart.notMem (c := 45) rfl (by decide) rfl, hstart.notMem (c := 64) rfl (by decide) rfl⟩
    (hstop.notMem (c := 64) rfl (by decide) rfl)
  rw [hstartText, hendText]
  exact ⟨hstart.written, hstop.written⟩

/-- What is read is an item of the syntax, provided that its times are written so. -/
theorem item_of_parseItem {slot : Slot} (h : parseItem item = .ok slot)
    (hwritten : Written (trim (startText item)) ∧ Written (trim (endText item))) : ∃ w, Item item w := by
  unfold parseItem at h
  split_ifs at h with hcut
  obtain ⟨hdash, hat, hfront⟩ := not_or.mp hcut |>.imp_right not_or.mp
  obtain ⟨-, -, hdrop, -⟩ | ⟨start, rest, rfl, hstart, htake, hdrop, -⟩ := cut_cases item 45
  · exact absurd hdrop hdash
  rw [startText, htake] at hfront
  obtain ⟨hnone, -⟩ | ⟨stop, days, rfl, hstop, -⟩ := cut_cases rest 64
  · refine absurd (List.dropWhile_eq_nil_iff.mpr (not_sep ?_)) hat
    simp only [List.mem_append, List.mem_cons, not_or]
    exact ⟨hfront, by decide, hnone⟩
  obtain ⟨hstartText, hendText, hdaysText, -⟩ := fields_of_cut days ⟨hstart, hfront⟩ hstop
  rw [hstartText, hendText, hdaysText] at h
  rw [hstartText, hendText] at hwritten
  cases hfirst : parseTime (trim start) with
  | none =>
    rw [hfirst] at h
    cases h
  | some first =>
    cases hlast : parseTime (trim stop) with
    | none =>
      rw [hfirst, hlast] at h
      cases h
    | some last =>
      cases hbits : parseDays (trim days) with
      | none =>
        rw [hfirst, hlast, hbits] at h
        cases h
      | some bits =>
        obtain ⟨named, hnamed⟩ := Days.exists_of_parseDays hbits
        exact ⟨⟨first, last, named⟩, start, stop, days, rfl, hwritten.1.time hfirst, hwritten.2.time hlast, hnamed⟩

end Items

theorem items_nil : items [] = [] := rfl

/-- The first item of a specification, and those behind it. -/
theorem items_cut (spec : Bytes) :
    items spec = (if trim (spec.takeWhile (· ≠ 44)) = [] then [] else [trim (spec.takeWhile (· ≠ 44))]) ++
      items (spec.dropWhile (· ≠ 44)).tail := by
  obtain ⟨-, htake, hdrop, hsplit⟩ | ⟨front, rest, -, -, htake, hdrop, hsplit⟩ := cut_cases spec 44
  · rw [htake, hdrop, List.tail_nil, items_nil, items, hsplit, List.append_nil]
    by_cases hempty : trim spec = []
    · simp [hempty]
    · simp [hempty]
  · rw [htake, hdrop, List.tail_cons, items, hsplit, List.map_cons]
    by_cases hempty : trim front = []
    · simp [hempty, items]
    · simp [hempty, items]

/-- Either all items are read, or the text of the first error is what comes out. -/
theorem parseItems_spec (spec : Bytes) (slots : List Slot) :
    (∃ more, List.Forall₂ (fun item slot => parseItem item = .ok slot) (items spec) more ∧
      parseItems spec slots = (slots ++ more, none)) ∨
    ∃ item ∈ items spec, ∃ err, parseItem item = .error err ∧ parseItems spec slots = ([], some err) := by
  fun_induction parseItems spec slots with
  | case1 slots => exact .inl ⟨[], .nil, by rw [List.append_nil]⟩
  | case2 spec slots hmore item hempty ih =>
    rw [items_cut spec, if_pos hempty, List.nil_append]
    exact ih
  | case3 spec slots hmore item hitem err hread =>
    refine .inr ⟨item, ?_, err, hread, rfl⟩
    rw [items_cut spec, if_neg hitem]
    exact List.mem_append_left _ (List.mem_singleton_self _)
  | case4 spec slots hmore item hitem slot hread ih =>
    rw [items_cut spec, if_neg hitem, List.singleton_append]
    obtain ⟨more, hall, hparse⟩ | ⟨bad, hbad, err, hrefused, hparse⟩ := ih
    · refine .inl ⟨slot :: more, .cons hread hall, ?_⟩
      rw [hparse, List.append_assoc, List.singleton_append]
    · exact .inr ⟨bad, List.mem_cons_of_mem _ hbad, err, hrefused, hparse⟩

/-- Whatever the slots are, `match` looks for one that has the day and the minute in it. -/
theorem matchSlots_iff (slots : List Slot) {wday minute : Nat} (hday : wday ≤ 6) :
    matchSlots slots wday minute = true ↔ ∃ slot ∈ slots, slot.days.testBit wday = true ∧
      (if slot.start_min ≤ slot.end_min then slot.start_min ≤ minute ∧ minute ≤ slot.end_min
      else slot.start_min ≤ minute ∨ minute ≤ slot.end_min) := by
  have hrange : ¬ ((wday : Int) < 0 ∨ (wday : Int) > 6) := by omega
  have hbit (days : Nat) : days &&& 1 <<< wday ≠ 0 ↔ days.testBit wday = true := by
    rw [Nat.one_shiftLeft, Nat.and_two_pow]
    cases days.testBit wday <;> simp
  rw [matchSlots, if_neg hrange, List.any_eq_true]
  refine exists_congr fun slot => and_congr_right fun _ => ?_
  rw [Bool.and_eq_true, decide_eq_true_eq, Int.toNat_natCast, hbit, Slot.covers]
  refine and_congr_right fun _ => ?_
  split_ifs
  · rw [Bool.and_eq_true, decide_eq_true_eq, decide_eq_true_eq, Int.ofNat_le, Int.ofNat_le]
  · rw [Bool.or_eq_true, decide_eq_true_eq, decide_eq_true_eq, Int.ofNat_le, Int.ofNat_le]

theorem matchSlots_windows (windows : List Window) {wday minute : Nat} (hday : wday ≤ 6) :
    matchSlots (windows.map Window.slot) wday minute = true ↔ ∃ w ∈ windows, wday ∈ w.days ∧ w.Covers minute := by
  rw [matchSlots_iff _ hday]
  constructor
  · rintro ⟨slot, hslot, hbit, hcovers⟩
    obtain ⟨w, hw, rfl⟩ := List.mem_map.mp hslot
    exact ⟨w, hw, (bits_shows wday).mp hbit, hcovers⟩
  · rintro ⟨w, hw, hwday, hcovers⟩
    exact ⟨w.slot, List.mem_map_of_mem hw, (bits_shows wday).mpr hwday, hcovers⟩

/-- What one list has a counterpart for in another, each of its members has. -/
theorem exists_counterpart {α β : Type*} {R : α → β → Prop} {texts : List α} {others : List β}
    (h : List.Forall₂ R texts others) {text : α} (hmem : text ∈ texts) : ∃ other, R text other := by
  induction h with
  | nil => cases hmem
  | cons hfirst _ ih =>
    rcases List.mem_cons.mp hmem with rfl | hmem
    · exact ⟨_, hfirst⟩
    · exact ih hmem

theorem slots_of_items {texts : List Bytes} {windows : List Window} {slots : List Slot}
    (h : List.Forall₂ Item texts windows)
    (hread : List.Forall₂ (fun item slot => parseItem item = .ok slot) texts slots) :
    slots = windows.map Window.slot := by
  induction h generalizing slots with
  | nil =>
    cases hread
    rfl
  | cons hitem _ ih =>
    cases hread with
    | cons hslot hrest =>
      rw [hitem.parseItem_eq] at hslot
      cases hslot
      rw [List.map_cons, ih hrest]

/-- A specification of the syntax is read as the windows it says. -/
theorem Denotes.parse_eq {spec : Bytes} {windows : List Window} (h : Denotes spec windows) :
    parse spec = (windows.map Window.slot, none) := by
  obtain ⟨slots, hall, hparse⟩ | ⟨item, hitem, err, hrefused, -⟩ := parseItems_spec spec []
  · rw [parse, hparse, slots_of_items h hall, List.nil_append]
  · obtain ⟨w, hw⟩ := exists_counterpart h hitem
    rw [hw.parseItem_eq] at hrefused
    cases hrefused

/-- What is read with its times written as `HH:MM` is a specification of the syntax. -/
theorem denotes_of_written {texts : List Bytes} {slots : List Slot}
    (hread : List.Forall₂ (fun item slot => parseItem item = .ok slot) texts slots)
    (hwritten : ∀ item ∈ texts, Written (trim (startText item)) ∧ Written (trim (endText item))) :
    ∃ windows, List.Forall₂ Item texts windows := by
  induction hread with
  | nil => exact ⟨[], .nil⟩
  | cons hslot _ ih =>
    obtain ⟨w, hw⟩ := item_of_parseItem hslot (hwritten _ List.mem_cons_self)
    obtain ⟨windows, hrest⟩ := ih fun item hitem => hwritten item (List.mem_cons_of_mem _ hitem)
    exact ⟨w :: windows, .cons hw hrest⟩

theorem Meets.tidy {spec : Bytes} (h : Meets spec) : Tidy spec := by
  obtain ⟨slots, hall, hparse⟩ | ⟨item, hitem, err, hrefused, -⟩ := parseItems_spec spec []
  · right
    -- an accepted text says something, so that its times are written as they should be
    have hsays : ∃ windows, Denotes spec windows := by
      by_contra hnone
      obtain ⟨err, herr⟩ := h.2 hnone
      rw [parse, hparse] at herr
      cases herr
    obtain ⟨windows, hwindows⟩ := hsays
    intro item hitem
    obtain ⟨w, hw⟩ := exists_counterpart hwindows hitem
    exact hw.written
  · exact .inl ⟨item, hitem, refused_iff.mp ⟨err, hrefused⟩⟩

theorem Tidy.meets {spec : Bytes} (h : Tidy spec) : Meets spec := by
  refine ⟨fun windows hwindows => ?_, fun hnone => ?_⟩
  · exact ⟨_, hwindows.parse_eq, fun wday minute hday _ => matchSlots_windows windows hday⟩
  · obtain ⟨slots, hall, -⟩ | ⟨item, hitem, err, hrefused, hparse⟩ := parseItems_spec spec []
    · obtain ⟨item, hitem, hrefused⟩ | hwritten := h
      · obtain ⟨err, hrefused⟩ := refused_iff.mpr hrefused
        obtain ⟨slot, hslot⟩ := exists_counterpart hall hitem
        rw [hrefused] at hslot
        cases hslot
      · exact absurd (denotes_of_written hall hwritten) hnone
    · exact ⟨err, hparse⟩

/-- The parser keeps to the documented syntax exactly on the tidy specifications, and `match`
looks at the slots it is given as it should. -/
theorem meets_iff_tidy (spec : Bytes) :
    (Meets spec ↔ Tidy spec) ∧
      ∀ (slots : List Slot) (wday minute : Nat), wday ≤ 6 → minute ≤ 1439 →
        (matchSlots slots wday minute = true ↔ ∃ slot ∈ slots, slot.days.testBit wday = true ∧
          (if slot.start_min ≤ slot.end_min then slot.start_min ≤ minute ∧ minute ≤ slot.end_min
          else slot.start_min ≤ minute ∨ minute ≤ slot.end_min)) :=
  ⟨⟨Meets.tidy, Tidy.meets⟩, fun slots _ _ hday _ => matchSlots_iff slots hday⟩

/-- At eleven on a Sunday evening. -/
theorem meets_iff_tidy_evening :
    matchSlots [⟨1350, 360, 0x41⟩] (0 : Nat) (1380 : Nat) = true ↔
      ∃ slot ∈ [(⟨1350, 360, 0x41⟩ : Slot)], slot.days.testBit 0 = true ∧
        (if slot.start_min ≤ slot.end_min then slot.start_min ≤ 1380 ∧ 1380 ≤ slot.end_min
        else slot.start_min ≤ 1380 ∨ 1380 ≤ slot.end_min) :=
  (meets_iff_tidy []).2 [⟨1350, 360, 0x41⟩] 0 1380 (by decide) (by decide)

/-- `sscanf` lets junk behind a time go by. -/
theorem junk_behind_time_is_accepted : ¬ Meets (bytes "22:30x-06:00@daily") := by
  intro hmeets
  have hitems : items (bytes "22:30x-06:00@daily") = [bytes "22:30x-06:00@daily"] := by decide
  have hread : parseItem (bytes "22:30x-06:00@daily") = .ok ⟨1350, 360, 0x7f⟩ := by decide
  obtain ⟨item, hitem, hrefused⟩ | hwritten := hmeets.tidy
  · obtain ⟨err, hrefused⟩ := refused_iff.mpr hrefused
    rw [hitems, List.mem_singleton] at hitem
    rw [hitem, hread] at hrefused
    cases hrefused
  · obtain ⟨⟨h, m, hclock⟩, -⟩ := hwritten _ (by rw [hitems]; exact List.mem_singleton_self _)
    have hlength := congrArg List.length hclock.text_eq
    have htime : (trim (startText (bytes "22:30x-06:00@daily"))).length = 6 := by decide
    rw [htime, List.length_append, List.length_cons, hclock.hour_length, hclock.minute_length] at hlength
    cases hlength

end DuneWeaver.QuietHours
