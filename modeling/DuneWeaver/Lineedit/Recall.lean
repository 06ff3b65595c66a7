import DuneWeaver.Lineedit.History
import Mathlib.Data.List.Dedup
import Mathlib.Data.Nat.Bitwise

namespace DuneWeaver.Lineedit

namespace History

variable {linelen : Nat} {lines : List Bytes} {h : History}

/-- What the array holds of the first line, and what is behind it. -/
theorem stored_head (line : Bytes) (others : List Bytes) (room zeros : Nat) :
    ∃ later, (joined (line :: others) ++ List.replicate zeros 0).take room ++ [0] = line.take room ++ 0 :: later ∧
      (line.length < room →
        later = (joined others ++ List.replicate zeros 0).take (room - line.length - 1) ++ [0]) := by
  rw [joined_cons, List.append_assoc, List.cons_append]
  by_cases hroom : line.length < room
  · obtain ⟨more, hmore⟩ : ∃ more, room = line.length + (more + 1) := ⟨room - line.length - 1, by omega⟩
    have hrest : room - line.length - 1 = more := by omega
    rw [hrest, List.take_of_length_le hroom.le, hmore, List.take_length_add_append, List.take_succ_cons,
      List.append_assoc,
      List.cons_append]
    exact ⟨_, rfl, fun _ => rfl⟩
  · exact ⟨[], by rw [List.take_append_of_le_length (by omega)], fun h => absurd h hroom⟩

/-- The entry that is asked for, where one begins in front of `saved_length`. -/
theorem seek_eq (front : Bytes) {room zeros : Nat} (k : Nat)
    (hlastline : h.lastline = front ++ ((joined lines ++ List.replicate zeros 0).take room ++ [0]))
    (hlength : front.length + room + 1 = MAXHISTORY)
    (hsaved : h.saved_length = min MAXHISTORY (front.length + (joined lines).length)) (hne : lines ≠ [])
    (hzero : ∀ line ∈ lines, 0 ∉ line) :
    match (stored room lines)[k]? with
    | some entry => ∃ before later, h.seek k front.length = some (some before.length) ∧
        h.lastline = before ++ (entry ++ 0 :: later)
    | none => h.seek k front.length = some none := by
  induction k generalizing front room lines with
  | zero =>
    obtain ⟨line, others, rfl⟩ := List.exists_cons_of_ne_nil hne
    obtain ⟨later, hhead, -⟩ := stored_head line others room zeros
    rw [stored, List.getElem?_cons_zero]
    exact ⟨front, later, rfl, by rw [hlastline, hhead]⟩
  | succ k ih =>
    obtain ⟨line, others, rfl⟩ := List.exists_cons_of_ne_nil hne
    obtain ⟨later, hhead, hlater⟩ := stored_head line others room zeros
    have hentry : 0 ∉ line.take room := fun h => hzero line List.mem_cons_self (List.mem_of_mem_take h)
    have hend : terminator h.lastline front.length = some (front.length + (line.take room).length) := by
      rw [hlastline, hhead]
      exact terminator_eq front _ _ hentry
    rw [stored, List.getElem?_cons_succ, seek, hend, Option.bind_some]
    rw [joined_cons, List.length_append, List.length_cons] at hsaved
    by_cases hroom : line.length < room
    · rw [List.take_of_length_le hroom.le] at hhead ⊢
      rw [if_pos hroom]
      cases others with
      | nil =>
        rw [joined_nil, List.length_nil] at hsaved
        rw [stored, List.getElem?_nil, if_pos (by omega)]
      | cons next others =>
        rw [joined_cons, List.length_append, List.length_cons] at hsaved
        have hplace : front.length + line.length + 1 = (front ++ line ++ [0]).length := by
          rw [List.length_append, List.length_append, List.length_singleton]
        rw [if_neg (by unfold MAXHISTORY at hlength hsaved; omega), hplace]
        refine ih (front ++ line ++ [0]) ?_ ?_ ?_ (List.cons_ne_nil next others) fun line hline =>
          hzero line (List.mem_cons_of_mem _ hline)
        · rw [hlastline, hhead, hlater hroom]
          simp only [List.append_assoc, List.cons_append, List.nil_append]
        · rw [← hplace]
          omega
        · rw [hsaved, ← hplace, joined_cons, List.length_append, List.length_cons]
          congr 1
          omega
    · rw [if_neg hroom, List.getElem?_nil, List.length_take, if_pos (by omega)]

/-- The line takes the characters of an entry, as many as there are turns. -/
theorem fill_eq (before entry later : Bytes) {l : Line} {shown : Bytes} (turns : Nat) (hshows : l.Shows ⟨shown, []⟩)
    (hroom : shown.length + turns ≤ l.maxaddr) (hzero : 0 ∉ entry) :
    ∃ l', fill (before ++ (entry ++ 0 :: later)) turns before.length l = some l' ∧ l'.maxaddr = l.maxaddr ∧
      l'.Shows ⟨shown ++ entry.take turns, []⟩ := by
  induction turns generalizing before entry shown l with
  | zero => exact ⟨l, rfl, rfl, by rwa [List.take_zero, List.append_nil]⟩
  | succ turns ih =>
    cases entry with
    | nil =>
      refine ⟨l, ?_, rfl, by rwa [List.take_nil, List.append_nil]⟩
      rw [fill, List.nil_append, getElem?_middle, Option.bind_some, if_pos rfl]
    | cons c entry =>
      rw [List.mem_cons, not_or] at hzero
      obtain ⟨next, hnext, hmax, hshows'⟩ := hshows.addchar c
      have hinside : shown.length < l.maxaddr := by omega
      rw [Text.insert, if_pos hinside, List.take_nil] at hshows'
      obtain ⟨l', hrun, hmax', hlast⟩ := ih (before ++ [c]) entry hshows'
        (by show (shown ++ [c]).length + turns ≤ next.maxaddr; rw [List.length_append, List.length_singleton]; omega)
          hzero.2
      refine ⟨l', ?_, hmax'.trans hmax, ?_⟩
      · rw [fill, List.cons_append, getElem?_middle, Option.bind_some, if_neg (Ne.symm hzero.1), hnext,
          Option.bind_some]
        rw [List.length_append, List.length_singleton] at hrun
        simpa only [List.append_assoc, List.cons_append, List.nil_append] using hrun
      · rw [List.take_succ_cons, List.append_cons]
        exact hlast

/-- The entry with this number, as far as it is in the array. -/
def entry (lines : List Bytes) (history_num : Int) : Option Bytes :=
  if history_num < 0 then none else (stored (MAXHISTORY - 1) lines)[history_num.toNat]?

/-- `get_history` takes all of an entry but what the last place of the line would be needed for. -/
theorem Holds.get_history (hholds : h.Holds linelen lines) {l : Line} {t : Text} (hshows : l.Shows t)
    (history_num : Int) :
    match entry (valid lines) history_num with
    | some line => ∃ l', h.get_history history_num l = some (true, l', h.validate_history) ∧ l'.maxaddr = l.maxaddr ∧
        l'.Shows ⟨line.take (l.maxaddr - 1), []⟩
    | none => h.get_history history_num l = some (false, l, h.validate_history) := by
  have hvalid := hholds.validate
  unfold History.get_history entry
  generalize h.validate_history = h at hvalid ⊢
  generalize valid lines = lines at hvalid ⊢
  dsimp only
  by_cases hempty : h.saved_length = 0
  · rw [hvalid.empty_iff.mp hempty, stored, List.getElem?_nil, ite_self, if_pos hempty]
  · have hne := mt hvalid.empty_iff.mpr hempty
    rw [if_neg hempty]
    by_cases hneg : history_num < 0
    · rw [if_pos hneg, if_pos hneg]
    · rw [if_neg hneg, if_neg hneg]
      have hseek := seek_eq [] history_num.toNat (by rw [List.nil_append]; exact hvalid.lastline) rfl
        (by rw [List.length_nil, Nat.zero_add]; exact hvalid.saved_length) hne hvalid.zero
      rw [List.length_nil] at hseek
      cases hentry : (stored (MAXHISTORY - 1) lines)[history_num.toNat]? with
      | none =>
        rw [hentry] at hseek
        dsimp only at hseek ⊢
        rw [hseek]
        rfl
      | some line =>
        rw [hentry] at hseek
        obtain ⟨before, later, hrun, hlastline⟩ := hseek
        obtain ⟨other, hother, hcut⟩ := mem_stored (List.mem_of_getElem? hentry)
        have hline : 0 ∉ line := fun hzero => hvalid.zero other hother (hcut.subset hzero)
        obtain ⟨blank, hblank, hmax, hshows'⟩ := hshows.erase_line
        obtain ⟨l', hfill, hmax', hlast⟩ := fill_eq before line later (blank.maxaddr - 1) hshows'
          (by rw [List.length_nil]; omega) hline
        dsimp only
        rw [hrun, Option.bind_some]
        dsimp only
        rw [hblank, Option.bind_some, hlastline, hfill, Option.map_some]
        refine ⟨l', rfl, hmax'.trans hmax, ?_⟩
        rw [List.nil_append, hmax] at hlast
        exact hlast

end History

/-- The distinct lines that are not empty, the one used last in front. -/
def recent (texts : List Bytes) : List Bytes := (texts.filter (· ≠ [])).dedup.reverse

/-- The lines that fit in so many bytes with a NUL between them, of the last one as much as there is room for. -/
def kept : Nat → List Bytes → List Bytes
  | _, [] => []
  | room, line :: lines => if room = 0 then [] else line.take room :: kept (room - line.length - 1) lines

/-- A line of the editor that is finished, with what it shows. -/
structure Finished (linelen : Nat) where
  line : Line
  text : Text
  shows : line.Shows text
  linelen_eq : line.maxaddr = linelen
  printable : ∀ c ∈ text.text, 0x20 ≤ c ∧ c < 0x7f

/-- `finish`, one line after the other. -/
def finish_all {linelen : Nat} : List (Finished linelen) → History → Option History
  | [], h => some h
  | f :: finished, h => (h.add_to_history f.line.line f.line.endaddr).bind (finish_all finished)

/-- The line with this number is recalled as it is kept, and nothing behind the last one. -/
def Recalls (linelen : Nat) (lines : List Bytes) (h : History) : Prop :=
  ∀ (l : Line) (t : Text), l.maxaddr = linelen → l.Shows t → ∀ history_num : Int,
    match if history_num < 0 then none else lines[history_num.toNat]? with
    | some line => ∃ l', h.get_history history_num l = some (true, l', h) ∧ l'.Shows ⟨line, []⟩
    | none => h.get_history history_num l = some (false, l, h)

section Recent

variable {text : Bytes} {texts lines : List Bytes} {room linelen : Nat}

theorem dedup_concat (text : Bytes) (texts : List Bytes) :
    (texts ++ [text]).dedup = texts.dedup.erase text ++ [text] := by
  induction texts with
  | nil => rfl
  | cons other texts ih =>
    rw [List.cons_append]
    by_cases hsame : other = text
    · subst hsame
      rw [List.dedup_cons_of_mem (List.mem_append_right _ List.mem_cons_self), ih]
      by_cases hmem : other ∈ texts
      · rw [List.dedup_cons_of_mem hmem]
      · rw [List.dedup_cons_of_notMem hmem, List.erase_cons_head, List.erase_of_not_mem (mt List.mem_dedup.mp hmem)]
    · have hiff : other ∈ texts ++ [text] ↔ other ∈ texts := by
        rw [List.mem_append, List.mem_singleton]
        exact or_iff_left hsame
      by_cases hmem : other ∈ texts
      · rw [List.dedup_cons_of_mem (hiff.mpr hmem), ih, List.dedup_cons_of_mem hmem]
      · rw [List.dedup_cons_of_notMem (mt hiff.mp hmem), ih, List.dedup_cons_of_notMem hmem,
          List.erase_cons_tail (by simpa using hsame)]
        rfl

/-- A line that is finished comes to the front of the others. -/
theorem recent_concat (text : Bytes) (texts : List Bytes) : recent (texts ++ [text]) = used text (recent texts) := by
  unfold recent used
  rw [List.filter_append]
  by_cases hnil : text = []
  · rw [if_pos hnil, hnil, List.filter_cons_of_neg (by decide), List.filter_nil, List.append_nil]
  · have hnodup := (texts.filter (· ≠ [])).nodup_dedup
    rw [if_neg hnil, List.filter_cons_of_pos (by simpa using hnil), List.filter_nil, dedup_concat, List.reverse_append,
      hnodup.erase_eq_filter, (List.nodup_reverse.mpr hnodup).erase_eq_filter, List.filter_reverse]
    rfl

/-- The array holds one entry more than what is kept where a line begins just where there is no room left. -/
theorem stored_eq (lines : List Bytes) (room : Nat) :
    (stored room lines = kept room lines ∧ ∀ k < lines.length, (joined (lines.take k)).length ≠ room) ∨
      (stored room lines = kept room lines ++ [[]] ∧ ∃ k < lines.length, (joined (lines.take k)).length = room) := by
  induction lines generalizing room with
  | nil => exact .inl ⟨rfl, fun k hk => absurd hk (Nat.not_lt_zero k)⟩
  | cons line lines ih =>
    rw [stored, kept]
    by_cases hzero : room = 0
    · rw [if_pos hzero, hzero, if_neg (Nat.not_lt_zero _)]
      exact .inr ⟨rfl, 0, Nat.zero_lt_succ _, rfl⟩
    · rw [if_neg hzero]
      have hnext : ∀ k, (joined ((line :: lines).take (k + 1))).length = line.length + 1 +
          (joined (lines.take k)).length := by
        intro k
        rw [List.take_succ_cons, joined_cons, List.length_append, List.length_cons]
        omega
      by_cases hroom : line.length < room
      · rw [if_pos hroom]
        rcases ih (room - line.length - 1) with ⟨hsame, hnone⟩ | ⟨hmore, k, hk, hplace⟩
        · refine .inl ⟨by rw [hsame], fun k hk => ?_⟩
          cases k with
          | zero => exact fun h => hzero h.symm
          | succ k =>
            have hother := hnone k (Nat.lt_of_succ_lt_succ hk)
            rw [hnext]
            omega
        · refine .inr ⟨by rw [hmore]; rfl, k + 1, Nat.succ_lt_succ hk, ?_⟩
          rw [hnext]
          omega
      · have hnothing : kept (room - line.length - 1) lines = [] := by
          cases lines with
          | nil => rfl
          | cons next lines => rw [kept, if_pos (by omega)]
        rw [if_neg hroom, hnothing]
        refine .inl ⟨rfl, fun k _ => ?_⟩
        cases k with
        | zero => exact fun h => hzero h.symm
        | succ k =>
          rw [hnext]
          omega

theorem ne_nil_of_mem_kept {line : Bytes} (hlines : ∀ line ∈ lines, line ≠ []) (hline : line ∈ kept room lines) :
    line ≠ [] := by
  induction lines generalizing room with
  | nil => exact absurd hline List.not_mem_nil
  | cons other lines ih =>
    rw [kept] at hline
    split_ifs at hline with hzero
    · exact absurd hline List.not_mem_nil
    · rcases List.mem_cons.mp hline with rfl | hline
      · rw [Ne, List.take_eq_nil_iff, not_or]
        exact ⟨hzero, hlines other List.mem_cons_self⟩
      · exact ih (fun line hline => hlines line (List.mem_cons_of_mem _ hline)) hline

theorem ascii_and {c : UInt8} (hc : c < 0x7f) : c &&& 0x80 = 0 := by
  have hlow : c.toNat < 2 ^ 7 := Nat.lt_trans (UInt8.lt_iff_toNat_lt.mp hc) (by decide)
  apply UInt8.toNat_inj.mp
  rw [UInt8.toNat_and, show (0x80 : UInt8).toNat = 2 ^ 7 by decide, Nat.and_two_pow, Nat.testBit_lt_two_pow hlow]
  rfl

/-- Lines of ASCII characters are valid. -/
theorem valid_eq (hlines : ∀ line ∈ lines, ∀ c ∈ line, c < 0x7f) : valid lines = lines := by
  refine if_neg ?_
  rw [Invalid, List.any_eq_true]
  rintro ⟨c, hc, hbit⟩
  have hclear : c &&& 0x80 = 0 := by
    rw [filled, List.mem_append, List.mem_singleton] at hc
    rcases hc with hc | rfl
    · rcases List.mem_append.mp (List.mem_of_mem_take hc) with hc | hc
      · obtain ⟨line, hline, hc⟩ := List.mem_flatMap.mp hc
        rw [List.mem_append, List.mem_singleton] at hc
        rcases hc with hc | rfl
        · exact ascii_and (hlines line hline c hc)
        · rfl
      · rw [List.eq_of_mem_replicate hc]
        rfl
    · rfl
  exact of_decide_eq_true hbit hclear

end Recent

namespace History

variable {linelen : Nat} {lines : List Bytes} {h : History}

/-- An array that is valid is left as it is. -/
theorem Holds.validate_eq (hholds : h.Holds linelen lines) (hvalid : valid lines = lines) : h.validate_history = h := by
  have hafter := hholds.validate
  rw [hvalid] at hafter
  have hsame : h.validate_history.lastline = h.lastline := hafter.lastline.trans hholds.lastline.symm
  have hlength : h.validate_history.saved_length = h.saved_length := hafter.saved_length.trans hholds.saved_length.symm
  exact congrArg₂ History.mk hsame hlength

/-- The lines that are finished, as the array has them. -/
theorem finish_all_holds (finished : List (Finished linelen)) (texts : List Bytes)
    (hholds : h.Holds linelen (recent texts))
    (hprintable : ∀ text ∈ texts, ∀ c ∈ text, c < 0x7f) :
    ∃ h', finish_all finished h = some h' ∧ h'.Holds linelen (recent (texts ++ finished.map fun f => f.text.text)) := by
  induction finished generalizing h texts with
  | nil => exact ⟨h, rfl, by rwa [List.map_nil, List.append_nil]⟩
  | cons f finished ih =>
    have hvalid : valid (recent texts) = recent texts := by
      refine valid_eq fun line hline => ?_
      rw [recent, List.mem_reverse, List.mem_dedup] at hline
      exact hprintable line (List.mem_of_mem_filter hline)
    have hfits := f.shows.fits
    obtain ⟨rest, -, hline, hlength, -, hend⟩ := f.shows
    rw [f.linelen_eq] at hfits hlength
    have hcount : f.line.endaddr = f.text.text.length := by rw [hend, Text.text, List.length_append]
    have hadr : f.line.line.take f.text.text.length = f.text.text := by rw [hline, Text.text, List.take_left]
    obtain ⟨next, hnext, hholds'⟩ := hholds.add_to_history hadr
      (fun hzero => absurd (f.printable 0 hzero).1 (by decide)) (by rw [Text.text, List.length_append]; exact hfits)
        (by omega)
    rw [hvalid, ← recent_concat] at hholds'
    obtain ⟨last, hlast, hholds''⟩ := ih (texts ++ [f.text.text]) hholds' (by
      intro text htext
      rcases List.mem_append.mp htext with htext | htext
      · exact hprintable text htext
      · rw [List.mem_singleton.mp htext]
        exact fun c hc => (f.printable c hc).2)
    refine ⟨last, ?_, ?_⟩
    · rw [finish_all, hcount, hnext, Option.bind_some, hlast]
    · rwa [List.append_assoc, List.singleton_append] at hholds''

end History

/-- A line shows one text. -/
theorem Line.Shows.unique {l : Line} {t t' : Text} (h : l.Shows t) (h' : l.Shows t') : t = t' := by
  obtain ⟨rest, -, hline, -, hthis, hend⟩ := h
  obtain ⟨rest', -, hline', -, hthis', hend'⟩ := h'
  rw [hline, List.append_assoc, List.append_assoc] at hline'
  obtain ⟨hbefore, hrest⟩ := List.append_inj hline' (hthis.symm.trans hthis')
  obtain ⟨hbehind, -⟩ := List.append_inj hrest (by omega)
  obtain ⟨before, behind⟩ := t
  exact congrArg₂ Text.mk hbefore hbehind

/-- Finished lines are valid. -/
theorem recent_valid {linelen : Nat} (finished : List (Finished linelen)) :
    valid (recent (finished.map fun f => f.text.text)) = recent (finished.map fun f => f.text.text) := by
  refine valid_eq fun line hline => ?_
  rw [recent, List.mem_reverse, List.mem_dedup] at hline
  obtain ⟨f, -, rfl⟩ := List.mem_map.mp (List.mem_of_mem_filter hline)
  exact fun c hc => (f.printable c hc).2

/-- An array that is valid gives back what is kept exactly when nothing of it needs the last place of the line, and no
line begins just where there is no room left. -/
theorem History.Holds.recalls_iff {linelen : Nat} {lines : List Bytes} {h : History} (hholds : h.Holds linelen lines)
    (hvalid : valid lines = lines) :
    Recalls linelen (kept (MAXHISTORY - 1) lines) h ↔
      (∀ line ∈ kept (MAXHISTORY - 1) lines, line.length < linelen) ∧
        ∀ k < lines.length, (joined (lines.take k)).length ≠ MAXHISTORY - 1 := by
  have hsame := hholds.validate_eq hvalid
  constructor
  · intro hrecalls
    -- An empty line is there to be filled.
    obtain ⟨blank, hblank, hmax⟩ : ∃ blank : Line, blank.Shows ⟨[], []⟩ ∧ blank.maxaddr = linelen :=
      ⟨⟨List.replicate (linelen + 1) 0, 0, 0, linelen⟩,
        ⟨List.replicate (linelen + 1) 0, List.cons_ne_nil _ _, rfl, List.length_replicate, rfl, rfl⟩, rfl⟩
    refine ⟨fun line hline => ?_, ?_⟩
    · obtain ⟨k, hk⟩ := List.mem_iff_getElem?.mp hline
      have hentry : History.entry (valid lines) (k : Int) = some line := by
        rw [hvalid, History.entry, if_neg (by omega), Int.toNat_natCast]
        rcases stored_eq lines (MAXHISTORY - 1) with ⟨hstored, -⟩ | ⟨hstored, -⟩
        · rw [hstored, hk]
        · rw [hstored, List.getElem?_append_left (List.getElem?_eq_some_iff.mp hk).1, hk]
      have hcode := hholds.get_history hblank (k : Int)
      have hclaim := hrecalls blank ⟨[], []⟩ hmax hblank (k : Int)
      rw [hentry] at hcode
      rw [if_neg (by omega), Int.toNat_natCast, hk] at hclaim
      dsimp only at hcode hclaim
      obtain ⟨l', hrun, -, hshows⟩ := hcode
      obtain ⟨l'', hrun', hshows'⟩ := hclaim
      rw [hrun] at hrun'
      have hlines : l' = l'' := congrArg (fun result => result.2.1) (Option.some.inj hrun')
      rw [← hlines] at hshows'
      have hcut : line.take (blank.maxaddr - 1) = line := congrArg Text.before (hshows.unique hshows')
      have hpos := List.length_pos_of_ne_nil (ne_nil_of_mem_kept hholds.nonempty hline)
      have hlength := congrArg List.length hcut
      rw [List.length_take, hmax] at hlength
      omega
    · intro k hk hplace
      rcases stored_eq lines (MAXHISTORY - 1) with ⟨-, hnone⟩ | ⟨hstored, -⟩
      · exact hnone k hk hplace
      · have hentry : History.entry (valid lines) ((kept (MAXHISTORY - 1) lines).length : Int) = some [] := by
          rw [hvalid, History.entry, if_neg (by omega), Int.toNat_natCast, hstored]
          exact getElem?_middle (kept (MAXHISTORY - 1) lines) [] []
        have hcode := hholds.get_history hblank ((kept (MAXHISTORY - 1) lines).length : Int)
        have hclaim := hrecalls blank ⟨[], []⟩ hmax hblank ((kept (MAXHISTORY - 1) lines).length : Int)
        rw [hentry] at hcode
        rw [if_neg (by omega), Int.toNat_natCast, List.getElem?_eq_none (Nat.le_refl _)] at hclaim
        dsimp only at hcode hclaim
        obtain ⟨l', hrun, -, -⟩ := hcode
        rw [hrun] at hclaim
        have htrue : true = false := congrArg Prod.fst (Option.some.inj hclaim)
        exact absurd htrue (by decide)
  · rintro ⟨hshort, hnone⟩ l t hmax hshows history_num
    have hstored : stored (MAXHISTORY - 1) lines = kept (MAXHISTORY - 1) lines := by
      rcases stored_eq lines (MAXHISTORY - 1) with ⟨hstored, -⟩ | ⟨-, k, hk, hplace⟩
      · exact hstored
      · exact absurd hplace (hnone k hk)
    have hcode := hholds.get_history hshows history_num
    rw [hvalid, History.entry, hstored, hsame] at hcode
    cases hentry : if history_num < 0 then none else (kept (MAXHISTORY - 1) lines)[history_num.toNat]? with
    | none =>
      rw [hentry] at hcode
      exact hcode
    | some line =>
      rw [hentry] at hcode
      obtain ⟨l', hrun, -, hshows'⟩ := hcode
      have hmem : line ∈ kept (MAXHISTORY - 1) lines := by
        split_ifs at hentry
        exact List.mem_of_getElem? hentry
      have hwhole : line.take (l.maxaddr - 1) = line := by
        have hless := hshort line hmem
        exact List.take_of_length_le (by omega)
      rw [hwhole] at hshows'
      exact ⟨l', hrun, hshows'⟩

/-- After any lines were finished the distinct ones are recalled, the last one that was used first, exactly when none of
them needs the last place of the line and none begins just where the array has no room left. -/
theorem get_history_iff (linelen : Nat) (finished : List (Finished linelen)) :
    ∃ h, finish_all finished {} = some h ∧
      (Recalls linelen (kept (MAXHISTORY - 1) (recent (finished.map fun f => f.text.text))) h ↔
        (∀ line ∈ kept (MAXHISTORY - 1) (recent (finished.map fun f => f.text.text)), line.length < linelen) ∧
          ∀ k < (recent (finished.map fun f => f.text.text)).length,
            (joined ((recent (finished.map fun f => f.text.text)).take k)).length ≠ MAXHISTORY - 1) := by
  obtain ⟨h, hrun, hholds⟩ := History.finish_all_holds finished [] (History.holds_nil linelen)
    fun _ htext => absurd htext List.not_mem_nil
  rw [List.nil_append] at hholds
  exact ⟨h, hrun, hholds.recalls_iff (recent_valid finished)⟩

/-- A line with the same character up to its last place. -/
def full_line (linelen : Nat) : Finished linelen where
  line := ⟨List.replicate linelen 0x61 ++ [0], linelen, linelen, linelen⟩
  text := ⟨List.replicate linelen 0x61, []⟩
  shows := by
    refine ⟨[0], List.cons_ne_nil 0 [], ?_, ?_, List.length_replicate.symm, List.length_replicate.symm⟩
    · rw [List.append_nil]
    · rw [List.length_append, List.length_replicate, List.length_singleton]
  linelen_eq := rfl
  printable := by
    intro c hc
    rw [Text.text, List.append_nil] at hc
    rw [List.eq_of_mem_replicate hc]
    decide

/-- What is kept of a full line, where there is room for it. -/
theorem full_line_kept {linelen room : Nat} (hpos : 0 < linelen) (hroom : linelen ≤ room) :
    List.replicate linelen 0x61 ∈ kept room (recent ([full_line linelen].map fun f => f.text.text)) := by
  have htext : (full_line linelen).text.text = List.replicate linelen 0x61 := List.append_nil _
  have hne : List.replicate linelen (0x61 : UInt8) ≠ [] := by
    rw [Ne, List.replicate_eq_nil_iff]
    omega
  have hone : recent ([] ++ [List.replicate linelen 0x61]) = used (List.replicate linelen 0x61) (recent []) :=
    recent_concat _ _
  rw [used, if_neg hne, List.nil_append] at hone
  rw [List.map_cons, List.map_nil, htext, hone, kept, if_neg (by omega), List.take_of_length_le]
  · exact List.mem_cons_self
  · rw [List.length_replicate]
    exact hroom

/-- A line that fills the line of a channel is recalled without its last character. -/
theorem full_line_is_cut :
    ∃ h, finish_all [full_line 254] {} = some h ∧
      ¬Recalls 254 (kept (MAXHISTORY - 1) (recent ([full_line 254].map fun f => f.text.text))) h := by
  obtain ⟨h, hrun, hholds⟩ := History.finish_all_holds [full_line 254] [] (History.holds_nil 254)
    fun _ htext => absurd htext List.not_mem_nil
  rw [List.nil_append] at hholds
  refine ⟨h, hrun, fun hrecalls => ?_⟩
  have hshort := ((hholds.recalls_iff (recent_valid _)).mp hrecalls).1 _ (full_line_kept (by decide) (by decide))
  rw [List.length_replicate] at hshort
  exact Nat.lt_irrefl 254 hshort

end DuneWeaver.Lineedit
