import DuneWeaver.Playlist.Scan
import Mathlib.Algebra.GroupWithZero.Nat

namespace DuneWeaver

namespace PlaylistParse

/-- The items of the lines of a playlist: what is left of them after cleaning,
without the empty ones. -/
def cleanedLines (lines : List Bytes) : List Bytes := (lines.map clean_line).filter (· ≠ [])

@[simp] theorem cleanedLines_nil : cleanedLines [] = [] := rfl

theorem cleanedLines_cons (line : Bytes) (lines : List Bytes) :
    cleanedLines (line :: lines) = cleanedLines [line] ++ cleanedLines lines := by
  unfold cleanedLines
  rw [List.map_cons, List.map_singleton, ← List.filter_append, List.singleton_append]

theorem cleanedLines_singleton (line : Bytes) :
    cleanedLines [line] = if clean_line line ≠ [] then [clean_line line] else [] := by
  unfold cleanedLines
  by_cases hblank : clean_line line = []
  · simp [hblank]
  · simp [hblank]

theorem mem_cleanedLines {item : Bytes} {lines : List Bytes} (h : item ∈ cleanedLines lines) :
    ∃ line ∈ lines, item = clean_line line := by
  obtain ⟨hitem, -⟩ := List.mem_filter.mp h
  obtain ⟨line, hline, hclean⟩ := List.mem_map.mp hitem
  exact ⟨line, hline, hclean.symm⟩

theorem newline_notMem_splitOn (content : Bytes) : ∀ line ∈ content.splitOn 10, 10 ∉ line := by
  induction content with
  | nil => simp
  | cons c content ih =>
    rw [List.splitOn_cons_eq_if_modifyHead]
    split
    · simpa using ih
    · rename_i hc
      have hne : (10 : UInt8) ≠ c := fun h => hc (beq_iff_eq.mpr h.symm)
      cases hlines : content.splitOn 10 with
      | nil => simp
      | cons line lines =>
        rw [hlines] at ih
        simp only [List.modifyHead_cons, List.forall_mem_cons] at ih ⊢
        exact ⟨List.not_mem_cons_of_ne_of_not_mem hne ih.1, ih.2⟩

/-- A content is one line, or a first line, its newline and the rest. -/
theorem line_cases (content : Bytes) :
    10 ∉ content ∨ ∃ line rest, content = line ++ 10 :: rest ∧ 10 ∉ line := by
  by_cases hnewline : 10 ∈ content
  · obtain ⟨line, rest, hcontent, hline⟩ := List.eq_append_cons_of_mem hnewline
    exact .inr ⟨line, rest, hcontent, hline⟩
  · exact .inl hnewline

/-- The loop adds the items of the lines that are left, up to the bound. -/
theorem parse_lines_eq (max_items : Nat) (rest : Bytes) (items : List Bytes) :
    parse_lines max_items rest items =
      items ++ (cleanedLines (rest.splitOn 10)).take (max_items - items.length) := by
  fun_induction parse_lines max_items rest items with
  | case1 rest items hdone =>
    obtain hempty | hfull := hdone
    · subst hempty
      simp [cleanedLines, clean_line]
    · rw [Nat.sub_eq_zero_of_le hfull, List.take_zero, List.append_nil]
  | case2 rest items hmore path ih =>
    have hroom : items.length < max_items := by
      by_contra hfull
      exact hmore (.inr (by omega))
    have hsplit : cleanedLines (rest.splitOn 10) =
        cleanedLines [rest.takeWhile (· ≠ 10)] ++
          cleanedLines (((rest.dropWhile (· ≠ 10)).drop 1).splitOn 10) := by
      obtain hone | ⟨line, behind, hrest, hline⟩ := line_cases rest
      · have hall : ∀ c ∈ rest, (decide (c ≠ 10)) = true := by
          intro c hc
          simp only [decide_eq_true_eq]
          rintro rfl
          exact hone hc
        rw [List.splitOn_eq_singleton hone, List.takeWhile_eq_self_iff.mpr hall,
          List.dropWhile_eq_nil_iff.mpr hall]
        simp [cleanedLines, clean_line]
      · have hall : ∀ c ∈ line, (decide (c ≠ 10)) = true := by
          intro c hc
          simp only [decide_eq_true_eq]
          rintro rfl
          exact hline hc
        rw [hrest, List.splitOn_append_cons_self_of_not_mem hline, cleanedLines_cons,
          List.takeWhile_append_of_pos hall, List.dropWhile_append_of_pos hall]
        simp
    rw [hsplit, cleanedLines_singleton]
    change _ = items ++ ((if path ≠ [] then [path] else []) ++ _).take _
    by_cases hblank : path ≠ []
    · have hleft : max_items - items.length = (max_items - (items ++ [path]).length) + 1 := by
        rw [List.length_append, List.length_singleton]
        omega
      rw [dif_pos hblank] at ih
      rw [if_pos hblank, if_pos hblank, ih, hleft, List.singleton_append, List.take_succ_cons,
        List.append_assoc, List.singleton_append]
    · rw [dif_neg hblank] at ih
      rw [if_neg hblank, if_neg hblank, ih, List.nil_append]

/-- The reference parser delivers the first items of the lines of a content. -/
theorem parse_playlist_eq (content : Bytes) (max_items : Nat) :
    parse_playlist content max_items = (cleanedLines (content.splitOn 10)).take max_items := by
  rw [parse_playlist, parse_lines_eq, List.nil_append, List.length_nil, Nat.sub_zero]

end PlaylistParse

open PlaylistParse

/-- The lines of at most `MAX_LINE` bytes that end within the first
`MAX_PLAYLIST_FILE` bytes of the file, in which the first of them begins at `start`. -/
def linesWithin : Nat → List Bytes → List Bytes
  | _, [] => []
  | start, line :: lines =>
    if line.length ≤ MAX_LINE ∧ start + line.length ≤ MAX_PLAYLIST_FILE then
      line :: linesWithin (start + line.length + 1) lines
    else linesWithin (start + line.length + 1) lines

/-- The content of a playlist file with only those of its lines. -/
def withinCaps (content : Bytes) : Bytes := [10].intercalate (linesWithin 0 (content.splitOn 10))

/-- What stands in front of the byte cap of the line the cap cuts, if that can
be delivered. -/
def cutLine : Nat → List Bytes → List Bytes
  | _, [] => []
  | start, line :: lines =>
    if start + line.length ≤ MAX_PLAYLIST_FILE then cutLine (start + line.length + 1) lines
    else if start ≤ MAX_PLAYLIST_FILE ∧ MAX_PLAYLIST_FILE - start ≤ MAX_LINE then
      cleanedLines [line.take (MAX_PLAYLIST_FILE - start)]
    else []

section Past

variable {start : Nat} (hpast : MAX_PLAYLIST_FILE < start) (lines : List Bytes)
include hpast

private theorem linesWithin_past : linesWithin start lines = [] := by
  induction lines generalizing start with
  | nil => rfl
  | cons line lines ih =>
    rw [linesWithin, if_neg (by omega), ih (by omega)]

private theorem cutLine_past : cutLine start lines = [] := by
  cases lines with
  | nil => rfl
  | cons line lines => rw [cutLine, if_neg (by omega), if_neg (by omega)]

end Past

namespace Scan

/-- The callback of `validLines`, which keeps everything. -/
private abbrev collect (lines : List Bytes) (_ : Nat) (p : Bytes) : List Bytes × Bool := (lines ++ [p], true)

private theorem flush_collect (s : Scan (List Bytes)) :
    s.flush collect =
      ({ s with
        acc := s.acc ++ cleanedLines [s.line], valid := s.valid + (cleanedLines [s.line]).length }, true) := by
  unfold flush
  rw [cleanedLines_singleton]
  cases PlaylistParse.clean_line s.line with
  | nil => simp
  | cons c p => rfl

/-- Once a cap is reached, the loop is over. -/
private theorem loop_capped {σ : Type*} {fn : σ → Nat → Bytes → σ × Bool} {s : Scan σ}
    (hcap : ¬ (s.consumed < MAX_PLAYLIST_FILE ∧ s.valid < MAX_ITEMS)) (content : Bytes) :
    s.loop fn content = s.tail fn := by
  cases content with
  | nil => rfl
  | cons c rest => rw [loop, if_neg hcap]

/-- The loop runs through the text of a line; of what it keeps, only the front
of the line and whether there is more of it matter. -/
private theorem loop_text {σ : Type*} {fn : σ → Nat → Bytes → σ × Bool} {text : Bytes} (htext : 10 ∉ text)
    (rest read : Bytes) {consumed valid : Nat} (hroom : consumed + text.length ≤ MAX_PLAYLIST_FILE)
    (hvalid : valid < MAX_ITEMS) (acc : σ) :
    loop fn (text ++ rest) ⟨read.take MAX_LINE, consumed, valid, decide (MAX_LINE < read.length), acc⟩ =
      loop fn rest ⟨(read ++ text).take MAX_LINE, consumed + text.length, valid,
        decide (MAX_LINE < (read ++ text).length), acc⟩ := by
  induction text generalizing read consumed with
  | nil => rw [List.nil_append, List.append_nil, List.length_nil, Nat.add_zero]
  | cons c text ih =>
    rw [List.mem_cons, not_or] at htext
    obtain ⟨hc, htext⟩ := htext
    rw [List.length_cons] at hroom
    have hnext := ih htext (read ++ [c]) (show consumed + 1 + text.length ≤ MAX_PLAYLIST_FILE by omega)
    rw [List.append_assoc, List.singleton_append, Nat.add_right_comm, Nat.add_assoc,
      ← List.length_cons (a := c)] at hnext
    rw [List.cons_append, loop]
    dsimp only
    rw [if_pos ⟨by omega, hvalid⟩, if_neg (Ne.symm hc)]
    by_cases hfits : read.length < MAX_LINE
    · have hkept : read.take MAX_LINE = read := List.take_of_length_le hfits.le
      have hlong : decide (MAX_LINE < read.length) = decide (MAX_LINE < (read ++ [c]).length) := by
        rw [List.length_append, List.length_singleton, decide_eq_decide]
        omega
      rw [hkept, if_pos hfits, hlong, ← hnext, List.take_of_length_le]
      rw [List.length_append, List.length_singleton]
      omega
    · have hkept : (read ++ [c]).take MAX_LINE = read.take MAX_LINE := List.take_append_of_le_length (by omega)
      have hlong : decide (MAX_LINE < (read ++ [c]).length) = true := by
        rw [List.length_append, List.length_singleton, decide_eq_true_eq]
        omega
      rw [hkept, hlong] at hnext
      rw [if_neg (by rw [List.length_take]; omega), hnext]

/-- What the end of the loop makes of a line it has read. -/
private theorem tail_text (read : Bytes) (consumed : Nat) {valid : Nat} (hvalid : valid < MAX_ITEMS)
    (acc : List Bytes) :
    tail collect ⟨read.take MAX_LINE, consumed, valid, decide (MAX_LINE < read.length), acc⟩ =
      acc ++ if read.length ≤ MAX_LINE then cleanedLines [read] else [] := by
  unfold tail
  rw [flush_collect]
  dsimp only
  by_cases hfits : read.length ≤ MAX_LINE
  · rw [if_pos ⟨by simpa using hfits, hvalid⟩, if_pos hfits, List.take_of_length_le hfits]
  · rw [if_neg (by simp; omega), if_neg hfits, List.append_nil]

private theorem length_cleanedLines_singleton (line : Bytes) : (cleanedLines [line]).length ≤ 1 := by
  rw [cleanedLines_singleton]
  split
  · exact le_rfl
  · exact Nat.zero_le 1

/-- The item of a line takes its part of the room that is left. -/
private theorem take_items (line : Bytes) (later : List Bytes) {valid : Nat} (hvalid : valid < MAX_ITEMS) :
    (cleanedLines [line] ++ later).take (MAX_ITEMS - valid) =
      cleanedLines [line] ++ later.take (MAX_ITEMS - (valid + (cleanedLines [line]).length)) := by
  have hone := length_cleanedLines_singleton line
  rw [List.take_append, List.take_of_length_le (by omega), Nat.sub_sub]

/-- A line that ends at the byte cap, or at the end of the file before it. -/
private theorem tail_lines {line : Bytes} {lines : List Bytes} {consumed valid : Nat} (hvalid : valid < MAX_ITEMS)
    (hend : consumed + line.length ≤ MAX_PLAYLIST_FILE)
    (hlast : lines = [] ∨ MAX_PLAYLIST_FILE < consumed + line.length + 1) (acc : List Bytes) :
    (acc ++ if line.length ≤ MAX_LINE then cleanedLines [line] else []) =
      acc ++ (cleanedLines (linesWithin consumed (line :: lines)) ++
        cutLine consumed (line :: lines)).take (MAX_ITEMS - valid) := by
  have hrest : linesWithin (consumed + line.length + 1) lines = [] ∧
      cutLine (consumed + line.length + 1) lines = [] := by
    obtain rfl | hpast := hlast
    · exact ⟨rfl, rfl⟩
    · exact ⟨linesWithin_past hpast lines, cutLine_past hpast lines⟩
  rw [linesWithin, cutLine, if_pos hend, hrest.1, hrest.2, List.append_nil]
  have hone := length_cleanedLines_singleton line
  by_cases hfits : line.length ≤ MAX_LINE
  · rw [if_pos hfits, if_pos ⟨hfits, hend⟩, List.take_of_length_le (by omega)]
  · rw [if_neg hfits, if_neg (fun hboth => hfits hboth.1), cleanedLines_nil, List.take_nil]

/-- Over whole lines, the loop delivers the items of those within the caps and
what is left of a line the byte cap cuts, up to the item cap. -/
private theorem loop_lines {lines : List Bytes} (hlines : ∀ line ∈ lines, 10 ∉ line) {consumed : Nat}
    (hconsumed : consumed ≤ MAX_PLAYLIST_FILE) (valid : Nat) (acc : List Bytes) :
    loop collect ([10].intercalate lines) ⟨[], consumed, valid, false, acc⟩ =
      acc ++ (cleanedLines (linesWithin consumed lines) ++ cutLine consumed lines).take (MAX_ITEMS - valid) := by
  induction lines generalizing consumed valid acc with
  | nil =>
    change tail collect _ = acc ++ [].take _
    rw [List.take_nil, List.append_nil]
    unfold tail
    rw [flush_collect]
    split
    · exact List.append_nil acc
    · rfl
  | cons line lines ih =>
    have hline := hlines line List.mem_cons_self
    by_cases hvalid : valid < MAX_ITEMS
    · have hstart : (⟨[], consumed, valid, false, acc⟩ : Scan (List Bytes)) =
          ⟨([] : Bytes).take MAX_LINE, consumed, valid, decide (MAX_LINE < ([] : Bytes).length), acc⟩ := rfl
      by_cases hend : consumed + line.length ≤ MAX_PLAYLIST_FILE
      · cases lines with
        | nil =>
          have htext := @loop_text (List Bytes) collect line hline [] [] consumed valid hend hvalid acc
          rw [List.append_nil, List.nil_append] at htext
          rw [List.intercalate_singleton, hstart, htext, loop, tail_text _ _ hvalid,
            tail_lines hvalid hend (.inl rfl)]
        | cons next lines =>
          rw [List.intercalate_cons_cons, List.append_assoc, List.singleton_append, hstart,
            loop_text hline _ [] hend hvalid acc, List.nil_append]
          by_cases hcap : consumed + line.length < MAX_PLAYLIST_FILE
          · rw [loop]
            dsimp only
            rw [if_pos ⟨hcap, hvalid⟩, if_pos rfl, flush_collect]
            dsimp only
            have hlines := ih (fun line hline => hlines line (List.mem_cons_of_mem _ hline))
              (Nat.succ_le_of_lt hcap)
            rw [linesWithin, cutLine, if_pos hend]
            by_cases hlong : MAX_LINE < line.length
            · rw [if_pos (decide_eq_true hlong), hlines, if_neg (by omega)]
            · rw [if_neg (by simpa using hlong), if_neg (by simp), List.take_of_length_le (by omega), hlines,
                if_pos ⟨by omega, hend⟩, cleanedLines_cons line (linesWithin _ _), List.append_assoc,
                List.append_assoc, take_items line _ hvalid]
          · rw [loop_capped (by dsimp only; omega), tail_text _ _ hvalid, tail_lines hvalid hend (.inr (by omega))]
      · -- the cap cuts this line
        have hfront : (line.take (MAX_PLAYLIST_FILE - consumed)).length = MAX_PLAYLIST_FILE - consumed := by
          rw [List.length_take]
          omega
        obtain ⟨rest, hrest⟩ : ∃ rest, [10].intercalate (line :: lines) =
            line.take (MAX_PLAYLIST_FILE - consumed) ++ rest := by
          cases lines with
          | nil =>
            refine ⟨line.drop (MAX_PLAYLIST_FILE - consumed), ?_⟩
            rw [List.intercalate_singleton, List.take_append_drop]
          | cons next lines =>
            refine ⟨line.drop (MAX_PLAYLIST_FILE - consumed) ++ ([10] ++ [10].intercalate (next :: lines)), ?_⟩
            rw [List.intercalate_cons_cons, ← List.append_assoc, List.take_append_drop, List.append_assoc]
        rw [hrest, hstart, loop_text (fun hmem => hline (List.mem_of_mem_take hmem)) rest [] (by omega) hvalid,
          List.nil_append, loop_capped (by dsimp only; omega), tail_text _ _ hvalid, hfront, linesWithin,
          if_neg (fun hboth : line.length ≤ MAX_LINE ∧ _ => hend hboth.2), linesWithin_past (by omega), cutLine,
          if_neg hend]
        have hone := length_cleanedLines_singleton (line.take (MAX_PLAYLIST_FILE - consumed))
        by_cases hfits : MAX_PLAYLIST_FILE - consumed ≤ MAX_LINE
        · rw [if_pos hfits, if_pos ⟨hconsumed, hfits⟩, cleanedLines_nil, List.nil_append,
            List.take_of_length_le (l := cleanedLines [line.take _]) (by omega)]
        · rw [if_neg hfits, if_neg (fun hboth => hfits hboth.2), cleanedLines_nil, List.nil_append, List.take_nil]
    · rw [loop_capped (by dsimp only; omega), Nat.sub_eq_zero_of_le (by omega), List.take_zero, List.append_nil]
      unfold tail
      rw [if_neg (by simp; omega)]

end Scan

/-- The scan delivers the items of the lines within the caps, and after them
what is left of a line the byte cap cuts. -/
theorem validLines_eq (content : Bytes) :
    validLines content =
      (cleanedLines (linesWithin 0 (content.splitOn 10)) ++ cutLine 0 (content.splitOn 10)).take MAX_ITEMS := by
  have hloop := Scan.loop_lines (newline_notMem_splitOn content) (Nat.zero_le _) 0 []
  rw [List.intercalate_splitOn, List.nil_append, Nat.sub_zero] at hloop
  exact hloop

theorem linesWithin_subset {start : Nat} {lines : List Bytes} : linesWithin start lines ⊆ lines := by
  induction lines generalizing start with
  | nil => exact List.Subset.refl []
  | cons line lines ih =>
    rw [linesWithin]
    split
    · exact List.cons_subset_cons line ih
    · exact List.subset_cons_of_subset line ih

/-- The items the reference parser finds in the content within the caps. -/
theorem parse_playlist_withinCaps (content : Bytes) :
    parse_playlist (withinCaps content) MAX_ITEMS =
      (cleanedLines (linesWithin 0 (content.splitOn 10))).take MAX_ITEMS := by
  have hlines : ∀ line ∈ linesWithin 0 (content.splitOn 10), 10 ∉ line :=
    fun line hline => newline_notMem_splitOn content line (linesWithin_subset hline)
  rw [parse_playlist_eq, withinCaps]
  cases hwithin : linesWithin 0 (content.splitOn 10) with
  | nil => simp [cleanedLines, clean_line]
  | cons line lines => rw [← hwithin, List.splitOn_intercalate 10 hlines (by simp [hwithin])]

/-- The byte cap falls inside a line, not more than `MAX_LINE` bytes behind its
beginning; what stands in front of the cap is not blank, and the items before it leave room. -/
def CapCutsItem (content : Bytes) : Prop :=
  ∃ before line after, content.splitOn 10 = before ++ line :: after ∧
    let start := (before.map (·.length + 1)).sum
    start ≤ MAX_PLAYLIST_FILE ∧ MAX_PLAYLIST_FILE < start + line.length ∧
      MAX_PLAYLIST_FILE - start ≤ MAX_LINE ∧ clean_line (line.take (MAX_PLAYLIST_FILE - start)) ≠ [] ∧
      (parse_playlist (withinCaps content) MAX_ITEMS).length < MAX_ITEMS

theorem cutLine_length_le (start : Nat) (lines : List Bytes) : (cutLine start lines).length ≤ 1 := by
  induction lines generalizing start with
  | nil => exact Nat.zero_le 1
  | cons line lines ih =>
    rw [cutLine]
    split_ifs
    · exact ih _
    · rw [cleanedLines_singleton]
      split
      · exact le_rfl
      · exact Nat.zero_le 1
    · exact Nat.zero_le 1

/-- The line the cap cuts is found behind the lines that end within it. -/
private theorem cutLine_ne_nil_iff (start : Nat) (lines : List Bytes) :
    cutLine start lines ≠ [] ↔ ∃ before line after, lines = before ++ line :: after ∧
      start + (before.map (·.length + 1)).sum ≤ MAX_PLAYLIST_FILE ∧
      MAX_PLAYLIST_FILE < start + (before.map (·.length + 1)).sum + line.length ∧
      MAX_PLAYLIST_FILE - (start + (before.map (·.length + 1)).sum) ≤ MAX_LINE ∧
      clean_line (line.take (MAX_PLAYLIST_FILE - (start + (before.map (·.length + 1)).sum))) ≠ [] := by
  induction lines generalizing start with
  | nil => simp [cutLine]
  | cons first lines ih =>
    rw [cutLine]
    by_cases hend : start + first.length ≤ MAX_PLAYLIST_FILE
    · rw [if_pos hend, ih]
      constructor
      · rintro ⟨before, line, after, rfl, hcut⟩
        refine ⟨first :: before, line, after, rfl, ?_⟩
        rw [List.map_cons, List.sum_cons, ← Nat.add_assoc]
        exact hcut
      · rintro ⟨before, line, after, hlines, hcut⟩
        cases before with
        | nil =>
          obtain ⟨rfl, rfl⟩ := List.cons.inj hlines
          simp only [List.map_nil, List.sum_nil] at hcut
          omega
        | cons head before =>
          obtain ⟨rfl, rfl⟩ := List.cons.inj hlines
          refine ⟨before, line, after, rfl, ?_⟩
          rw [List.map_cons, List.sum_cons, ← Nat.add_assoc] at hcut
          exact hcut
    · rw [if_neg hend]
      constructor
      · intro hcut
        split_ifs at hcut with hinside
        · rw [cleanedLines_singleton] at hcut
          split_ifs at hcut with htext
          · exact ⟨[], first, lines, rfl, hinside.1, by simpa using hend, hinside.2, htext⟩
          · exact absurd rfl hcut
        · exact absurd rfl hcut
      · rintro ⟨before, line, after, hlines, hstart, -, hfront, htext⟩
        cases before with
        | nil =>
          obtain ⟨rfl, rfl⟩ := List.cons.inj hlines
          simp only [List.map_nil, List.sum_nil, Nat.add_zero] at hstart hfront htext
          rw [if_pos ⟨hstart, hfront⟩, cleanedLines_singleton, if_pos htext]
          exact List.cons_ne_nil _ _
        | cons head before =>
          obtain ⟨rfl, rfl⟩ := List.cons.inj hlines
          simp only [List.map_cons, List.sum_cons] at hstart
          omega

/-- What the scan delivers is what the reference parser finds within the caps,
and every item is a whole line of the file. -/
def ScansAsParsed (content : Bytes) : Prop :=
  validLines content = parse_playlist (withinCaps content) MAX_ITEMS ∧
    ∀ item ∈ validLines content, ∃ line ∈ content.splitOn 10, item = clean_line line

private theorem scansAsParsed_iff (content : Bytes) : ScansAsParsed content ↔
    ¬ (cutLine 0 (content.splitOn 10) ≠ [] ∧
      (parse_playlist (withinCaps content) MAX_ITEMS).length < MAX_ITEMS) := by
  have hparse := parse_playlist_withinCaps content
  have hscan : validLines content =
      parse_playlist (withinCaps content) MAX_ITEMS ++ (cutLine 0 (content.splitOn 10)).take
        (MAX_ITEMS - (parse_playlist (withinCaps content) MAX_ITEMS).length) := by
    rw [validLines_eq, hparse, List.take_append, List.length_take]
    congr 2
    omega
  have hone := cutLine_length_le 0 (content.splitOn 10)
  rw [not_and, not_lt]
  constructor
  · rintro ⟨hsame, -⟩ hline
    rw [hscan, List.append_right_eq_self, List.take_eq_nil_iff] at hsame
    obtain hfull | hnone := hsame
    · omega
    · exact absurd hnone hline
  · intro hkept
    have hsame : validLines content = parse_playlist (withinCaps content) MAX_ITEMS := by
      rw [hscan, List.append_right_eq_self, List.take_eq_nil_iff]
      by_cases hline : cutLine 0 (content.splitOn 10) = []
      · exact .inr hline
      · have hfull := hkept hline
        exact .inl (by omega)
    refine ⟨hsame, ?_⟩
    intro item hitem
    rw [hsame, hparse] at hitem
    obtain ⟨line, hline, hclean⟩ := mem_cleanedLines (List.mem_of_mem_take hitem)
    exact ⟨line, linesWithin_subset hline, hclean⟩

/-- The streaming scan agrees with the reference parser except where the byte
cap cuts a line in two: what follows the loop takes the front of that line for
the last line of the file. -/
theorem scans_as_parsed_iff (content : Bytes) : ScansAsParsed content ↔ ¬ CapCutsItem content := by
  rw [scansAsParsed_iff, cutLine_ne_nil_iff, not_iff_not]
  simp only [Nat.zero_add]
  constructor
  · rintro ⟨⟨before, line, after, hlines, hstart, hline, hfront, htext⟩, hroom⟩
    exact ⟨before, line, after, hlines, hstart, hline, hfront, htext, hroom⟩
  · rintro ⟨before, line, after, hlines, hstart, hline, hfront, htext, hroom⟩
    exact ⟨⟨before, line, after, hlines, hstart, hline, hfront, htext⟩, hroom⟩

private theorem splitOn_newlines (n : Nat) (content : Bytes) :
    (List.replicate n 10 ++ content).splitOn 10 = List.replicate n [] ++ content.splitOn 10 := by
  induction n with
  | zero => rfl
  | succ n ih =>
    rw [List.replicate_succ, List.replicate_succ, List.cons_append, List.cons_append, ← ih]
    exact List.splitOn_append_cons_self_of_not_mem List.not_mem_nil _

private theorem linesWithin_blank (start n : Nat) (lines : List Bytes) :
    cleanedLines (linesWithin start (List.replicate n [] ++ lines)) =
      cleanedLines (linesWithin (start + n) lines) := by
  induction n generalizing start with
  | zero => rfl
  | succ n ih =>
    have hblank : cleanedLines [[]] = [] := rfl
    rw [List.replicate_succ, List.cons_append, linesWithin, Nat.add_comm n, ← Nat.add_assoc]
    split
    · rw [cleanedLines_cons, hblank, List.nil_append]
      exact ih (start + 1)
    · exact ih (start + 1)

private theorem cutLine_blank (start n : Nat) (lines : List Bytes) (hend : start + n ≤ MAX_PLAYLIST_FILE) :
    cutLine start (List.replicate n [] ++ lines) = cutLine (start + n) lines := by
  induction n generalizing start with
  | zero => rfl
  | succ n ih =>
    rw [List.replicate_succ, List.cons_append, cutLine, if_pos (by simp; omega), Nat.add_comm n, ← Nat.add_assoc]
    exact ih (start + 1) (by omega)

/-- The cap falls behind the `ab` of the line `abc`, and the item is `/ab`. -/
theorem scan_delivers_cut_line : ¬ ScansAsParsed (List.replicate 65534 10 ++ bytes "abc") := by
  rw [scansAsParsed_iff, not_not, splitOn_newlines, cutLine_blank _ _ _ (by decide), parse_playlist_withinCaps,
    splitOn_newlines, linesWithin_blank]
  exact ⟨by decide, by decide⟩

end DuneWeaver
