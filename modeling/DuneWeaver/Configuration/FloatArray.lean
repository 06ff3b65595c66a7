import DuneWeaver.Binary32.Words
import DuneWeaver.Settings.Setting
import DuneWeaver.Spacing.Words

open Binary32 (Value)

namespace DuneWeaver.Configuration.Parser

/-- The number that a text is up to its end. `strtof` reads nothing of an empty text, and that is its end too. What
stands behind the text in memory never goes on with the number. -/
def is_float (s : Bytes) : Option Value :=
  match Binary32.strtof s with
  | some (value, rest) => if rest = [] then some value else none
  | none => if s = [] then some (Binary32.round false 0) else none

theorem length_trim_le (s : Bytes) : (trim s).length ≤ s.length := by
  rw [trim, List.length_reverse]
  refine (List.dropWhile_sublist _).length_le.trans ?_
  rw [List.length_reverse]
  exact (List.dropWhile_sublist _).length_le

/-- What is left of a text behind the first `delim`, or without one all of it, since `npos + 1` is 0. -/
def behind (delim : UInt8) (str : Bytes) : Bytes :=
  if delim ∈ str then (str.dropWhile (· ≠ delim)).tail else str

theorem length_behind {delim : UInt8} {str : Bytes} (h : delim ∈ str) : (behind delim str).length < str.length := by
  obtain ⟨front, rest, rfl, hfront⟩ := List.eq_append_cons_of_mem h
  rw [behind, if_pos h, Spacing.dropWhile_absent hfront, Spacing.dropWhile_mark, List.tail_cons,
    List.length_append, List.length_cons]
  omega

theorem trim_trim (s : Bytes) : trim (trim s) = trim s := Spacing.trimmed_trimmed s

/-- The loop of `floatArray`. -/
def floatArray_loop (str : Bytes) (values : List Value) : List Value :=
  if str = [] then values
  else
    let entry_str := trim ((trim str).takeWhile (· ≠ 0x20))
    match is_float entry_str with
    | none => []
    | some float_value =>
      if behind 0x20 (trim str) = entry_str then values ++ [float_value]
      else floatArray_loop (behind 0x20 (trim str)) (values ++ [float_value])
termination_by str.length
decreasing_by
  rename_i hagain
  by_cases hspace : 0x20 ∈ trim str
  · exact (length_behind hspace).trans_le (length_trim_le str)
  · refine absurd ?_ hagain
    have hwhole := Spacing.takeWhile_absent hspace []
    rw [List.append_nil, List.takeWhile_nil, List.append_nil] at hwhole
    have hentry : entry_str = trim (trim str) := congrArg trim hwhole
    rw [behind, if_neg hspace, hentry, trim_trim]

def floatArray (_value : Bytes) : List Value := floatArray_loop (trim _value) []

/-- A number as it is written in a list: a text without white space that is read to its end. -/
structure Number where
  text : Bytes
  value : Value
  ne_nil : text ≠ []
  plain : ∀ c ∈ text, isspace c = false
  reads : is_float text = some value

/-- A list of what is written with white space in front of each, which is there behind the first of them, and behind the
last. -/
structure Row (τ : Type) where
  words : List (Bytes × τ)
  trail : Bytes
  blank : ∀ w ∈ words, Spacing.Blank isspace w.1
  blank_trail : Spacing.Blank isspace trail
  apart : ∀ w ∈ words.tail, w.1 ≠ []

def Row.text {τ : Type} (text : τ → Bytes) (row : Row τ) : Bytes := Spacing.row text row.words ++ row.trail

/-- Every gap has a space in it, and the last one does not end in its only space in front of a repeated number. -/
structure FloatsApart (words : List (Bytes × Number)) : Prop where
  spaced : ∀ w ∈ words.tail, 0x20 ∈ w.1
  repeated : ∀ front x y, words = front ++ [x, y] → x.2.text = y.2.text → y.1.dropWhile (· ≠ 0x20) ≠ [0x20]

section FloatArray

theorem Number.solid (n : Number) : Spacing.Solid isspace n.text := Spacing.Solid.of_plain n.ne_nil n.plain

theorem Number.space_notMem (n : Number) : 0x20 ∉ n.text :=
  fun h => absurd (n.plain 0x20 h) (by decide)

/-- Two words are no number. -/
theorem is_float_words {first gap last : Bytes} (hfirst : Spacing.Solid isspace first) (hgap : gap ≠ [])
    (hblank : Spacing.Blank isspace gap) : is_float (first ++ (gap ++ last)) = none := by
  obtain ⟨c, rest, rfl⟩ := List.exists_cons_of_ne_nil hgap
  have hmem : c ∈ (first ++ (c :: rest ++ last)).dropWhile isspace := by
    rw [hfirst.dropWhile]
    exact List.mem_append_right _ (List.mem_append_left _ List.mem_cons_self)
  have hspace : isspace c = true := hblank c List.mem_cons_self
  unfold is_float
  cases hread : Binary32.strtof (first ++ (c :: rest ++ last)) with
  | none =>
    dsimp only
    rw [if_neg (by simp [hfirst.ne_nil])]
  | some result =>
    obtain ⟨value, rest⟩ := result
    dsimp only
    rw [if_neg]
    rintro rfl
    have hplain : isspace c = false := (Binary32.numeric_plain (Binary32.strtof_whole hread c hmem)).1
    rw [hspace] at hplain
    exact Bool.noConfusion hplain

variable {x y : Number} {pre gap : Bytes} {rest : List (Bytes × Number)} {values : List Value}

theorem floatArray_loop_eq {str t entry : Bytes} (hne : str ≠ []) (htrim : trim str = t)
    (hentry : trim (t.takeWhile (· ≠ 0x20)) = entry) :
    floatArray_loop str values =
      match is_float entry with
      | none => []
      | some value =>
        if behind 0x20 t = entry then values ++ [value] else floatArray_loop (behind 0x20 t) (values ++ [value]) := by
  subst htrim hentry
  rw [floatArray_loop, if_neg hne]

theorem trim_row (hpre : Spacing.Blank isspace pre) :
    trim (pre ++ (x.text ++ Spacing.row Number.text rest)) = x.text ++ Spacing.row Number.text rest := by
  have hsolid : Spacing.Solid isspace (x.text ++ Spacing.row Number.text rest) :=
    Spacing.solid_row x.solid fun w _ => w.2.solid
  have htrim := Spacing.trimmed_solid hpre hsolid Spacing.blank_nil
  rw [List.append_nil] at htrim
  exact htrim

theorem row_ne_nil : pre ++ (x.text ++ Spacing.row Number.text rest) ≠ [] := by
  simp [x.ne_nil]

/-- The last number of a list. -/
theorem floatArray_loop_last (hpre : Spacing.Blank isspace pre) :
    floatArray_loop (pre ++ (x.text ++ Spacing.row Number.text [])) values = values ++ [x.value] := by
  have hrow : x.text ++ Spacing.row Number.text [] = x.text := by
    rw [Spacing.row, List.flatMap_nil, List.append_nil]
  have htake : x.text.takeWhile (· ≠ 0x20) = x.text := by
    have hwhole := Spacing.takeWhile_absent x.space_notMem []
    rw [List.append_nil, List.takeWhile_nil, List.append_nil] at hwhole
    exact hwhole
  have hentry : trim ((x.text ++ Spacing.row Number.text []).takeWhile (· ≠ 0x20)) = x.text := by
    rw [hrow, htake]
    exact Spacing.trimmed_self x.solid
  rw [floatArray_loop_eq row_ne_nil (trim_row hpre) hentry, x.reads, hrow]
  dsimp only
  rw [behind, if_neg x.space_notMem, if_pos rfl]

/-- A number in front of a gap with a space in it. -/
theorem floatArray_loop_spaced (hpre : Spacing.Blank isspace pre) (hgap : Spacing.Blank isspace gap)
    {front left : Bytes} (hsplit : gap = front ++ 0x20 :: left) (hfront : 0x20 ∉ front)
    (hrest : ∀ w ∈ rest, w.1 ≠ [] ∧ Spacing.Blank isspace w.1) :
    floatArray_loop (pre ++ (x.text ++ Spacing.row Number.text ((gap, y) :: rest))) values =
      if left = [] ∧ y.text = x.text ∧ rest = [] then values ++ [x.value]
      else floatArray_loop (left ++ (y.text ++ Spacing.row Number.text rest)) (values ++ [x.value]) := by
  have hrow : x.text ++ Spacing.row Number.text ((gap, y) :: rest) =
      (x.text ++ front) ++ 0x20 :: (left ++ (y.text ++ Spacing.row Number.text rest)) := by
    rw [Spacing.row_cons, hsplit]
    simp only [List.append_assoc, List.cons_append]
  have habsent : 0x20 ∉ x.text ++ front := fun h => (List.mem_append.mp h).elim x.space_notMem hfront
  have hentry : trim ((x.text ++ Spacing.row Number.text ((gap, y) :: rest)).takeWhile (· ≠ 0x20)) = x.text := by
    rw [hrow, Spacing.takeWhile_absent habsent, Spacing.takeWhile_mark, List.append_nil]
    exact Spacing.trimmed_solid Spacing.blank_nil x.solid
      fun c hc => hgap c (hsplit ▸ List.mem_append_left _ hc)
  have hbehind : behind 0x20 (x.text ++ Spacing.row Number.text ((gap, y) :: rest)) =
      left ++ (y.text ++ Spacing.row Number.text rest) := by
    rw [hrow, behind, if_pos (List.mem_append_right _ List.mem_cons_self), Spacing.dropWhile_absent habsent,
      Spacing.dropWhile_mark, List.tail_cons]
  have hsame : left ++ (y.text ++ Spacing.row Number.text rest) = x.text ↔
      left = [] ∧ y.text = x.text ∧ rest = [] := by
    constructor
    · intro h
      have hplain : ∀ c ∈ left ++ (y.text ++ Spacing.row Number.text rest), isspace c = false := by
        rw [h]
        exact x.plain
      have hleft : left = [] := by
        refine List.eq_nil_iff_forall_not_mem.mpr fun c hc => ?_
        have hspace : isspace c = true := hgap c (hsplit ▸ List.mem_append_right _ (List.mem_cons_of_mem _ hc))
        rw [hplain c (List.mem_append_left _ hc)] at hspace
        exact Bool.noConfusion hspace
      have hlast : rest = [] := by
        cases rest with
        | nil => rfl
        | cons w rest =>
          obtain ⟨hne, hblank⟩ := hrest w List.mem_cons_self
          obtain ⟨c, tail, hc⟩ := List.exists_cons_of_ne_nil hne
          have hspace : isspace c = true := hblank c (hc ▸ List.mem_cons_self)
          rw [hplain c (by simp [Spacing.row, hc])] at hspace
          exact Bool.noConfusion hspace
      subst hleft hlast
      rw [List.nil_append, Spacing.row, List.flatMap_nil, List.append_nil] at h
      exact ⟨rfl, h, rfl⟩
    · rintro ⟨rfl, htext, rfl⟩
      rw [List.nil_append, Spacing.row, List.flatMap_nil, List.append_nil, htext]
  rw [floatArray_loop_eq row_ne_nil (trim_row hpre) hentry, x.reads, hbehind]
  simp only [hsame]

/-- A number in front of a gap without a space in it. -/
theorem floatArray_loop_unspaced (hpre : Spacing.Blank isspace pre) (hgap : Spacing.Blank isspace gap) (hne : gap ≠ [])
    (hspace : 0x20 ∉ gap) :
    floatArray_loop (pre ++ (x.text ++ Spacing.row Number.text ((gap, y) :: rest))) values = [] := by
  have hrow : x.text ++ Spacing.row Number.text ((gap, y) :: rest) =
      (x.text ++ (gap ++ y.text)) ++ Spacing.row Number.text rest := by
    rw [Spacing.row_cons]
    simp only [List.append_assoc]
  have habsent : 0x20 ∉ x.text ++ (gap ++ y.text) := by
    simp only [List.mem_append, not_or]
    exact ⟨x.space_notMem, hspace, y.space_notMem⟩
  obtain ⟨last, hentry⟩ : ∃ last,
      trim ((x.text ++ Spacing.row Number.text ((gap, y) :: rest)).takeWhile (· ≠ 0x20)) =
        x.text ++ (gap ++ last) := by
    rw [hrow, Spacing.takeWhile_absent habsent]
    obtain ⟨left, hleft⟩ := Spacing.trimmed_begins (x.solid.append gap y.solid)
      ((Spacing.row Number.text rest).takeWhile (· ≠ 0x20))
    exact ⟨y.text ++ left, hleft.trans (by simp only [List.append_assoc])⟩
  rw [floatArray_loop_eq row_ne_nil (trim_row hpre) hentry, is_float_words x.solid hne hgap]

theorem floatsApart_one (w : Bytes × Number) : FloatsApart [w] where
  spaced := fun _ h => absurd h List.not_mem_nil
  repeated := by
    intro front x y h
    have hlength := congrArg List.length h
    rw [List.length_append] at hlength
    simp at hlength

theorem floatsApart_cons {w : Bytes × Number} :
    FloatsApart (w :: (gap, y) :: rest) ↔ 0x20 ∈ gap ∧
      ¬(gap.dropWhile (· ≠ 0x20) = [0x20] ∧ y.text = w.2.text ∧ rest = []) ∧ FloatsApart ((gap, y) :: rest) := by
  constructor
  · rintro ⟨hspaced, hrepeated⟩
    refine ⟨hspaced (gap, y) List.mem_cons_self, ?_, fun v hv => hspaced v (List.mem_cons_of_mem _ hv), ?_⟩
    · rintro ⟨hgap, htext, rfl⟩
      exact hrepeated [] w (gap, y) rfl htext.symm hgap
    · intro front u v h
      exact hrepeated (w :: front) u v (by rw [h, List.cons_append])
  · rintro ⟨hspace, hlast, hspaced, hrepeated⟩
    refine ⟨fun v hv => ?_, fun front u v h htext hgap => ?_⟩
    · rcases List.mem_cons.mp hv with rfl | hv
      · exact hspace
      · exact hspaced v hv
    · cases front with
      | nil =>
        obtain ⟨rfl, hrest⟩ := List.cons.inj h
        obtain ⟨rfl, rfl⟩ := List.cons.inj hrest
        exact hlast ⟨hgap, htext.symm, rfl⟩
      | cons first front => exact hrepeated front u v (List.cons.inj h).2 htext hgap

/-- What the loop makes of a list from a number on. -/
theorem floatArray_loop_iff (values : List Value) (hpre : Spacing.Blank isspace pre)
    (hrest : ∀ w ∈ rest, w.1 ≠ [] ∧ Spacing.Blank isspace w.1) (lead : Bytes) :
    floatArray_loop (pre ++ (x.text ++ Spacing.row Number.text rest)) values =
      values ++ x.value :: rest.map (·.2.value) ↔ FloatsApart ((lead, x) :: rest) := by
  induction rest generalizing pre x values lead with
  | nil =>
    rw [floatArray_loop_last hpre]
    exact iff_of_true rfl (floatsApart_one _)
  | cons w rest ih =>
    obtain ⟨gap, y⟩ := w
    obtain ⟨hne, hgap⟩ := hrest (gap, y) List.mem_cons_self
    have hlater : ∀ w ∈ rest, w.1 ≠ [] ∧ Spacing.Blank isspace w.1 := fun w hw => hrest w (List.mem_cons_of_mem _ hw)
    rw [floatsApart_cons]
    by_cases hspace : 0x20 ∈ gap
    · obtain ⟨front, left, hsplit, hfront⟩ := List.eq_append_cons_of_mem hspace
      have hend : gap.dropWhile (· ≠ 0x20) = [0x20] ↔ left = [] := by
        rw [hsplit, Spacing.dropWhile_absent hfront, Spacing.dropWhile_mark]
        simp
      have hleft : Spacing.Blank isspace left :=
        fun c hc => hgap c (hsplit ▸ List.mem_append_right _ (List.mem_cons_of_mem _ hc))
      rw [floatArray_loop_spaced hpre hgap hsplit hfront hlater, hend]
      by_cases hlast : left = [] ∧ y.text = x.text ∧ rest = []
      · rw [if_pos hlast]
        refine iff_of_false (fun h => ?_) (fun h => h.2.1 hlast)
        have hlength := congrArg List.length h
        simp at hlength
      · rw [if_neg hlast, ← ih _ hleft hlater gap, List.map_cons, List.append_assoc]
        exact ⟨fun h => ⟨hspace, hlast, h⟩, fun h => h.2.2⟩
    · rw [floatArray_loop_unspaced hpre hgap hne hspace]
      refine iff_of_false (fun h => ?_) (fun h => hspace h.1)
      have hlength := congrArg List.length h
      simp at hlength

/-- A list of numbers is read exactly if its gaps have a space in them and the last one of them does not end in its only
space in front of a repeated number. -/
theorem floatArray_reads_iff (row : Row Number) :
    floatArray (row.text Number.text) = row.words.map (·.2.value) ↔ FloatsApart row.words := by
  obtain ⟨words, trail, hblank, htrail, hapart⟩ := row
  unfold floatArray Row.text
  cases words with
  | nil =>
    have htrim : trim (Spacing.row Number.text [] ++ trail) = [] := Spacing.trimmed_blank htrail
    dsimp only
    rw [htrim, floatArray_loop, if_pos rfl]
    refine iff_of_true rfl ⟨fun _ h => absurd h List.not_mem_nil, fun front x y h => ?_⟩
    have hlength := congrArg List.length h
    rw [List.length_append] at hlength
    simp at hlength
  | cons w words =>
    obtain ⟨lead, x⟩ := w
    have hlead : Spacing.Blank isspace lead := hblank (lead, x) List.mem_cons_self
    have hsolid : Spacing.Solid isspace (x.text ++ Spacing.row Number.text words) :=
      Spacing.solid_row x.solid fun w _ => w.2.solid
    have htrim : trim (Spacing.row Number.text ((lead, x) :: words) ++ trail) =
        x.text ++ Spacing.row Number.text words := by
      rw [Spacing.row_cons, List.append_assoc]
      exact Spacing.trimmed_solid hlead hsolid htrail
    have hwords : ∀ w ∈ words, w.1 ≠ [] ∧ Spacing.Blank isspace w.1 :=
      fun w hw => ⟨hapart w hw, hblank w (List.mem_cons_of_mem _ hw)⟩
    dsimp only
    rw [htrim]
    exact floatArray_loop_iff [] Spacing.blank_nil hwords lead

end FloatArray

end DuneWeaver.Configuration.Parser
