import DuneWeaver.Configuration.FloatArray
import DuneWeaver.Configuration.Generator
import DuneWeaver.Spacing.Balance

open Binary32 (Value)

namespace DuneWeaver.Configuration.Parser

/-- What `speedEntryValue` sets of a `speedEntry`. -/
structure SpeedEntry where
  speed : UInt32
  percent : Value
  deriving DecidableEq

/-- One entry of `speedEntryValue`. What stands behind the percent sign is not looked at. -/
def speedEntry (entry_str : Bytes) : Option SpeedEntry :=
  (is_uint (trim (entry_str.takeWhile (· ≠ 0x3d)))).bind fun speed =>
    (is_float (trim ((behind 0x3d entry_str).takeWhile (· ≠ 0x25)))).map fun percent => { speed, percent }

/-- The loop of `speedEntryValue`. -/
def speedEntryValue_loop (str : Bytes) (speed_entries : List SpeedEntry) : List SpeedEntry :=
  if str = [] then speed_entries
  else
    match speedEntry (trim (str.takeWhile (· ≠ 0x20))) with
    | none => []
    | some entry => speedEntryValue_loop (str.dropWhile (· ≠ 0x20)).tail (speed_entries ++ [entry])
termination_by str.length
decreasing_by
  rename_i hne
  have hle : (str.dropWhile (· ≠ 0x20)).length ≤ str.length := (List.dropWhile_sublist _).length_le
  have hpos : 0 < str.length := List.length_pos_iff.mpr hne
  rw [List.length_tail]
  omega

def speedEntryValue (_value : Bytes) : List SpeedEntry := speedEntryValue_loop (trim _value) []

/-- A speed and a percentage as they are written in a list, with a percent sign or without. -/
structure Pair where
  speed_text : Bytes
  percent_text : Bytes
  percent_sign : Bool
  value : SpeedEntry
  speed_ne_nil : speed_text ≠ []
  speed_plain : ∀ c ∈ speed_text, isspace c = false
  speed_reads : is_uint speed_text = some value.speed
  percent_ne_nil : percent_text ≠ []
  percent_plain : ∀ c ∈ percent_text, isspace c = false
  percent_reads : is_float percent_text = some value.percent

def Pair.text (p : Pair) : Bytes :=
  p.speed_text ++ (0x3d :: (p.percent_text ++ if p.percent_sign = true then [0x25] else []))

/-- What is read of nothing. -/
def no_entry : SpeedEntry := ⟨0, Binary32.round false 0⟩

section Entry

variable {p : Pair}

theorem speedEntry_nil : speedEntry [] = some no_entry := by
  have hspeed : is_uint (trim []) = some 0 := by decide
  have hpercent : is_float (trim []) = some (Binary32.round false 0) := by
    have hnone : Binary32.strtof [] = none := by decide
    rw [show trim [] = [] from rfl, is_float, hnone]
    rfl
  unfold speedEntry
  rw [List.takeWhile_nil, hspeed, Option.bind_some, behind, if_neg List.not_mem_nil, List.takeWhile_nil, hpercent]
  rfl

/-- A text behind its sign, if it has one. -/
def unsigned (text : Bytes) : Bytes :=
  if text.head? = some 0x2d ∨ text.head? = some 0x2b then text.tail else text

theorem strto_rest {text : Bytes} (hbody : text.dropWhile isspace = text) :
    (strto text).2 =
      if (unsigned text).takeWhile isdigit = [] then text else (unsigned text).dropWhile isdigit := by
  unfold strto unsigned
  dsimp only
  rw [hbody]
  split_ifs
  all_goals rfl

/-- A whole number is written in digits and a sign. -/
theorem is_uint_chars {text : Bytes} {value : UInt32} (hne : text ≠ []) (hplain : ∀ c ∈ text, isspace c = false)
    (hreads : is_uint text = some value) : ∀ c ∈ text, isdigit c = true ∨ c = 0x2d ∨ c = 0x2b := by
  have hbody : text.dropWhile isspace = text := by
    have hdrop := (Spacing.Solid.of_plain hne hplain).dropWhile []
    rwa [List.append_nil] at hdrop
  have hread : (strto text).2 = [] := by
    unfold is_uint at hreads
    split_ifs at hreads with hend
    exact hend
  rw [strto_rest hbody] at hread
  split_ifs at hread with hnone
  · exact absurd hread hne
  have hdigits : ∀ c ∈ unsigned text, isdigit c = true := List.dropWhile_eq_nil_iff.mp hread
  unfold unsigned at hdigits
  split_ifs at hdigits with hsign
  · obtain ⟨d, rest, rfl⟩ := List.exists_cons_of_ne_nil hne
    intro c hc
    rcases List.mem_cons.mp hc with rfl | hc
    · exact .inr (hsign.imp Option.some.inj Option.some.inj)
    · exact .inl (hdigits c hc)
  · exact fun c hc => .inl (hdigits c hc)

theorem Pair.speed_chars (p : Pair) : 0x3d ∉ p.speed_text ∧ 0x25 ∉ p.speed_text := by
  have hchars := is_uint_chars p.speed_ne_nil p.speed_plain p.speed_reads
  exact ⟨fun h => absurd (hchars _ h) (by decide), fun h => absurd (hchars _ h) (by decide)⟩

theorem Pair.space_notMem (p : Pair) : 0x20 ∉ p.text := by
  have hspeed : 0x20 ∉ p.speed_text := fun h => absurd (p.speed_plain 0x20 h) (by decide)
  have hpercent : 0x20 ∉ p.percent_text := fun h => absurd (p.percent_plain 0x20 h) (by decide)
  unfold Pair.text
  split_ifs
  all_goals simp [hspeed, hpercent]

theorem Pair.plain (p : Pair) : ∀ c ∈ p.text, isspace c = false := by
  intro c hc
  unfold Pair.text at hc
  rcases List.mem_append.mp hc with hc | hc
  · exact p.speed_plain c hc
  rcases List.mem_cons.mp hc with rfl | hc
  · rfl
  rcases List.mem_append.mp hc with hc | hc
  · exact p.percent_plain c hc
  split_ifs at hc
  · rw [List.mem_singleton.mp hc]
    rfl
  · exact absurd hc List.not_mem_nil

theorem Pair.solid (p : Pair) : Spacing.Solid isspace p.text :=
  Spacing.Solid.of_plain (by simp [Pair.text]) p.plain

theorem Pair.percent_chars (p : Pair) : 0x25 ∉ p.percent_text := by
  have hbody : p.percent_text.dropWhile isspace = p.percent_text := by
    have hdrop := (Spacing.Solid.of_plain p.percent_ne_nil p.percent_plain).dropWhile []
    rwa [List.append_nil] at hdrop
  have hreads := p.percent_reads
  unfold is_float at hreads
  split at hreads
  · next value rest hread =>
    split_ifs at hreads with hend
    subst hend
    have hwhole := Binary32.strtof_whole hread
    have hsame : p.percent_text.dropWhile isspace = p.percent_text := hbody
    rw [hsame] at hwhole
    exact fun h => (Binary32.numeric_plain (hwhole _ h)).2 rfl
  · exact absurd hreads (by rw [if_neg p.percent_ne_nil]; exact nofun)

/-- The speed of a pair, and what is left behind the equals sign. -/
theorem speedEntry_speed (p : Pair) (rest : Bytes) :
    speedEntry (p.text ++ rest) =
      (is_float (trim ((p.percent_text ++ ((if p.percent_sign = true then [0x25] else []) ++ rest)).takeWhile
        (· ≠ 0x25)))).map fun percent => { speed := p.value.speed, percent } := by
  have hmark := p.speed_chars.1
  have hsplit : p.text ++ rest =
      p.speed_text ++ 0x3d :: (p.percent_text ++ ((if p.percent_sign = true then [0x25] else []) ++ rest)) := by
    rw [Pair.text]
    simp only [List.append_assoc, List.cons_append]
  have hspeed : trim (p.speed_text ++ []) = p.speed_text := by
    rw [List.append_nil]
    exact Spacing.trimmed_self (Spacing.Solid.of_plain p.speed_ne_nil p.speed_plain)
  have hbehind : behind 0x3d (p.text ++ rest) =
      p.percent_text ++ ((if p.percent_sign = true then [0x25] else []) ++ rest) := by
    rw [hsplit, behind, if_pos (List.mem_append_right _ List.mem_cons_self), Spacing.dropWhile_absent hmark,
      Spacing.dropWhile_mark, List.tail_cons]
  rw [speedEntry, hbehind, hsplit, Spacing.takeWhile_absent hmark, Spacing.takeWhile_mark, hspeed, p.speed_reads,
    Option.bind_some]

/-- A pair is read as it is written, and with a percent sign whatever follows it. -/
theorem speedEntry_pair (p : Pair) (rest : Bytes) (hrest : p.percent_sign = true ∨ rest = []) :
    speedEntry (p.text ++ rest) = some p.value := by
  have hpercent : (p.percent_text ++ ((if p.percent_sign = true then [0x25] else []) ++ rest)).takeWhile (· ≠ 0x25) =
      p.percent_text := by
    rw [Spacing.takeWhile_absent p.percent_chars]
    cases hsign : p.percent_sign with
    | true => rw [if_pos rfl, List.singleton_append, Spacing.takeWhile_mark, List.append_nil]
    | false =>
      rw [hrest.resolve_left (by rw [hsign]; decide)]
      exact List.append_nil _
  have htrim : trim p.percent_text = p.percent_text :=
    Spacing.trimmed_self (Spacing.Solid.of_plain p.percent_ne_nil p.percent_plain)
  rw [speedEntry_speed, hpercent, htrim, p.percent_reads]
  rfl

/-- A pair without a percent sign is not read with another one behind it. -/
theorem speedEntry_pairs (p q : Pair) {gap : Bytes} (hsign : p.percent_sign = false) (hne : gap ≠ [])
    (hgap : Spacing.Blank isspace gap) (rest : Bytes) : speedEntry (p.text ++ (gap ++ (q.text ++ rest))) = none := by
  have hspeed : Spacing.Solid isspace q.speed_text := Spacing.Solid.of_plain q.speed_ne_nil q.speed_plain
  have hpercent : Spacing.Solid isspace p.percent_text := Spacing.Solid.of_plain p.percent_ne_nil p.percent_plain
  have habsent : 0x25 ∉ p.percent_text ++ (gap ++ q.speed_text) := by
    have hspace : 0x25 ∉ gap := fun h => absurd (hgap _ h) (by decide)
    simp only [List.mem_append, not_or]
    exact ⟨p.percent_chars, hspace, q.speed_chars.2⟩
  obtain ⟨behind, hbehind⟩ : ∃ behind, q.text ++ rest = q.speed_text ++ behind := by
    rw [Pair.text, List.append_assoc]
    exact ⟨_, rfl⟩
  obtain ⟨left, hleft⟩ := Spacing.trimmed_begins (hpercent.append gap hspeed) (behind.takeWhile (· ≠ 0x25))
  have htrim : trim ((p.percent_text ++ ((if p.percent_sign = true then [0x25] else []) ++
      (gap ++ (q.text ++ rest)))).takeWhile (· ≠ 0x25)) = p.percent_text ++ (gap ++ (q.speed_text ++ left)) := by
    have hsplit : p.percent_text ++ ((if p.percent_sign = true then [0x25] else []) ++ (gap ++ (q.text ++ rest))) =
        (p.percent_text ++ (gap ++ q.speed_text)) ++ behind := by
      rw [hbehind, hsign, if_neg (by decide)]
      simp only [List.append_assoc, List.nil_append]
    rw [hsplit, Spacing.takeWhile_absent habsent]
    exact hleft.trans (by simp only [List.append_assoc])
  rw [speedEntry_speed, htrim, is_float_words hpercent hne hgap, Option.map_none]

end Entry

section SpeedMap

/-- A pair without a percent sign is followed by a gap with a space in it, if it is read. `unclosed` says whether the
pair that is read last has none. -/
def Closes (unclosed : Bool) : List (Bytes × Pair) → Prop
  | [] => True
  | (gap, y) :: rest =>
    if 0x20 ∈ gap then Closes (!y.percent_sign) rest else unclosed = false ∧ Closes unclosed rest

/-- The values of pairs behind the number of spaces in front of each. -/
def marked (words : List (Bytes × Pair)) : List (Nat × SpeedEntry) := words.map fun w => (w.1.count 0x20, w.2.value)

theorem marked_cons (gap : Bytes) (y : Pair) (rest : List (Bytes × Pair)) :
    marked ((gap, y) :: rest) = (gap.count 0x20, y.value) :: marked rest := rfl

/-- What reading starts with: a pair, or some pairs without a space between them. -/
inductive Head (x : Pair) : Bool → Bytes → Prop
  | alone : Head x false x.text
  | joined {gap : Bytes} (hne : gap ≠ []) (hgap : Spacing.Blank isspace gap) (y : Pair) (more : Bytes) :
      Head x true (x.text ++ (gap ++ (y.text ++ more)))

theorem Head.extend {x y : Pair} {joined : Bool} {head gap : Bytes} (h : Head x joined head) (hne : gap ≠ [])
    (hgap : Spacing.Blank isspace gap) : Head x true (head ++ (gap ++ y.text)) := by
  cases h with
  | alone =>
    have hjoined := Head.joined (x := x) hne hgap y []
    rwa [List.append_nil] at hjoined
  | @joined before hne' hgap' z more =>
    have hjoined := Head.joined (x := x) hne' hgap' z (more ++ (gap ++ y.text))
    simpa only [List.append_assoc] using hjoined

/-- Of pairs without a space between them the first is read, if it has a percent sign. -/
theorem Head.reads {x : Pair} {joined : Bool} {head : Bytes} (h : Head x joined head) :
    speedEntry head = if joined = true ∧ x.percent_sign = false then none else some x.value := by
  cases h with
  | alone =>
    have hread := speedEntry_pair x [] (.inr rfl)
    rwa [List.append_nil] at hread
  | @joined gap hne hgap y more =>
    cases hsign : x.percent_sign with
    | true => exact speedEntry_pair x _ (.inl hsign)
    | false => exact speedEntry_pairs x y hsign hne hgap more

theorem speedEntryValue_loop_space {front left : Bytes} (hfront : 0x20 ∉ front) (entries : List SpeedEntry) :
    speedEntryValue_loop (front ++ 0x20 :: left) entries =
      match speedEntry (trim front) with
      | none => []
      | some entry => speedEntryValue_loop left (entries ++ [entry]) := by
  rw [speedEntryValue_loop, if_neg (by simp), Spacing.takeWhile_absent hfront, Spacing.dropWhile_absent hfront,
    Spacing.takeWhile_mark, Spacing.dropWhile_mark, List.append_nil, List.tail_cons]

/-- Each space in front of a pair gives an entry. -/
theorem speedEntryValue_loop_blank {pre : Bytes} (hpre : Spacing.Blank isspace pre) (str : Bytes)
    (entries : List SpeedEntry) :
    ∃ left, Spacing.Blank isspace left ∧ 0x20 ∉ left ∧
      speedEntryValue_loop (pre ++ str) entries =
        speedEntryValue_loop (left ++ str) (entries ++ List.replicate (pre.count 0x20) no_entry) := by
  by_cases hspace : 0x20 ∈ pre
  · obtain ⟨front, behind, hsplit, hfront⟩ := List.eq_append_cons_of_mem hspace
    have hblank : Spacing.Blank isspace behind :=
      fun c hc => hpre c (hsplit ▸ List.mem_append_right _ (List.mem_cons_of_mem _ hc))
    have hshorter : behind.length < pre.length := by
      rw [hsplit, List.length_append, List.length_cons]
      omega
    obtain ⟨left, hleft, hnone, hloop⟩ := speedEntryValue_loop_blank hblank str (entries ++ [no_entry])
    have hempty : speedEntry (trim front) = some no_entry := by
      have hfrontBlank : Spacing.Blank isspace front := fun c hc => hpre c (hsplit ▸ List.mem_append_left _ hc)
      have htrim : trim front = [] := Spacing.trimmed_blank hfrontBlank
      rw [htrim, speedEntry_nil]
    have hcount : pre.count 0x20 = behind.count 0x20 + 1 := by
      rw [hsplit, List.count_append, List.count_eq_zero_of_not_mem hfront, List.count_cons_self]
      omega
    refine ⟨left, hleft, hnone, ?_⟩
    rw [hcount, hsplit, List.append_assoc, List.cons_append, speedEntryValue_loop_space hfront, hempty]
    dsimp only
    rw [hloop, List.replicate_succ, List.append_assoc]
    rfl
  · refine ⟨pre, hpre, hspace, ?_⟩
    rw [List.count_eq_zero_of_not_mem hspace, List.replicate_zero, List.append_nil]
termination_by pre.length

theorem Pair.trim_head {head pre front : Bytes} (hhead : Spacing.Solid isspace head) (hpre : Spacing.Blank isspace pre)
    (hfront : Spacing.Blank isspace front) : trim (pre ++ (head ++ front)) = head :=
  Spacing.trimmed_solid hpre hhead hfront

/-- What the loop makes of a list from a pair on, or from some pairs without a space between them. -/
theorem speedEntryValue_loop_reads {x : Pair} {joined : Bool} {head : Bytes} (hhead : Head x joined head)
    (hsolid : Spacing.Solid isspace head) (hspace : 0x20 ∉ head) {pre : Bytes} (hpre : Spacing.Blank isspace pre)
    (hnone : 0x20 ∉ pre) {rest : List (Bytes × Pair)} (hrest : ∀ w ∈ rest, w.1 ≠ [] ∧ Spacing.Blank isspace w.1)
    (entries : List SpeedEntry) :
    ((joined = true → x.percent_sign = true) → Closes (!x.percent_sign) rest →
      speedEntryValue_loop (pre ++ (head ++ Spacing.row Pair.text rest)) entries =
        entries ++ x.value :: Spacing.filled no_entry (marked rest)) ∧
    ((joined = true ∧ x.percent_sign = false) ∨ ¬Closes (!x.percent_sign) rest →
      speedEntryValue_loop (pre ++ (head ++ Spacing.row Pair.text rest)) entries = []) := by
  induction rest generalizing x joined head pre entries with
  | nil =>
    have habsent : 0x20 ∉ pre ++ head := fun h => (List.mem_append.mp h).elim hnone hspace
    have hwhole := Spacing.takeWhile_absent habsent []
    have hleft := Spacing.dropWhile_absent habsent []
    rw [List.append_nil, List.takeWhile_nil, List.append_nil] at hwhole
    rw [List.append_nil, List.dropWhile_nil] at hleft
    have htrim := Pair.trim_head hsolid hpre Spacing.blank_nil
    rw [List.append_nil] at htrim
    have hloop : speedEntryValue_loop (pre ++ (head ++ Spacing.row Pair.text [])) entries =
        match speedEntry head with
        | none => []
        | some entry => entries ++ [entry] := by
      rw [Spacing.row, List.flatMap_nil, List.append_nil, speedEntryValue_loop, if_neg (by simp [hsolid.ne_nil]),
        hwhole,
        hleft, htrim, List.tail_nil]
      cases speedEntry head with
      | none => rfl
      | some entry =>
        dsimp only
        rw [speedEntryValue_loop, if_pos rfl]
    rw [hloop, hhead.reads]
    refine ⟨fun hclosed _ => ?_, fun hfails => ?_⟩
    · rw [if_neg (fun h => by rw [hclosed h.1] at h; exact Bool.noConfusion h.2)]
      rfl
    · rw [if_pos (hfails.resolve_right (fun h => h trivial))]
  | cons w rest ih =>
    obtain ⟨gap, y⟩ := w
    obtain ⟨hne, hgap⟩ := hrest (gap, y) List.mem_cons_self
    have hlater : ∀ w ∈ rest, w.1 ≠ [] ∧ Spacing.Blank isspace w.1 := fun w hw => hrest w (List.mem_cons_of_mem _ hw)
    by_cases hmark : 0x20 ∈ gap
    · obtain ⟨front, left, hsplit, hfront⟩ := List.eq_append_cons_of_mem hmark
      have hrow : pre ++ (head ++ Spacing.row Pair.text ((gap, y) :: rest)) =
          (pre ++ (head ++ front)) ++ 0x20 :: (left ++ (y.text ++ Spacing.row Pair.text rest)) := by
        rw [Spacing.row_cons, hsplit]
        simp only [List.append_assoc, List.cons_append]
      have habsent : 0x20 ∉ pre ++ (head ++ front) := by
        simp only [List.mem_append, not_or]
        exact ⟨hnone, hspace, hfront⟩
      have hfrontBlank : Spacing.Blank isspace front := fun c hc => hgap c (hsplit ▸ List.mem_append_left _ hc)
      have hleftBlank : Spacing.Blank isspace left :=
        fun c hc => hgap c (hsplit ▸ List.mem_append_right _ (List.mem_cons_of_mem _ hc))
      have hcount : gap.count 0x20 = left.count 0x20 + 1 := by
        rw [hsplit, List.count_append, List.count_eq_zero_of_not_mem hfront, List.count_cons_self]
        omega
      obtain ⟨pre', hpre', hnone', hblank⟩ := speedEntryValue_loop_blank hleftBlank
        (y.text ++ Spacing.row Pair.text rest) (entries ++ [x.value])
      obtain ⟨hreads, hfails⟩ := ih Head.alone y.solid y.space_notMem hpre' hnone' hlater
        (entries ++ [x.value] ++ List.replicate (left.count 0x20) no_entry)
      rw [hrow, speedEntryValue_loop_space habsent, Pair.trim_head hsolid hpre hfrontBlank, hhead.reads, Closes,
        if_pos hmark]
      refine ⟨fun hclosed hcloses => ?_, fun hbad => ?_⟩
      · rw [if_neg (fun h => by rw [hclosed h.1] at h; exact Bool.noConfusion h.2)]
        dsimp only
        rw [hblank, hreads (fun h => Bool.noConfusion h) hcloses, marked_cons, hcount, Spacing.filled]
        simp only [List.append_assoc, List.cons_append, List.nil_append]
      · split_ifs with hopen
        · rfl
        · dsimp only
          rw [hblank, hfails (.inr (hbad.resolve_left hopen))]
    · have hrow : pre ++ (head ++ Spacing.row Pair.text ((gap, y) :: rest)) =
          pre ++ ((head ++ (gap ++ y.text)) ++ Spacing.row Pair.text rest) := by
        rw [Spacing.row_cons]
        simp only [List.append_assoc]
      have habsent : 0x20 ∉ head ++ (gap ++ y.text) := by
        simp only [List.mem_append, not_or]
        exact ⟨hspace, hmark, y.space_notMem⟩
      obtain ⟨hreads, hfails⟩ :=
        ih (hhead.extend hne hgap) (hsolid.append gap y.solid) habsent hpre hnone hlater entries
      rw [hrow, Closes, if_neg hmark]
      refine ⟨fun hclosed hcloses => ?_, fun hbad => ?_⟩
      · have hsign : x.percent_sign = true := by simpa using hcloses.1
        rw [hreads (fun _ => hsign) hcloses.2, marked_cons, List.count_eq_zero_of_not_mem hmark, Spacing.filled]
      · refine hfails ?_
        rcases hbad with hopen | hcloses
        · exact .inl ⟨rfl, hopen.2⟩
        · cases hsign : x.percent_sign with
          | false => exact .inl ⟨rfl, rfl⟩
          | true =>
            rw [hsign] at hcloses
            exact .inr fun h => hcloses ⟨rfl, h⟩

/-- The pairs are read as they are written: every gap has one space in it, or the spaces make up for each other among
pairs that read as nothing does, and what is left out stands behind a percent sign. -/
structure SpeedsApart (words : List (Bytes × Pair)) : Prop where
  closes : ∀ w ∈ words.head?, Closes (!w.2.percent_sign) words.tail
  balanced : Spacing.Balanced no_entry 0 (marked words.tail)

theorem speedEntryValue_reads_iff (row : Row Pair) :
    speedEntryValue (row.text Pair.text) = row.words.map (·.2.value) ↔ SpeedsApart row.words := by
  obtain ⟨words, trail, hblank, htrail, hapart⟩ := row
  unfold speedEntryValue Row.text
  cases words with
  | nil =>
    have htrim : trim (Spacing.row Pair.text [] ++ trail) = [] := Spacing.trimmed_blank htrail
    dsimp only
    rw [htrim, speedEntryValue_loop, if_pos rfl]
    exact iff_of_true rfl ⟨fun w hw => absurd hw (by simp), rfl⟩
  | cons w words =>
    obtain ⟨lead, x⟩ := w
    have hwords : ∀ w ∈ words, w.1 ≠ [] ∧ Spacing.Blank isspace w.1 :=
      fun w hw => ⟨hapart w hw, hblank w (List.mem_cons_of_mem _ hw)⟩
    have hlead : Spacing.Blank isspace lead := hblank (lead, x) List.mem_cons_self
    have hsolid : Spacing.Solid isspace (x.text ++ Spacing.row Pair.text words) :=
      Spacing.solid_row x.solid fun w _ => w.2.solid
    have htrim : trim (Spacing.row Pair.text ((lead, x) :: words) ++ trail) = x.text ++
        Spacing.row Pair.text words := by
      rw [Spacing.row_cons, List.append_assoc]
      exact Spacing.trimmed_solid hlead hsolid htrail
    obtain ⟨hreads, hfails⟩ := speedEntryValue_loop_reads Head.alone x.solid x.space_notMem Spacing.blank_nil
      List.not_mem_nil hwords []
    rw [List.nil_append, List.nil_append] at hreads
    rw [List.nil_append] at hfails
    have hvalues : words.map (·.2.value) = (marked words).map Prod.snd := by
      rw [marked, List.map_map]
      rfl
    dsimp only
    rw [htrim, List.map_cons, hvalues]
    by_cases hcloses : Closes (!x.percent_sign) words
    · rw [hreads (fun h => Bool.noConfusion h) hcloses, List.cons.injEq, Spacing.filled_eq_iff]
      refine ⟨fun h => ⟨fun w hw => ?_, h.2⟩, fun h => ⟨rfl, h.balanced⟩⟩
      rw [← Option.some.inj hw]
      exact hcloses
    · rw [hfails (.inr hcloses)]
      exact iff_of_false (List.cons_ne_nil _ _).symm fun h => hcloses (h.closes _ rfl)

end SpeedMap

/-- Lists of numbers and of speeds are read as they are written exactly if their gaps keep what is written apart. -/
theorem list_values_iff (numbers : Row Number) (pairs : Row Pair) :
    (floatArray (numbers.text Number.text) = numbers.words.map (·.2.value) ↔ FloatsApart numbers.words) ∧
    (speedEntryValue (pairs.text Pair.text) = pairs.words.map (·.2.value) ↔ SpeedsApart pairs.words) :=
  ⟨floatArray_reads_iff numbers, speedEntryValue_reads_iff pairs⟩

/-- The number `1`. -/
def one : Number where
  text := bytes "1"
  value := (is_float (bytes "1")).get (by decide +kernel)
  ne_nil := by decide
  plain := by decide +kernel
  reads := (Option.some_get _).symm

/-- The pair `1=1%`. -/
def one_percent : Pair where
  speed_text := bytes "1"
  percent_text := bytes "1"
  percent_sign := true
  value := ⟨1, one.value⟩
  speed_ne_nil := by decide
  speed_plain := by decide +kernel
  speed_reads := by decide
  percent_ne_nil := one.ne_nil
  percent_plain := one.plain
  percent_reads := one.reads

/-- Of two numbers that are the same the last is lost, and a second space is read as an entry. -/
theorem repeated_number_is_lost :
    floatArray (bytes "1 1") ≠ [one.value, one.value] ∧
    speedEntryValue (bytes "1=1%  1=1%") ≠ [one_percent.value, one_percent.value] ∧
    ¬((∀ row : Row Number, floatArray (row.text Number.text) = row.words.map (·.2.value)) ∧
      ∀ row : Row Pair, speedEntryValue (row.text Pair.text) = row.words.map (·.2.value)) := by
  let numbers : Row Number := ⟨[([], one), ([0x20], one)], [], by decide, by decide, by decide⟩
  let pairs : Row Pair := ⟨[([], one_percent), ([0x20, 0x20], one_percent)], [], by decide, by decide, by decide⟩
  have hnumbers : floatArray (numbers.text Number.text) ≠ numbers.words.map (·.2.value) :=
    fun h => ((floatArray_reads_iff numbers).mp h).repeated [] ([], one) ([0x20], one) rfl rfl rfl
  have hpairs : speedEntryValue (pairs.text Pair.text) ≠ pairs.words.map (·.2.value) :=
    fun h => absurd ((speedEntryValue_reads_iff pairs).mp h).balanced.2 (by simp [Spacing.Balanced])
  exact ⟨hnumbers, hpairs, fun h => hnumbers (h.1 numbers)⟩

end DuneWeaver.Configuration.Parser
