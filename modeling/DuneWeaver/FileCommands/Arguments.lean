import DuneWeaver.Configuration.Numerals
import DuneWeaver.InputFile.ReadLine

open DuneWeaver.Configuration (string_util.is_uint)

namespace DuneWeaver.FileCommands

section Views

/-- `substr`, which throws where it begins behind the end of the text. -/
def substr (s : Bytes) (pos n : Nat) : Option Bytes := if pos ≤ s.length then some ((s.drop pos).take n) else none

/-- `string_util::split`: whether `delim` is there, and what stands in front of it and behind it. -/
def split (input : Bytes) (delim : UInt8) : Option (Bool × Bytes × Bytes) :=
  match input.findIdx? (· = delim) with
  | none => some (false, input, [])
  | some pos => do
    let next ← substr input (pos + 1) input.length
    let input ← substr input 0 pos
    some (true, input, next)

/-- `string_util::split_prefix`: the rest and the prefix, which stay as they are where the rest is empty. -/
def split_prefix (rest before : Bytes) (delim : UInt8) : Option (Bytes × Bytes) :=
  if rest = [] then some (rest, before)
  else
    match rest.findIdx? (· = delim) with
    | none => some ([], rest)
    | some pos => do
      let before ← substr rest 0 pos
      let rest ← substr rest (pos + 1) rest.length
      some (rest, before)

/-- `find`: where `search` begins first. -/
def find (search : Bytes) : Bytes → Option Nat
  | [] => if search = [] then some 0 else none
  | c :: rest => if search <+: c :: rest then some 0 else (find search rest).map (· + 1)

theorem find_some {search subject : Bytes} {i : Nat} (h : find search subject = some i) :
    ∃ front behind, subject = front ++ (search ++ behind) ∧ front.length = i := by
  induction subject generalizing i with
  | nil =>
    rw [find] at h
    split_ifs at h with hsearch
    refine ⟨[], [], by rw [hsearch]; rfl, ?_⟩
    exact Option.some.inj h
  | cons c rest ih =>
    rw [find] at h
    split_ifs at h with hbegins
    · obtain ⟨behind, hbehind⟩ := hbegins
      exact ⟨[], behind, hbehind.symm, Option.some.inj h⟩
    · obtain ⟨j, hj, rfl⟩ := Option.map_eq_some_iff.mp h
      obtain ⟨front, behind, rfl, rfl⟩ := ih hj
      exact ⟨c :: front, behind, rfl, rfl⟩

/-- The loop of `replace_string_in_place`. Nobody searches for the empty text. -/
def replace_loop (search : { s : Bytes // s ≠ [] }) (replace subject : Bytes) (pos : Nat) : Bytes :=
  match _h : find search (subject.drop pos) with
  | none => subject
  | some i =>
    replace_loop search replace
      (subject.take (pos + i) ++ (replace ++ subject.drop (pos + i + search.1.length))) (pos + i + replace.length)
termination_by subject.length - pos
decreasing_by
  obtain ⟨front, behind, hsplit, hlength⟩ := find_some _h
  have hsearch := List.length_pos_of_ne_nil search.2
  have hlengths := congrArg List.length hsplit
  simp only [List.length_append, List.length_drop, List.length_take] at hlengths ⊢
  omega

def replace_string_in_place (subject : Bytes) (search : { s : Bytes // s ≠ [] }) (replace : Bytes) : Bytes :=
  replace_loop search replace subject 0

end Views

/-- `renameObject`. A null pointer does not point to anything, and the character behind a string is its end. -/
def renameObject (rename : Bytes → Bytes → Error) : Option Bytes → Option Error
  | none => some .InvalidValue
  | some ipath =>
    if ipath = [] then some .InvalidValue
    else
      (ipath.findIdx? (· = 0x3e)).bind fun opath =>
        if opath = ipath.length then some .InvalidValue
        else some (rename (ipath.take opath) (ipath.drop (opath + 1)))

def slashes : { s : Bytes // s ≠ [] } := ⟨bytes "//", by decide⟩

/-- The path of a request to `handleFileOps`. An empty string has no last character, but every string has one behind
its last. -/
def handleFileOps_path : Option Bytes → Option Bytes
  | none => some []
  | some arg =>
    let path := replace_string_in_place arg slashes (bytes "/")
    path[path.length - 1]?.bind fun last =>
      (if last = 0x2f then substr path 0 (path.length - 1) else some path).bind fun path =>
        if path.length &&& (if path.headD 0 = 0x2f then 1 else 0) ≠ 0 then substr path 1 path.length else some path

section ShowSome

/-- `openFile`, for a file system whose files open or do not. -/
def openFile (opens : Bytes → Except Error InputFile) (parameter : Bytes) : Except Error InputFile :=
  if parameter = [] then .error .InvalidValue
  else opens (if parameter.head? ≠ some 0x2f then 0x2f :: parameter else parameter)

/-- The loop of `fileShowSome`, with the turns that it has left: the result of the last read, if any was made, and the
lines. -/
def show_loop (firstline : Int32) : Nat → Int → Bytes → InputFile → Option Error → List Bytes →
    Option (Option Error × List Bytes)
  | 0, _, _, _, res, file_lines => some (res, file_lines)
  | turns + 1, linenum, fileLine, theFile, _, file_lines =>
    (theFile.readLine 255 fileLine).bind fun (res, fileLine, theFile) =>
      if res = .Ok then
        show_loop firstline turns (linenum + 1) fileLine theFile (some res)
          (if linenum ≥ firstline.toInt then file_lines ++ [c_str fileLine] else file_lines)
      else some (some res, file_lines)

/-- What `fileShowSome` answers. -/
inductive ShowSome where
  | refused (err : Error) (message : Bytes)
  | shown (file_lines : List Bytes) (error : Bytes) (path : Bytes) (firstline : Int32)

structure Files where
  opens : Bytes → Except Error InputFile
  errorString : Error → Bytes
  fileLine : { line : Bytes // line.length = 255 }

/-- The lines that are asked for: a number of them, or the first one and the last one. -/
def line_numbers (line_range : Bytes) : Option (Int32 × Int32) := do
  let (line_range, first) ← split_prefix line_range [] 0x3a
  if line_range = [] then some (0, (from_chars first).getD 0)
  else some ((from_chars first).getD 0, (from_chars line_range).getD 0)

def fileShowSome (f : Files) (state : State) (parameter : Option Bytes) : Option ShowSome :=
  if notIdleOrAlarm state then some (.refused .IdleError [])
  else if parameter.getD [] = [] then some (.refused .InvalidValue (bytes "Missing argument"))
  else do
    let (args, line_range) ← split_prefix (parameter.getD []) [] 0x2c
    if line_range = [] ∨ args = [] then some (.refused .InvalidValue (bytes "Invalid syntax"))
    else
      let (firstline, lastline) ← line_numbers line_range
      if lastline < firstline then some (.refused .InvalidValue (bytes "Last line is less than first line"))
      else
        match openFile f.opens args with
        | .error _ => some (.shown [] (bytes "Cannot open file") args firstline)
        | .ok theFile => do
          let (res, file_lines) ← show_loop firstline lastline.toInt.toNat 0 f.fileLine theFile none []
          -- a variable that was not set is not there
          let res ← res
          some (.shown file_lines (if res ≠ .Eof ∧ res ≠ .Ok then f.errorString res else []) args firstline)

end ShowSome

/-- `listFilesystemJSON`. A number that is read may be followed by what is behind its view in the string. -/
def listFilesystemJSON (list : Bytes → UInt32 → UInt32 → Bool → Error) (value : Option Bytes) : Option Error := do
  let (paged, path, pageArgs) ← split (value.getD []) 0x7c
  if paged then
    let (limited, pageArgs, limitArg) ← split pageArgs 0x7c
    match if pageArgs = [] then some 0 else string_util.is_uint pageArgs (if limited then 0x7c :: limitArg else []) with
    | none => some .InvalidValue
    | some offset =>
      match if limitArg = [] then some 0xffffffff else string_util.is_uint limitArg [] with
      | none => some .InvalidValue
      | some limit => some (list path offset limit paged)
  else some (list path 0 0xffffffff paged)

section Paths

variable {text rest : Bytes}

/-- A text with every two slashes side by side made one. -/
def joined : Bytes → Bytes
  | [] => []
  | [c] => [c]
  | c :: d :: rest => if c = 0x2f ∧ d = 0x2f then 0x2f :: joined rest else c :: joined (d :: rest)

theorem joined_cons_of_not {c : UInt8} (h : ¬bytes "//" <+: c :: rest) : joined (c :: rest) = c :: joined rest := by
  cases rest with
  | nil => rfl
  | cons d rest =>
    rw [joined, if_neg]
    rintro ⟨rfl, rfl⟩
    exact h ⟨rest, rfl⟩

theorem joined_of_find_none (h : find (bytes "//") text = none) : joined text = text := by
  induction text with
  | nil => rfl
  | cons c rest ih =>
    rw [find] at h
    split_ifs at h with hbegins
    rw [joined_cons_of_not hbegins, ih (Option.map_eq_none_iff.mp h)]

theorem joined_of_find_some {i : Nat} (h : find (bytes "//") text = some i) :
    joined text = text.take i ++ 0x2f :: joined (text.drop (i + 2)) := by
  induction text generalizing i with
  | nil => cases h
  | cons c rest ih =>
    rw [find] at h
    split_ifs at h with hbegins
    · obtain ⟨behind, hbehind⟩ := hbegins
      have htext : c :: rest = 0x2f :: 0x2f :: behind := hbehind.symm
      rw [htext, ← Option.some.inj h, joined, if_pos ⟨rfl, rfl⟩]
      rfl
    · obtain ⟨j, hj, rfl⟩ := Option.map_eq_some_iff.mp h
      rw [joined_cons_of_not hbegins, ih hj]
      rfl

/-- The loop has joined what is in front of its position. -/
theorem replace_loop_slashes (subject : Bytes) (pos : Nat) (hpos : pos ≤ subject.length) :
    replace_loop slashes (bytes "/") subject pos = subject.take pos ++ joined (subject.drop pos) := by
  induction hleft : subject.length - pos using Nat.strong_induction_on generalizing subject pos with
  | _ left ih =>
    rw [replace_loop.eq_def]
    split
    next hnone => rw [joined_of_find_none hnone, List.take_append_drop]
    next i hsome =>
      obtain ⟨front, behind, hsplit, hlength⟩ := find_some hsome
      have hlengths := congrArg List.length hsplit
      have htwo : slashes.1.length = 2 := rfl
      have hone : (bytes "/").length = 1 := rfl
      simp only [List.length_append, List.length_drop, htwo] at hlengths
      have hfront : (subject.take (pos + i)).length = pos + i := List.length_take_of_le (by omega)
      rw [htwo, hone, joined_of_find_some hsome, ih _ ?_ _ _ ?_ rfl]
      · have htake : (subject.take (pos + i) ++ (bytes "/" ++ subject.drop (pos + i + 2))).take (pos + i + 1) =
            subject.take (pos + i) ++ bytes "/" := by
          rw [← List.append_assoc]
          apply List.take_left'
          rw [List.length_append, hfront, hone]
        have hdrop : (subject.take (pos + i) ++ (bytes "/" ++ subject.drop (pos + i + 2))).drop (pos + i + 1) =
            subject.drop (pos + i + 2) := by
          rw [← List.append_assoc]
          apply List.drop_left'
          rw [List.length_append, hfront, hone]
        rw [htake, hdrop, List.drop_drop, List.take_add, List.append_assoc, List.append_assoc, Nat.add_assoc]
        rfl
      · simp only [List.length_append, List.length_drop, hfront, hone]
        omega
      · simp only [List.length_append, List.length_drop, hfront, hone]
        omega

theorem replace_slashes (text : Bytes) : replace_string_in_place text slashes (bytes "/") = joined text := by
  rw [replace_string_in_place, replace_loop_slashes text 0 (Nat.zero_le _)]
  rfl

theorem joined_ne_nil (hne : text ≠ []) : joined text ≠ [] := by
  cases text with
  | nil => exact absurd rfl hne
  | cons c rest =>
    cases rest with
    | nil => exact List.cons_ne_nil _ _
    | cons d rest =>
      rw [joined]
      split_ifs
      · exact List.cons_ne_nil _ _
      · exact List.cons_ne_nil _ _

/-- A path without the slash at its end. -/
def unslashed (path : Bytes) : Bytes := if path.getLast? = some 0x2f then path.dropLast else path

/-- A path that is one slash, or has none at its end and either none in front or exactly one, of an odd length. -/
def Cleans (path : Bytes) : Prop :=
  path = bytes "/" ∨ path.getLast? ≠ some 0x2f ∧
    (path.head? ≠ some 0x2f ∨ path.tail.head? ≠ some 0x2f ∧ path.length % 2 = 1)

theorem substr_whole {s : Bytes} {pos n : Nat} (hpos : pos ≤ s.length) (hn : s.length ≤ pos + n) :
    substr s pos n = some (s.drop pos) := by
  rw [substr, if_pos hpos, List.take_of_length_le]
  rw [List.length_drop]
  omega

theorem handleFileOps_path_nil : handleFileOps_path (some []) = none := by
  rw [handleFileOps_path, replace_slashes]
  rfl

/-- The slash in front is taken off a path of an odd length. -/
theorem handleFileOps_path_eq (hne : text ≠ []) :
    handleFileOps_path (some text) =
      some (if (unslashed (joined text)).length % 2 = 1 ∧ (unslashed (joined text)).head? = some 0x2f
        then (unslashed (joined text)).tail else unslashed (joined text)) := by
  have hjoined := joined_ne_nil hne
  have hlast : (joined text)[(joined text).length - 1]? = some ((joined text).getLast hjoined) := by
    rw [← List.getLast?_eq_getElem?, List.getLast?_eq_some_getLast hjoined]
  have hpath : (if (joined text).getLast hjoined = 0x2f then substr (joined text) 0 ((joined text).length - 1)
      else some (joined text)) = some (unslashed (joined text)) := by
    unfold unslashed
    rw [List.getLast?_eq_some_getLast hjoined]
    by_cases hslash : (joined text).getLast hjoined = 0x2f
    · rw [if_pos hslash, if_pos (congrArg some hslash), substr, if_pos (Nat.zero_le _), List.drop_zero,
        List.dropLast_eq_take]
    · rw [if_neg hslash, if_neg fun h => hslash (Option.some.inj h)]
  rw [handleFileOps_path, replace_slashes]
  simp only [hlast, Option.bind_some, hpath]
  generalize unslashed (joined text) = path
  cases path with
  | nil => rfl
  | cons c rest =>
    by_cases hc : c = 0x2f
    · rw [List.headD_cons, if_pos hc, Nat.and_one_is_mod, List.head?_cons, hc]
      by_cases hodd : (0x2f :: rest : Bytes).length % 2 = 1
      · rw [if_pos (by omega), if_pos ⟨hodd, rfl⟩, substr_whole (by rw [List.length_cons]; omega) (by omega)]
        rfl
      · rw [if_neg (by omega), if_neg fun h => hodd h.1]
    · rw [List.headD_cons, if_neg hc, Nat.and_zero, if_neg (by simp), List.head?_cons,
        if_neg fun h => hc (Option.some.inj h.2)]

/-- What is left has no slash at either end exactly where one was not too many for what is taken off. -/
theorem cleans_iff (path : Bytes) :
    ((if path.length % 2 = 1 ∧ path.head? = some 0x2f then path.tail else path).head? ≠ some 0x2f ∧
      (if path.length % 2 = 1 ∧ path.head? = some 0x2f then path.tail else path).getLast? ≠ some 0x2f) ↔
      Cleans path := by
  unfold Cleans
  cases path with
  | nil => simp
  | cons c rest =>
    by_cases hc : c = 0x2f
    · subst hc
      by_cases hodd : (0x2f :: rest : Bytes).length % 2 = 1
      · rw [if_pos ⟨hodd, rfl⟩, List.tail_cons]
        cases rest with
        | nil => simp [bytes]
        | cons d rest =>
          have hlast : (0x2f :: d :: rest : Bytes).getLast? = (d :: rest).getLast? := List.getLast?_cons_cons
          rw [hlast]
          have hne : (0x2f :: d :: rest : Bytes) ≠ bytes "/" := by
            intro heq
            exact absurd (congrArg List.length heq) (by simp [bytes])
          simp only [hne, hodd, and_true, false_or, List.head?_cons, ne_eq, not_true_eq_false]
          exact and_comm
      · rw [if_neg fun h => hodd h.1]
        have hne : (0x2f :: rest : Bytes) ≠ bytes "/" := by
          intro heq
          rw [heq] at hodd
          exact hodd rfl
        simp only [hne, hodd, List.head?_cons, ne_eq, not_true_eq_false, false_and, and_false, or_self]
    · have hhead : (c :: rest).head? ≠ some 0x2f := fun h => hc (Option.some.inj h)
      have hne : c :: rest ≠ bytes "/" := fun heq => hc (List.cons.inj heq).1
      rw [if_neg fun h => hhead h.2]
      simp only [hne, hhead, not_false_eq_true, ne_eq, true_and, true_or, and_true, false_or]

/-- `handleFileOps` cleans the path of a request, and does not look for a character that is not there. -/
theorem handleFileOps_path_iff (arg : Option Bytes) :
    (∃ path, handleFileOps_path arg = some path ∧ path.head? ≠ some 0x2f ∧ path.getLast? ≠ some 0x2f) ↔
      ∀ text, arg = some text → text ≠ [] ∧ Cleans (unslashed (joined text)) := by
  cases arg with
  | none => exact iff_of_true ⟨[], rfl, by simp, by simp⟩ (by simp)
  | some text =>
    simp only [Option.some.injEq, forall_eq']
    by_cases hne : text = []
    · subst hne
      rw [handleFileOps_path_nil]
      simp
    · simp only [handleFileOps_path_eq hne, Option.some.injEq, exists_eq_left', cleans_iff, ne_eq, hne,
        not_false_eq_true, true_and]

end Paths

section Splitting

variable {front behind rest : Bytes} {delim : UInt8}

theorem findIdx_mark (hfront : delim ∉ front) (behind : Bytes) :
    (front ++ delim :: behind).findIdx? (· = delim) = some front.length := by
  induction front with
  | nil => rw [List.nil_append, List.findIdx?_cons, decide_eq_true rfl]; rfl
  | cons c front ih =>
    have hc : c ≠ delim := fun heq => hfront (heq ▸ List.mem_cons_self)
    rw [List.cons_append, List.findIdx?_cons, decide_eq_false hc, ih fun hmem => hfront (List.mem_cons_of_mem c hmem)]
    rfl

theorem findIdx_absent (habsent : delim ∉ rest) : rest.findIdx? (· = delim) = none := by
  rw [List.findIdx?_eq_none_iff]
  intro c hc
  exact decide_eq_false fun heq => habsent (heq ▸ hc)

/-- There is one way to cut a text at the first of a character. -/
theorem cut_unique {front' behind' : Bytes} (hfront : delim ∉ front) (hfront' : delim ∉ front')
    (heq : front ++ delim :: behind = front' ++ delim :: behind') : front = front' ∧ behind = behind' := by
  have hlength := findIdx_mark hfront behind
  rw [heq, findIdx_mark hfront'] at hlength
  obtain ⟨rfl, hbehind⟩ := List.append_inj heq (Option.some.inj hlength).symm
  exact ⟨rfl, (List.cons.inj hbehind).2⟩

theorem substr_front (front behind : Bytes) : substr (front ++ behind) 0 front.length = some front := by
  rw [substr, if_pos (Nat.zero_le _), List.drop_zero, List.take_left]

theorem substr_behind (front behind : Bytes) :
    substr (front ++ delim :: behind) (front.length + 1) (front ++ delim :: behind).length = some behind := by
  rw [substr_whole (by rw [List.length_append, List.length_cons]; omega) (by omega), ← List.drop_drop, List.drop_left]
  rfl

theorem split_prefix_mark (hfront : delim ∉ front) (before : Bytes) :
    split_prefix (front ++ delim :: behind) before delim = some (behind, front) := by
  rw [ split_prefix, if_neg (by simp), findIdx_mark hfront]
  simp only [Option.bind_eq_bind, substr_front, substr_behind, Option.bind_some]

theorem split_prefix_absent (hne : rest ≠ []) (habsent : delim ∉ rest) (before : Bytes) :
    split_prefix rest before delim = some ([], rest) := by
  rw [ split_prefix, if_neg hne, findIdx_absent habsent]

theorem split_isSome (input : Bytes) (delim : UInt8) : (split input delim).isSome := by
  by_cases hmem : delim ∈ input
  · obtain ⟨front, behind, rfl, hfront⟩ := List.eq_append_cons_of_mem hmem
    rw [split, findIdx_mark hfront]
    simp only [Option.bind_eq_bind, substr_front, substr_behind, Option.bind_some, Option.isSome_some]
  · rw [split, findIdx_absent hmem]
    rfl

end Splitting

/-- `renameObject` has a place to look at exactly where there is a `>`, or nothing at all. -/
theorem renameObject_iff (rename : Bytes → Bytes → Error) (parameter : Option Bytes) :
    (renameObject rename parameter).isSome ↔ ∀ ipath, parameter = some ipath → ipath = [] ∨ 0x3e ∈ ipath := by
  cases parameter with
  | none => exact iff_of_true rfl (by simp)
  | some ipath =>
    simp only [Option.some.injEq, forall_eq']
    rw [renameObject]
    by_cases hne : ipath = []
    · rw [if_pos hne]
      exact iff_of_true rfl (.inl hne)
    · rw [if_neg hne]
      by_cases hmem : 0x3e ∈ ipath
      · obtain ⟨front, behind, rfl, hfront⟩ := List.eq_append_cons_of_mem hmem
        rw [findIdx_mark hfront, Option.bind_some]
        refine iff_of_true ?_ (.inr hmem)
        split_ifs
        · rfl
        · rfl
      · rw [findIdx_absent hmem]
        exact iff_of_false (by simp) (by simp [hne, hmem])

section ShowSome

variable {f : Files} {state : State} {line_range fn : Bytes}

/-- The lines that a range asks for: the first so many of them, or from one to another. What is no number is 0. -/
def asked (line_range : Bytes) : Int32 × Int32 :=
  let first := (from_chars (line_range.takeWhile (· ≠ 0x3a))).getD 0
  let last := (line_range.dropWhile (· ≠ 0x3a)).tail
  if last = [] then (0, first) else (first, (from_chars last).getD 0)

theorem line_numbers_eq (line_range : Bytes) : line_numbers line_range = some (asked line_range) := by
  by_cases hmem : 0x3a ∈ line_range
  · obtain ⟨front, behind, rfl, hfront⟩ := List.eq_append_cons_of_mem hmem
    have hall : ∀ c ∈ front, decide (c ≠ 0x3a) = true := fun c hc => decide_eq_true fun heq => hfront (heq ▸ hc)
    rw [line_numbers, split_prefix_mark hfront, asked, List.takeWhile_append_of_pos hall,
      List.dropWhile_append_of_pos hall, List.takeWhile_cons_of_neg (by simp), List.dropWhile_cons_of_neg (by simp),
      List.append_nil, List.tail_cons]
    by_cases hlast : behind = []
    · simp [hlast]
    · simp [hlast]
  · have hall : ∀ c ∈ line_range, decide (c ≠ 0x3a) = true := fun c hc => decide_eq_true fun heq => hmem (heq ▸ hc)
    have hsplit : split_prefix line_range [] 0x3a = some ([], line_range) := by
      by_cases hne : line_range = []
      · subst hne
        rfl
      · exact split_prefix_absent hne hmem []
    rw [line_numbers, hsplit, asked, List.takeWhile_eq_self_iff.mpr hall, List.dropWhile_eq_nil_iff.mpr hall]
    rfl

/-- Every turn of the loop sets the result. -/
theorem show_loop_some (firstline : Int32) (turns : Nat) (linenum : Int) {fileLine : Bytes}
    (hline : fileLine.length = 255) (theFile : InputFile) (res : Option Error) (file_lines : List Bytes) :
    ∃ res' file_lines', show_loop firstline turns linenum fileLine theFile res file_lines = some (res', file_lines') ∧
      (res'.isSome ↔ res.isSome ∨ turns ≠ 0) := by
  induction turns generalizing linenum fileLine theFile res file_lines with
  | zero => exact ⟨res, file_lines, rfl, by simp⟩
  | succ turns ih =>
    obtain ⟨err, line', file', hread, hlength⟩ := InputFile.readLine_inside (by decide : 0 < 255) hline theFile
    rw [show_loop, hread, Option.bind_some]
    by_cases hok : err = .Ok
    · obtain ⟨res', file_lines', hloop, hset⟩ := ih (linenum + 1) hlength file' (some err)
        (if linenum ≥ firstline.toInt then file_lines ++ [c_str line'] else file_lines)
      refine ⟨res', file_lines', (if_pos hok).trans hloop, ?_⟩
      rw [hset]
      simp
    · exact ⟨some err, file_lines, if_neg hok, by simp⟩

/-- The file opens, and no line of it is read because the last line that is asked for is not a line. -/
def Unset (f : Files) (state : State) (parameter : Option Bytes) : Prop :=
  notIdleOrAlarm state = false ∧ ∃ line_range fn, parameter = some (line_range ++ 0x2c :: fn) ∧ 0x2c ∉ line_range ∧
    line_range ≠ [] ∧ fn ≠ [] ∧ (asked line_range).1 ≤ (asked line_range).2 ∧ (asked line_range).2 ≤ 0 ∧
    ∃ theFile, openFile f.opens fn = .ok theFile

theorem turns_zero {lastline : Int32} : lastline.toInt.toNat = 0 ↔ lastline ≤ 0 := by
  have hzero : (0 : Int32).toInt = 0 := rfl
  rw [Int32.le_iff_toInt_le, hzero, Int.toNat_eq_zero]

/-- What `fileShowSome` does with a range and a file name. -/
theorem fileShowSome_split (hidle : notIdleOrAlarm state = false) (hrange : 0x2c ∉ line_range) (hne : line_range ≠ [])
    (hfn : fn ≠ []) :
    (fileShowSome f state (some (line_range ++ 0x2c :: fn))).isSome ↔
      ¬((asked line_range).1 ≤ (asked line_range).2 ∧ (asked line_range).2 ≤ 0 ∧
        ∃ theFile, openFile f.opens fn = .ok theFile) := by
  have hparameter : line_range ++ 0x2c :: fn ≠ [] := by simp
  rw [fileShowSome, hidle, if_neg (by simp), Option.getD_some, if_neg hparameter, split_prefix_mark hrange,
    Option.bind_eq_bind, Option.bind_some]
  dsimp only
  rw [if_neg (by simp [hne, hfn]), line_numbers_eq, Option.bind_eq_bind, Option.bind_some]
  by_cases hless : (asked line_range).2 < (asked line_range).1
  · rw [if_pos hless]
    exact iff_of_true rfl fun h => absurd hless (Int32.not_lt.mpr h.1)
  · rw [if_neg hless]
    have hle := Int32.not_lt.mp hless
    cases hopen : openFile f.opens fn with
    | error err => exact iff_of_true rfl (by simp)
    | ok theFile =>
      obtain ⟨res, file_lines, hloop, hset⟩ := show_loop_some (asked line_range).1 (asked line_range).2.toInt.toNat 0
        f.fileLine.2 theFile none []
      dsimp only
      rw [hloop, Option.bind_eq_bind, Option.bind_some]
      dsimp only
      have hturns : res.isSome ↔ ¬(asked line_range).2 ≤ 0 := by
        rw [hset, ← turns_zero]
        simp
      cases res with
      | none =>
        have hnone : (asked line_range).2 ≤ 0 := not_not.mp fun h => by simpa using hturns.mpr h
        exact iff_of_false (by simp) fun h => h ⟨hle, hnone, theFile, rfl⟩
      | some err => exact iff_of_true rfl fun h => hturns.mp rfl h.2.1

theorem fileShowSome_iff (f : Files) (state : State) (parameter : Option Bytes) :
    (fileShowSome f state parameter).isSome ↔ ¬Unset f state parameter := by
  cases hidle : notIdleOrAlarm state with
  | true =>
    rw [fileShowSome, if_pos hidle]
    refine iff_of_true rfl fun h => ?_
    rw [h.1] at hidle
    cases hidle
  | false =>
    have hgiven : ∀ text, parameter = some text → text ≠ [] → ((fileShowSome f state parameter).isSome ↔
        ¬Unset f state parameter) := by
      rintro text rfl hne
      by_cases hmark : 0x2c ∈ text
      · obtain ⟨line_range, fn, rfl, hrange⟩ := List.eq_append_cons_of_mem hmark
        by_cases hempty : line_range = [] ∨ fn = []
        · rw [fileShowSome, hidle, if_neg (by simp), Option.getD_some, if_neg hne, split_prefix_mark hrange,
            Option.bind_eq_bind, Option.bind_some]
          dsimp only
          rw [if_pos hempty]
          refine iff_of_true rfl ?_
          rintro ⟨_, line_range', fn', heq, hrange', hne', hfn', _⟩
          obtain ⟨rfl, hbehind⟩ := cut_unique hrange hrange' (Option.some.inj heq)
          rcases hempty with hempty | hempty
          · exact hne' hempty
          · exact hfn' (hbehind ▸ hempty)
        · rw [not_or] at hempty
          rw [fileShowSome_split hidle hrange hempty.1 hempty.2, Unset]
          apply not_congr
          constructor
          · intro h
            exact ⟨hidle, line_range, fn, rfl, hrange, hempty.1, hempty.2, h⟩
          · rintro ⟨_, line_range', fn', heq, hrange', _, _, h⟩
            obtain ⟨rfl, rfl⟩ := cut_unique hrange hrange' (Option.some.inj heq)
            exact h
      · rw [fileShowSome, hidle, if_neg (by simp), Option.getD_some, if_neg hne, split_prefix_absent hne hmark,
          Option.bind_eq_bind, Option.bind_some]
        dsimp only
        rw [if_pos (.inr rfl)]
        refine iff_of_true rfl ?_
        rintro ⟨_, line_range, fn, heq, _⟩
        rw [Option.some.inj heq] at hmark
        exact hmark (List.mem_append_right _ List.mem_cons_self)
    have hmissing : parameter.getD [] = [] → ((fileShowSome f state parameter).isSome ↔ ¬Unset f state parameter) := by
      intro hnone
      rw [fileShowSome, hidle, if_neg (by simp), if_pos hnone]
      refine iff_of_true rfl ?_
      rintro ⟨_, line_range, fn, rfl, _⟩
      exact absurd hnone (by simp)
    cases parameter with
    | none => exact hmissing rfl
    | some text =>
      by_cases hne : text = []
      · exact hmissing hne
      · exact hgiven text rfl hne

end ShowSome

theorem listFilesystemJSON_isSome (list : Bytes → UInt32 → UInt32 → Bool → Error) (value : Option Bytes) :
    (listFilesystemJSON list value).isSome := by
  obtain ⟨⟨paged, path, pageArgs⟩, hsplit⟩ := Option.isSome_iff_exists.mp (split_isSome (value.getD []) 0x7c)
  obtain ⟨⟨limited, pageArg, limitArg⟩, hpage⟩ := Option.isSome_iff_exists.mp (split_isSome pageArgs 0x7c)
  rw [listFilesystemJSON, hsplit]
  simp only [Option.bind_eq_bind, Option.bind_some]
  cases paged with
  | false => rfl
  | true =>
    rw [hpage, if_pos rfl, Option.bind_some]
    dsimp only
    split
    · rfl
    · split
      · rfl
      · rfl

/-- Which of the four take their arguments apart without a place that is not there or a variable that was not set, and
with no slash left at the ends of a path. -/
theorem arguments_iff (rename : Bytes → Bytes → Error) (f : Files) (state : State)
    (list : Bytes → UInt32 → UInt32 → Bool → Error) (parameter : Option Bytes) :
    ((renameObject rename parameter).isSome ↔ ∀ ipath, parameter = some ipath → ipath = [] ∨ 0x3e ∈ ipath) ∧
    ((∃ path, handleFileOps_path parameter = some path ∧ path.head? ≠ some 0x2f ∧ path.getLast? ≠ some 0x2f) ↔
      ∀ text, parameter = some text → text ≠ [] ∧ Cleans (unslashed (joined text))) ∧
    ((fileShowSome f state parameter).isSome ↔ ¬Unset f state parameter) ∧
    (listFilesystemJSON list parameter).isSome :=
  ⟨renameObject_iff rename parameter, handleFileOps_path_iff parameter, fileShowSome_iff f state parameter,
    listFilesystemJSON_isSome list parameter⟩

/-- A card on which every file opens and is empty. -/
def emptyFiles : Files where
  opens _ := .ok { data := [] }
  errorString _ := []
  fileLine := ⟨List.replicate 255 0, List.length_replicate⟩

/-- A name without `>`, an empty path, a path of an even length with a slash in front, and no lines of a file. -/
theorem arguments_taken_wrong :
    renameObject (fun _ _ => .Ok) (some (bytes "old.txt")) = none ∧ handleFileOps_path (some []) = none ∧
      handleFileOps_path (some (bytes "/a")) = some (bytes "/a") ∧
      (fileShowSome emptyFiles .Idle (some (bytes "0,a.txt"))).isSome = false := by
  refine ⟨by decide, handleFileOps_path_nil, ?_, by decide⟩
  rw [handleFileOps_path_eq (by decide)]
  decide

end DuneWeaver.FileCommands
