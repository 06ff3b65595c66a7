import DuneWeaver.Json.Compact
import DuneWeaver.PlaylistParse
import DuneWeaver.SandStatus.Decodes

open CompactJson

namespace DuneWeaver

namespace PlaylistParse

/-- The words of a list of extensions. -/
def extensions (exts : Bytes) : List Bytes := (exts.splitOnP (· = 32)).filter (· ≠ [])

/-- The name ends in it ignoring case. -/
def EndsIn (name ext : Bytes) : Prop := ext.map tolower <:+ name.map tolower

instance (name ext : Bytes) : Decidable (EndsIn name ext) := inferInstanceAs (Decidable (_ <:+ _))

theorem extensions_blank (p : Bytes) : extensions (32 :: p) = extensions p := by
  rw [extensions, List.splitOnP_cons_eq_if_modifyHead, if_pos (by decide), List.filter_cons_of_neg (by decide),
    extensions]

theorem extensions_dropWhile (p : Bytes) : extensions (p.dropWhile (· = 32)) = extensions p := by
  induction p with
  | nil => rfl
  | cons c p ih =>
    by_cases hc : c = 32
    · rw [List.dropWhile_cons_of_pos (by simpa using hc), ih, hc, extensions_blank]
    · rw [List.dropWhile_cons_of_neg (by simpa using hc)]

/-- The first word is the one that the loop compares, and the loop goes on behind it. -/
theorem extensions_eq {p : Bytes} (hword : (p.dropWhile (· = 32)).takeWhile (· ≠ 32) ≠ []) :
    extensions p = (p.dropWhile (· = 32)).takeWhile (· ≠ 32) ::
      extensions ((p.dropWhile (· = 32)).dropWhile (· ≠ 32)) := by
  rw [← extensions_dropWhile p]
  generalize p.dropWhile (· = 32) = q at hword
  have hplain : ∀ c ∈ q.takeWhile (· ≠ 32), decide (c = 32) = false := by
    intro c hc
    simpa using List.mem_takeWhile_imp hc
  have hsplit : q = q.takeWhile (· ≠ 32) ++ q.dropWhile (· ≠ 32) := List.takeWhile_append_dropWhile.symm
  cases hrest : q.dropWhile (· ≠ 32) with
  | nil =>
    rw [hrest, List.append_nil] at hsplit
    conv_lhs => rw [hsplit]
    rw [extensions, List.splitOnP_eq_singleton hplain, List.filter_cons_of_pos (by simpa using hword)]
    rfl
  | cons c rest =>
    have hc : c = 32 := by
      have hhead := List.head_dropWhile_not (fun c : UInt8 => decide (c ≠ 32)) (l := q)
        (by rw [hrest]; exact List.cons_ne_nil _ _)
      simp only [hrest, List.head_cons, decide_eq_false_iff_not, not_not] at hhead
      exact hhead
    conv_lhs => rw [hsplit, hrest]
    rw [hc, extensions_blank, extensions,
      List.splitOnP_append_cons_of_forall_mem hplain 32 (by decide) rest,
      List.filter_cons_of_pos (by simpa using hword), extensions]

/-- A list that begins with no word has none. -/
theorem extensions_eq_nil {p : Bytes} (hword : (p.dropWhile (· = 32)).takeWhile (· ≠ 32) = []) :
    extensions p = [] ∧ (p.dropWhile (· = 32)).dropWhile (· ≠ 32) = [] := by
  have hnil : p.dropWhile (· = 32) = [] := by
    cases hrest : p.dropWhile (· = 32) with
    | nil => rfl
    | cons c rest =>
      have hhead := List.head_dropWhile_not (· = (32 : UInt8)) (l := p) (by rw [hrest]; exact List.cons_ne_nil _ _)
      have hc : ¬ c = 32 := by simpa [hrest] using hhead
      rw [hrest, List.takeWhile_cons_of_pos (by simpa using hc)] at hword
      exact absurd hword (List.cons_ne_nil _ _)
  refine ⟨?_, by rw [hnil]; rfl⟩
  rw [← extensions_dropWhile, hnil]
  rfl

theorem endsIn_iff (name word : Bytes) : EndsIn name word ↔ word.length ≤ name.length ∧
    strncasecmp (name.drop (name.length - word.length)) word word.length = true := by
  rw [EndsIn, List.suffix_iff_eq_drop, List.length_map, List.length_map, strncasecmp, decide_eq_true_iff,
    List.take_length]
  constructor
  · intro h
    have hlength := congrArg List.length h
    rw [List.length_map, List.length_drop, List.length_map] at hlength
    have htake : (name.drop (name.length - word.length)).take word.length = name.drop (name.length - word.length) :=
      List.take_of_length_le (by rw [List.length_drop]; omega)
    exact ⟨by omega, by rw [htake, List.map_drop, h]⟩
  · rintro ⟨hlength, h⟩
    have htake : (name.drop (name.length - word.length)).take word.length = name.drop (name.length - word.length) :=
      List.take_of_length_le (by rw [List.length_drop]; omega)
    rw [← h, htake, List.map_drop]

theorem has_ext_loop_iff (name p : Bytes) :
    has_ext_loop name p = true ↔ ∃ word ∈ extensions p, EndsIn name word := by
  induction p using has_ext_loop.induct name with
  | case1 =>
    rw [has_ext_loop, if_pos rfl]
    exact ⟨fun h => Bool.noConfusion h, by rintro ⟨word, hmem, _⟩; cases hmem⟩
  | case2 p hp word hfound =>
    rw [has_ext_loop, if_neg hp, if_pos hfound, extensions_eq hfound.1]
    exact ⟨fun _ => ⟨_, List.mem_cons_self, (endsIn_iff name _).mpr hfound.2⟩, fun _ => rfl⟩
  | case3 p hp word hnot ih =>
    rw [has_ext_loop, if_neg hp, if_neg hnot, ih]
    by_cases hword : word = []
    · obtain ⟨hnone, hrest⟩ := extensions_eq_nil hword
      rw [hnone, hrest]
      rfl
    · have hother : ¬ EndsIn name word := fun h => hnot ⟨hword, (endsIn_iff name word).mp h⟩
      rw [extensions_eq hword]
      simp only [List.mem_cons, exists_eq_or_imp]
      exact (or_iff_right hother).symm

end PlaylistParse

namespace SandApi

open SandStatus PlaylistParse

def kFlushAt : Nat := 1536

/-- An entry of a folder. Its name is one that a file system can hold, and `is_directory` is what the entry answers,
`none` where that throws. -/
structure Entry where
  name : Bytes
  is_directory : Option Bool
  hne : name ≠ []
  hname : 0 ∉ name

/-- What an iteration over a folder comes to next: an entry, or a failure that ends it. -/
inductive Visit where
  | entry (e : Entry)
  | throws

/-- The buffer, whether no element is written yet, and what the sink was given so far. -/
structure Listing where
  buf : Bytes
  first : Bool
  emitted : List Bytes

/-- Everything that is written, on its way or in the buffer. -/
def Listing.text (s : Listing) : Bytes := s.emitted.flatten ++ s.buf

def hasExt (name : Bytes) (ext : Option Bytes) : Bool := has_ext_in name ext

/-- A buffer that is full goes to the sink. -/
def flushed (buf : Bytes) (s : Listing) : Listing :=
  if kFlushAt ≤ buf.length then { s with buf := [], emitted := s.emitted ++ [buf] } else { s with buf := buf }

/-- A name as an element, behind a comma if it is not the first. -/
def appendName (fname : Bytes) (s : Listing) : Listing :=
  flushed (append_escaped (if s.first then s.buf else s.buf ++ [44]) fname) { s with first := false }

/-- The body of the loop of `appendFilesJson`. -/
def appendEntry (ext : Option Bytes) (e : Entry) (s : Listing) : Listing :=
  if e.name = [] ∨ e.name.head? = some 46 then s
  else
    match e.is_directory with
    -- an entry that cannot be looked at is skipped
    | none => s
    | some isdir => if isdir ∨ hasExt e.name ext = false then s else appendName e.name s

/-- What is written until the folder ends or the iteration throws. -/
def appendFilesJson (ext : Option Bytes) : List Visit → Listing → Listing
  | [], s => s
  | .throws :: _, s => s
  | .entry e :: dir, s => appendFilesJson ext dir (appendEntry ext e s)

/-- The chunks that the sink is given. There is nothing to iterate over where the path cannot be made. -/
def streamDirJson (dir : Option (List Visit)) (ext : Option Bytes) : List Bytes :=
  let opened : Listing := { buf := [91], first := true, emitted := [] }
  -- whatever was thrown is caught here, and the array is closed
  let s := match dir with
    | none => opened
    | some visits => appendFilesJson ext visits opened
  s.emitted ++ [s.buf ++ [93]]

/-- The entries of a folder before the iteration fails. -/
def visited : List Visit → List Entry
  | [] => []
  | .throws :: _ => []
  | .entry e :: dir => e :: visited dir

/-- A file that is not hidden and has one of the extensions; without extensions any will do. -/
def Listed (ext : Option Bytes) (e : Entry) : Prop :=
  e.name.head? ≠ some 46 ∧ e.is_directory = some false ∧
    (c_str (ext.getD []) = [] ∨ ∃ word ∈ extensions (c_str (ext.getD [])), EndsIn e.name word)

instance (ext : Option Bytes) (e : Entry) : Decidable (Listed ext e) := inferInstanceAs (Decidable (_ ∧ _ ∧ _))

/-- The array is open behind these names. -/
structure Holds (names : List Bytes) (s : Listing) : Prop where
  text : s.text = 91 :: listed (names.map fun name => name.flatMap escape)
  first : s.first = decide (names = [])

theorem hasExt_iff (name : Bytes) (ext : Option Bytes) : hasExt name ext = true ↔
    c_str (ext.getD []) = [] ∨ ∃ word ∈ extensions (c_str (ext.getD [])), EndsIn name word := by
  cases ext with
  | none => exact ⟨fun _ => .inl rfl, fun _ => rfl⟩
  | some ext =>
    rw [hasExt, has_ext_in, Option.getD_some]
    by_cases hnil : c_str ext = []
    · rw [if_pos hnil]
      exact ⟨fun _ => .inl hnil, fun _ => rfl⟩
    · rw [if_neg hnil, has_ext_loop_iff, or_iff_right hnil]

/-- Flushing moves text and loses none. -/
theorem text_flushed (buf : Bytes) (s : Listing) : (flushed buf s).text = s.emitted.flatten ++ buf := by
  rw [flushed]
  split
  · simp [Listing.text]
  · rfl

theorem first_flushed (buf : Bytes) (s : Listing) : (flushed buf s).first = s.first := by
  rw [flushed]
  split
  · rfl
  · rfl

theorem text_appendName (fname : Bytes) (s : Listing) :
    (appendName fname s).text = s.text ++ (if s.first then [] else [44]) ++ literal fname := by
  rw [appendName, text_flushed, append_escaped_eq, Listing.text]
  cases s.first with
  | true => simp
  | false => simp

theorem Holds.appendName {names : List Bytes} {s : Listing} (h : Holds names s) {fname : Bytes} (hname : 0 ∉ fname) :
    Holds (names ++ [fname]) (appendName fname s) where
  text := by
    have hliteral : literal fname = quoted (fname.flatMap escape) := by rw [literal, c_str_eq_self hname, quoted]
    have hcomma : (if s.first then [] else [44] : Bytes) =
        if names.map (fun name => name.flatMap escape) = [] then [] else [44] := by
      rw [h.first]
      cases names with
      | nil => rfl
      | cons name names => rfl
    rw [text_appendName, h.text, hcomma, hliteral, List.map_append, List.map_singleton, listed_concat]
    rfl
  first := by
    rw [SandApi.appendName, first_flushed]
    exact (decide_eq_false (List.append_ne_nil_of_right_ne_nil _ (List.cons_ne_nil _ _))).symm

/-- An entry adds its name if it is listed, and nothing otherwise. -/
theorem Holds.appendEntry {names : List Bytes} {s : Listing} (h : Holds names s) (ext : Option Bytes) (e : Entry) :
    Holds (names ++ ([e].filter (Listed ext)).map Entry.name) (appendEntry ext e s) := by
  have hskip (hnot : ¬ Listed ext e) : Holds (names ++ ([e].filter (Listed ext)).map Entry.name) s := by
    rw [List.filter_cons_of_neg (by simpa using hnot), List.filter_nil, List.map_nil, List.append_nil]
    exact h
  rw [SandApi.appendEntry]
  by_cases hhidden : e.name.head? = some 46
  · rw [if_pos (.inr hhidden)]
    exact hskip fun hlisted => hlisted.1 hhidden
  · rw [if_neg fun hor => hor.elim e.hne hhidden]
    cases hdir : e.is_directory with
    | none =>
      refine hskip fun hlisted => ?_
      have hfile := hdir.symm.trans hlisted.2.1
      cases hfile
    | some isdir =>
      dsimp only
      cases isdir with
      | true =>
        rw [if_pos (.inl rfl)]
        exact hskip fun hlisted => Bool.noConfusion (Option.some.inj (hdir.symm.trans hlisted.2.1))
      | false =>
        by_cases hext : hasExt e.name ext = true
        · rw [if_neg (by simp [hext]),
            List.filter_cons_of_pos (by simpa using ⟨hhidden, hdir, (hasExt_iff e.name ext).mp hext⟩)]
          exact h.appendName e.hname
        · rw [if_pos (.inr (Bool.eq_false_iff.mpr hext))]
          exact hskip fun hlisted => hext ((hasExt_iff e.name ext).mpr hlisted.2.2)

/-- So do the entries of a folder, one after the other. -/
theorem Holds.appendFilesJson {names : List Bytes} {s : Listing} (h : Holds names s) (ext : Option Bytes)
    (dir : List Visit) :
    Holds (names ++ ((visited dir).filter (Listed ext)).map Entry.name) (appendFilesJson ext dir s) := by
  induction dir generalizing names s with
  | nil => rwa [visited, List.filter_nil, List.map_nil, List.append_nil]
  | cons visit dir ih =>
    cases visit with
    | throws => rwa [visited, List.filter_nil, List.map_nil, List.append_nil]
    | entry e =>
      have hrest := ih (h.appendEntry ext e)
      rw [List.append_assoc, ← List.map_append, ← List.filter_append] at hrest
      exact hrest

theorem strings_close {names : List Bytes} {s : Listing} (h : Holds names s) :
    strings (s.emitted ++ [s.buf ++ [93]]).flatten = some names := by
  have htext : (s.emitted ++ [s.buf ++ [93]]).flatten = s.text ++ [93] := by simp [Listing.text]
  rw [htext, h.text]
  refine strings_listed ?_
  rw [List.forall₂_map_left_iff, List.forall₂_same]
  exact fun name _ => spells_flatMap name

/-- However the chunks fall and wherever the iteration fails, the listing is an array of the listed names. -/
theorem streamDirJson_decodes (dir : Option (List Visit)) (ext : Option Bytes) :
    strings (streamDirJson dir ext).flatten = some (((visited (dir.getD [])).filter (Listed ext)).map Entry.name) := by
  have hopened : Holds [] { buf := [91], first := true, emitted := [] } := { text := rfl, first := rfl }
  cases dir with
  | none => exact strings_close hopened
  | some visits => exact strings_close (hopened.appendFilesJson ext visits)

end SandApi

end DuneWeaver
