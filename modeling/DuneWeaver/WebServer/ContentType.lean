import DuneWeaver.Bytes

namespace DuneWeaver.WebServer

/-- Pointing at the character `i` places from the start of a string: its NUL is read too. -/
def charAt (s : Bytes) (i : Int) : Option UInt8 :=
  if 0 ≤ i ∧ i < s.length then s[i.toNat]? else if i = s.length then some 0 else none

section EndsWith

variable (suffix test : Bytes)

/-- The loop of `endsWithCI`, with `s` and `t` counted from the starts of the two strings; nothing where it reads
outside of one. `--s != s` compares `s` with itself behind the decrement. -/
def endsWithCI_loop (s t : Int) : Option Bool :=
  let s := s - 1
  if s ≠ s then
    match charAt suffix s, charAt test (t - 1) with
    | some c, some d => if tolower c ≠ tolower d then some false else endsWithCI_loop s (t - 1)
    | _, _ => none
  else some true
termination_by 0
decreasing_by exact absurd rfl (by assumption)

def endsWithCI : Option Bool :=
  if suffix.length > test.length then some false else endsWithCI_loop suffix test suffix.length test.length

/-- The name ends with the suffix, in whatever case its letters are. -/
def EndsCI : Prop := suffix.map tolower <:+ test.map tolower

instance : Decidable (EndsCI suffix test) := inferInstanceAs (Decidable (_ <:+ _))

end EndsWith

structure mime_type where
  suffix : Bytes
  type : Bytes

/-- The table up to the entry without a suffix that ends it. -/
def mime_types : List mime_type :=
  [⟨bytes ".htm", bytes "text/html"⟩, ⟨bytes ".html", bytes "text/html"⟩, ⟨bytes ".css", bytes "text/css"⟩,
    ⟨bytes ".js", bytes "application/javascript"⟩, ⟨bytes ".htm", bytes "text/html"⟩,
    ⟨bytes ".png", bytes "image/png"⟩, ⟨bytes ".gif", bytes "image/gif"⟩, ⟨bytes ".jpeg", bytes "image/jpeg"⟩,
    ⟨bytes ".jpg", bytes "image/jpeg"⟩, ⟨bytes ".ico", bytes "image/x-icon"⟩, ⟨bytes ".xml", bytes "text/xml"⟩,
    ⟨bytes ".pdf", bytes "application/x-pdf"⟩, ⟨bytes ".zip", bytes "application/x-zip"⟩,
    ⟨bytes ".gz", bytes "application/x-gzip"⟩, ⟨bytes ".txt", bytes "text/plain"⟩]

/-- The type of the entry that ends the table. -/
def defaultType : Bytes := bytes "application/octet-stream"

def getContentType_loop (filename : Bytes) : List mime_type → Option Bytes
  | [] => some defaultType
  | m :: rest =>
    match endsWithCI m.suffix filename with
    | some found => if found then some m.type else getContentType_loop filename rest
    | none => none

def getContentType (filename : Bytes) : Option Bytes := getContentType_loop filename mime_types

/-- The type of the first entry whose suffix ends the name. -/
def typeOf (filename : Bytes) : Bytes :=
  match mime_types.find? fun m => EndsCI m.suffix filename with
  | some m => m.type
  | none => defaultType

section Exact

variable {suffix test filename : Bytes}

theorem length_le_of_endsCI (h : EndsCI suffix test) : suffix.length ≤ test.length := by
  have hlength := List.IsSuffix.length_le h
  rwa [List.length_map, List.length_map] at hlength

/-- The loop is never entered. -/
theorem endsWithCI_eq (suffix test : Bytes) : endsWithCI suffix test = some (decide (suffix.length ≤ test.length)) := by
  rw [endsWithCI]
  by_cases hlong : suffix.length > test.length
  · rw [if_pos hlong, decide_eq_false (by omega)]
  · rw [if_neg hlong, endsWithCI_loop, if_neg (fun h => h rfl), decide_eq_true (by omega)]

/-- The suffix is found exactly where it stands, if there is no room for it or it does stand there. -/
theorem endsWithCI_exact_iff (suffix test : Bytes) :
    endsWithCI suffix test = some (decide (EndsCI suffix test)) ↔
      test.length < suffix.length ∨ EndsCI suffix test := by
  rw [endsWithCI_eq, Option.some.injEq, decide_eq_decide]
  constructor
  · intro h
    by_cases hroom : suffix.length ≤ test.length
    · exact .inr (h.mp hroom)
    · exact .inl (by omega)
  · rintro (hshort | hends)
    · exact iff_of_false (by omega) fun h => absurd (length_le_of_endsCI h) (by omega)
    · exact iff_of_true (length_le_of_endsCI hends) hends

/-- The type that is served is that of the first suffix that is no longer than the name. -/
theorem getContentType_loop_eq (table : List mime_type) : getContentType_loop filename table =
    some (((table.find? fun m => m.suffix.length ≤ filename.length).map mime_type.type).getD defaultType) := by
  induction table with
  | nil => rfl
  | cons m table ih =>
    rw [getContentType_loop, endsWithCI_eq, List.find?_cons]
    cases decide (m.suffix.length ≤ filename.length) with
    | true => rfl
    | false => exact ih

/-- The type is that of an entry whose suffix ends the name, or no suffix does. -/
theorem typeOf_cases (filename : Bytes) :
    (∃ m ∈ mime_types, EndsCI m.suffix filename ∧ typeOf filename = m.type) ∨
      (∀ m ∈ mime_types, ¬ EndsCI m.suffix filename) ∧ typeOf filename = defaultType := by
  rw [typeOf]
  cases hfind : mime_types.find? fun m => decide (EndsCI m.suffix filename) with
  | none =>
    right
    refine ⟨fun m hm hends => ?_, rfl⟩
    have hnone := List.find?_eq_none.mp hfind m hm
    exact hnone (decide_eq_true hends)
  | some m =>
    left
    have hends := List.find?_some hfind
    exact ⟨m, List.mem_of_find?_eq_some hfind, of_decide_eq_true hends, rfl⟩

theorem find?_ends {m : mime_type} {table : List mime_type} (h : EndsCI m.suffix filename) :
    ((m :: table).find? fun m => decide (EndsCI m.suffix filename)) = some m :=
  List.find?_cons_of_pos (decide_eq_true h)

theorem find?_behind {m : mime_type} {table : List mime_type} (h : ¬ EndsCI m.suffix filename) :
    ((m :: table).find? fun m => decide (EndsCI m.suffix filename)) =
      table.find? fun m => decide (EndsCI m.suffix filename) :=
  List.find?_cons_of_neg (by simpa using h)

theorem typeOf_html_iff : typeOf filename = bytes "text/html" ↔
    EndsCI (bytes ".htm") filename ∨ EndsCI (bytes ".html") filename := by
  constructor
  · intro htype
    obtain ⟨m, hm, hends, heq⟩ | ⟨-, heq⟩ := typeOf_cases filename
    · have hsuffix : ∀ m ∈ mime_types, m.type = bytes "text/html" →
          m.suffix = bytes ".htm" ∨ m.suffix = bytes ".html" := by decide +kernel
      obtain hhtm | hhtml := hsuffix m hm (heq.symm.trans htype)
      · exact .inl (hhtm ▸ hends)
      · exact .inr (hhtml ▸ hends)
    · exact absurd (heq.symm.trans htype) (by decide)
  · intro hends
    rw [typeOf, mime_types]
    by_cases hhtm : EndsCI (bytes ".htm") filename
    · rw [find?_ends hhtm]
    · rw [find?_behind hhtm, find?_ends (hends.resolve_left hhtm)]

/-- Among the names of three characters one ends in `.js`. -/
theorem typeOf_js_iff (hlength : filename.length = 3) :
    typeOf filename = bytes "application/javascript" ↔ EndsCI (bytes ".js") filename := by
  constructor
  · intro htype
    obtain ⟨m, hm, hends, heq⟩ | ⟨-, heq⟩ := typeOf_cases filename
    · have hsuffix : ∀ m ∈ mime_types, m.type = bytes "application/javascript" → m.suffix = bytes ".js" := by
        decide +kernel
      exact hsuffix m hm (heq.symm.trans htype) ▸ hends
    · exact absurd (heq.symm.trans htype) (by decide)
  · intro hends
    have hlong {suffix : Bytes} (hsuffix : 3 < suffix.length) : ¬ EndsCI suffix filename := by
      intro h
      have hle := length_le_of_endsCI h
      omega
    rw [typeOf, mime_types, find?_behind (hlong (by decide)), find?_behind (hlong (by decide)),
      find?_behind (hlong (by decide)), find?_ends hends]

/-- No suffix fits into a name of two characters. -/
theorem typeOf_short (hlength : filename.length < 3) : typeOf filename = defaultType := by
  obtain ⟨m, hm, hends, -⟩ | ⟨-, heq⟩ := typeOf_cases filename
  · have hsuffix : ∀ m ∈ mime_types, 3 ≤ m.suffix.length := by decide +kernel
    have hlong := hsuffix m hm
    have hle := length_le_of_endsCI hends
    omega
  · exact heq

theorem getContentType_eq (filename : Bytes) : getContentType filename =
    some (if filename.length < 3 then defaultType
      else if filename.length = 3 then bytes "application/javascript" else bytes "text/html") := by
  rw [getContentType, getContentType_loop_eq, Option.some.injEq]
  by_cases hshort : filename.length < 3
  · have hnone : (mime_types.find? fun m => decide (m.suffix.length ≤ filename.length)) = none := by
      refine List.find?_eq_none.mpr fun m hm => ?_
      have hsuffix : ∀ m ∈ mime_types, 3 ≤ m.suffix.length := by decide +kernel
      have hlong := hsuffix m hm
      simp only [decide_eq_true_eq]
      omega
    rw [if_pos hshort, hnone]
    rfl
  · rw [if_neg hshort]
    by_cases hthree : filename.length = 3
    · rw [if_pos hthree, hthree]
      rfl
    · have hhtm : (bytes ".htm").length = 4 := rfl
      have hfirst : (mime_types.find? fun m => decide (m.suffix.length ≤ filename.length)) =
          some ⟨bytes ".htm", bytes "text/html"⟩ :=
        List.find?_cons_of_pos (decide_eq_true (show (bytes ".htm").length ≤ filename.length by omega))
      rw [if_neg hthree, hfirst]
      rfl

/-- The type that is served is the right one for the names that end in `.htm` or `.html`, for `.js` itself, and for
those that are too short for any suffix. -/
theorem getContentType_exact_iff (filename : Bytes) : getContentType filename = some (typeOf filename) ↔
    filename.length < 3 ∨ filename.length = 3 ∧ EndsCI (bytes ".js") filename ∨
      3 < filename.length ∧ (EndsCI (bytes ".htm") filename ∨ EndsCI (bytes ".html") filename) := by
  rw [getContentType_eq, Option.some.injEq]
  obtain hshort | hthree | hfour := lt_trichotomy filename.length 3
  · rw [if_pos hshort, typeOf_short hshort]
    exact iff_of_true rfl (.inl hshort)
  · rw [if_neg (by omega), if_pos hthree, eq_comm, typeOf_js_iff hthree]
    constructor
    · exact fun h => .inr (.inl ⟨hthree, h⟩)
    · rintro (h | h | h)
      · omega
      · exact h.2
      · omega
  · rw [if_neg (by omega), if_neg (by omega), eq_comm, typeOf_html_iff]
    constructor
    · exact fun h => .inr (.inr ⟨hfour, h⟩)
    · rintro (h | h | h)
      · omega
      · omega
      · exact h.2

end Exact

/-- Exactly when a suffix is found where it stands, and when a name is served with its type. -/
theorem suffixes_decide_iff (suffix test filename : Bytes) :
    (endsWithCI suffix test = some (decide (EndsCI suffix test)) ↔
      test.length < suffix.length ∨ EndsCI suffix test) ∧
    (getContentType filename = some (typeOf filename) ↔
      filename.length < 3 ∨ filename.length = 3 ∧ EndsCI (bytes ".js") filename ∨
        3 < filename.length ∧ (EndsCI (bytes ".htm") filename ∨ EndsCI (bytes ".html") filename)) :=
  ⟨endsWithCI_exact_iff suffix test, getContentType_exact_iff filename⟩

/-- A stylesheet is served as a page. -/
theorem stylesheet_is_served_as_page : getContentType (bytes "app.css") ≠ some (typeOf (bytes "app.css")) := by
  rw [getContentType_eq]
  decide

end DuneWeaver.WebServer
