import DuneWeaver.Configuration.RuntimeTree
import DuneWeaver.Lines.Pieces

namespace DuneWeaver.Configuration

def slash (c : UInt8) : Bool := c = 0x2f

section Keys

/-- The key up to case. -/
def lower (key : Bytes) : Bytes := key.map tolower

variable {name key more : Bytes}

theorem equal_ignore_case_iff (a b : Bytes) : equal_ignore_case a b = true ↔ lower a = lower b := decide_eq_true_iff

theorem tolower_slash (c : UInt8) : tolower c = 0x2f ↔ c = 0x2f := by
  unfold tolower
  split
  case isTrue hupper =>
    have hlow : 0x41 ≤ c.toNat := hupper.1
    have hhigh : c.toNat ≤ 0x5a := hupper.2
    constructor
    · intro h
      have hval := congrArg UInt8.toNat h
      rw [UInt8.toNat_add] at hval
      change (c.toNat + 0x20) % 256 = 0x2f at hval
      omega
    · rintro rfl
      exact absurd hlow (by decide)
  case isFalse => rfl

theorem mem_lower (key : Bytes) : 0x2f ∈ lower key ↔ 0x2f ∈ key := by
  rw [lower, List.mem_map]
  constructor
  · rintro ⟨c, hc, hlower⟩
    rwa [← (tolower_slash c).mp hlower]
  · intro h
    exact ⟨0x2f, h, (tolower_slash 0x2f).mpr rfl⟩

theorem lower_cons_slash (key : Bytes) : lower (0x2f :: key) = 0x2f :: lower key := rfl

theorem lower_append (a b : Bytes) : lower (a ++ b) = lower a ++ lower b := List.map_append

theorem slash_notMem (name : Name) : 0x2f ∉ name.1 := fun h => absurd (name.2.2 0x2f h) (by decide)

/-- A key has one component, or it goes on behind a slash. -/
theorem key_cases (key : Bytes) :
    0x2f ∉ key ∧ Lines.piece slash key = key ∧ Lines.behind slash key = [] ∨
      key = Lines.piece slash key ++ 0x2f :: Lines.behind slash key ∧ 0x2f ∉ Lines.piece slash key := by
  by_cases h : 0x2f ∈ key
  · obtain ⟨front, rest, hkey, hfront⟩ := List.eq_append_cons_of_mem h
    have hplain : ∀ c ∈ front, slash c = false := fun c hc => decide_eq_false fun heq => hfront (heq ▸ hc)
    have hpiece : Lines.piece slash key = front := by
      rw [hkey, Lines.piece, List.takeWhile_append_of_pos (by simpa using hplain),
        List.takeWhile_cons_of_neg (by decide), List.append_nil]
    have hbehind : Lines.behind slash key = rest := by
      rw [hkey, Lines.behind, List.dropWhile_append_of_pos (by simpa using hplain),
        List.dropWhile_cons_of_neg (by decide), List.tail_cons]
    rw [hpiece, hbehind]
    exact .inr ⟨hkey, hfront⟩
  · have hplain : ∀ c ∈ key, slash c = false := fun c hc => decide_eq_false fun heq => h (heq ▸ hc)
    refine .inl ⟨h, ?_, ?_⟩
    · exact List.takeWhile_eq_self_iff.mpr (by simpa using hplain)
    · rw [Lines.behind, List.dropWhile_eq_nil_iff.mpr (by simpa using hplain), List.tail_nil]

theorem append_slash_inj {a b x y : Bytes} (ha : 0x2f ∉ a) (hb : 0x2f ∉ b) :
    a ++ 0x2f :: x = b ++ 0x2f :: y ↔ a = b ∧ x = y := by
  constructor
  · intro h
    induction a generalizing b with
    | nil =>
      cases b with
      | nil => exact ⟨rfl, (List.cons.inj h).2⟩
      | cons d b => exact absurd ((List.cons.inj h).1 ▸ List.mem_cons_self) hb
    | cons c a ih =>
      cases b with
      | nil => exact absurd ((List.cons.inj h).1 ▸ List.mem_cons_self) ha
      | cons d b =>
        obtain ⟨hhead, htail⟩ := List.cons.inj h
        obtain ⟨hab, hxy⟩ := ih (fun hmem => ha (List.mem_cons_of_mem c hmem))
          (fun hmem => hb (List.mem_cons_of_mem d hmem)) htail
        exact ⟨by rw [hhead, hab], hxy⟩
  · rintro ⟨rfl, rfl⟩
    rfl

/-- A key that goes on behind a name has the name as its first component. -/
theorem lower_eq_slash (hname : 0x2f ∉ name) : lower key = lower name ++ 0x2f :: lower more ↔
    lower (Lines.piece slash key) = lower name ∧ lower (Lines.behind slash key) = lower more ∧ 0x2f ∈ key := by
  obtain ⟨hnone, -, -⟩ | ⟨hkey, hplain⟩ := key_cases key
  · refine iff_of_false (fun h => ?_) fun h => hnone h.2.2
    refine hnone ((mem_lower key).mp ?_)
    rw [h]
    exact List.mem_append_right _ List.mem_cons_self
  · have hmem : 0x2f ∈ key := by
      rw [hkey]
      exact List.mem_append_right _ List.mem_cons_self
    conv_lhs => rw [hkey, lower_append, lower_cons_slash]
    rw [append_slash_inj (fun h => hplain ((mem_lower _).mp h)) (fun h => hname ((mem_lower name).mp h)),
      and_iff_left hmem]

/-- A key that is a name has it as its only component. -/
theorem lower_eq_name (hname : 0x2f ∉ name) : lower key = lower name ↔
    lower (Lines.piece slash key) = lower name ∧ 0x2f ∉ key := by
  obtain ⟨hnone, hpiece, -⟩ | ⟨hkey, -⟩ := key_cases key
  · rw [hpiece, and_iff_left hnone]
  · have hmem : 0x2f ∈ key := by
      rw [hkey]
      exact List.mem_append_right _ List.mem_cons_self
    refine iff_of_false (fun h => hname ((mem_lower name).mp ?_)) fun h => h.2 hmem
    rw [← h]
    exact (mem_lower key).mpr hmem

end Keys

section Paths

/-- The path of an item or section as it is written. -/
def fullPath : List Name → Bytes
  | [] => []
  | [name] => name.1
  | name :: path => name.1 ++ 0x2f :: fullPath path

/-- The key is the path up to case, a slash in front and a slash behind. -/
def Addresses (key : Bytes) (path : List Name) : Prop :=
  ∃ lead ∈ [[], [0x2f]], ∃ trail ∈ [[], [0x2f]], equal_ignore_case key (lead ++ fullPath path ++ trail) = true

/-- The key goes on behind the path, up to case and a slash in front. -/
def GoesOn (key : Bytes) (path : List Name) : Prop :=
  ∃ lead ∈ [[], [0x2f]], ∃ more ≠ [], equal_ignore_case key (lead ++ fullPath path ++ 0x2f :: more) = true

/-- The names of a path are the first components of a key. -/
def Reaches : Bytes → List Name → Prop
  | _, [] => False
  | key, [name] => equal_ignore_case name.1 (Lines.piece slash key) = true
  | key, name :: path =>
    equal_ignore_case name.1 (Lines.piece slash key) = true ∧ Reaches (Lines.behind slash key) path

/-- What is left of a key behind as many components. -/
def left (key : Bytes) : List Name → Bytes
  | [] => key
  | _ :: path => left (Lines.behind slash key) path

variable {key : Bytes} {path : List Name}

theorem lower_eq_nil (key : Bytes) : lower key = [] ↔ key = [] := List.map_eq_nil_iff

theorem fullPath_cons (name : Name) (hne : path ≠ []) : fullPath (name :: path) = name.1 ++ 0x2f :: fullPath path := by
  cases path with
  | nil => exact absurd rfl hne
  | cons next path => rfl

theorem reaches_cons (key : Bytes) (name : Name) (hne : path ≠ []) : Reaches key (name :: path) ↔
    equal_ignore_case name.1 (Lines.piece slash key) = true ∧ Reaches (Lines.behind slash key) path := by
  cases path with
  | nil => exact absurd rfl hne
  | cons next path => rfl

theorem fullPath_ne_nil (hne : path ≠ []) : fullPath path ≠ [] := by
  cases path with
  | nil => exact absurd rfl hne
  | cons name path =>
    cases path with
    | nil => exact name.2.1
    | cons next path => exact List.append_ne_nil_of_left_ne_nil name.2.1 _

/-- Behind a slash the key is not over. -/
theorem slash_of_behind (h : Lines.behind slash key ≠ []) : 0x2f ∈ key := by
  obtain ⟨-, -, hbehind⟩ | ⟨hkey, -⟩ := key_cases key
  · exact absurd hbehind h
  · rw [hkey]
    exact List.mem_append_right _ List.mem_cons_self

/-- The names of a path are the first components of the keys that are the path or go on behind it. -/
theorem reaches_left_iff (hne : path ≠ []) (key more : Bytes) : Reaches key path ∧ lower (left key path) = lower more ↔
    more = [] ∧ lower key = lower (fullPath path) ∨ lower key = lower (fullPath path) ++ 0x2f :: lower more := by
  induction path generalizing key with
  | nil => exact absurd rfl hne
  | cons name path ih =>
    have hname := slash_notMem name
    by_cases hpath : path = []
    · subst hpath
      rw [fullPath, Reaches, left, left, equal_ignore_case_iff, lower_eq_slash hname, lower_eq_name hname]
      obtain ⟨hnone, hpiece, hbehind⟩ | ⟨hkey, -⟩ := key_cases key
      · rw [hbehind]
        constructor
        · rintro ⟨hreach, hmore⟩
          exact .inl ⟨(lower_eq_nil more).mp hmore.symm, hreach.symm, hnone⟩
        · rintro (⟨rfl, hreach, -⟩ | ⟨-, -, hmem⟩)
          · exact ⟨hreach.symm, rfl⟩
          · exact absurd hmem hnone
      · have hmem : 0x2f ∈ key := by
          rw [hkey]
          exact List.mem_append_right _ List.mem_cons_self
        constructor
        · rintro ⟨hreach, hmore⟩
          exact .inr ⟨hreach.symm, hmore, hmem⟩
        · rintro (⟨-, -, hnone⟩ | ⟨hreach, hmore, -⟩)
          · exact absurd hmem hnone
          · exact ⟨hreach.symm, hmore⟩
    · have hinner := ih hpath (Lines.behind slash key)
      have hgoes (rest : Bytes) (hrest : rest ≠ []) : lower key = lower (name.1 ++ 0x2f :: rest) ↔
          lower name.1 = lower (Lines.piece slash key) ∧ lower (Lines.behind slash key) = lower rest := by
        rw [lower_append, lower_cons_slash, lower_eq_slash hname]
        constructor
        · rintro ⟨hpiece, hbehind, -⟩
          exact ⟨hpiece.symm, hbehind⟩
        · rintro ⟨hpiece, hbehind⟩
          refine ⟨hpiece.symm, hbehind, slash_of_behind fun hnil => hrest ?_⟩
          rw [hnil] at hbehind
          exact (lower_eq_nil rest).mp hbehind.symm
      have hfull := fullPath_ne_nil hpath
      have hmore : lower (fullPath path) ++ 0x2f :: lower more = lower (fullPath path ++ 0x2f :: more) := by
        rw [lower_append, lower_cons_slash]
      have houter : lower (fullPath (name :: path)) ++ 0x2f :: lower more =
          lower (name.1 ++ 0x2f :: (fullPath path ++ 0x2f :: more)) := by
        rw [fullPath_cons name hpath]
        simp only [lower_append, lower_cons_slash, List.append_assoc, List.cons_append]
      rw [reaches_cons key name hpath, left, equal_ignore_case_iff, and_assoc, hinner, houter, hmore,
        hgoes _ (List.append_ne_nil_of_left_ne_nil hfull _), fullPath_cons name hpath, hgoes _ hfull]
      constructor
      · rintro ⟨hpiece, ⟨hnil, hbehind⟩ | hbehind⟩
        · exact .inl ⟨hnil, hpiece, hbehind⟩
        · exact .inr ⟨hpiece, hbehind⟩
      · rintro (⟨hnil, hpiece, hbehind⟩ | ⟨hpiece, hbehind⟩)
        · exact ⟨hpiece, .inl ⟨hnil, hbehind⟩⟩
        · exact ⟨hpiece, .inr hbehind⟩

/-- The key without the slash in front. -/
def stripped (key : Bytes) : Bytes := if key.head? = some 0x2f then key.tail else key

theorem head_fullPath (hne : path ≠ []) (rest : Bytes) : (lower (fullPath path ++ rest)).head? ≠ some 0x2f := by
  cases path with
  | nil => exact absurd rfl hne
  | cons name path =>
    obtain ⟨c, tail, hname⟩ := List.exists_cons_of_ne_nil name.2.1
    have hfull : ∃ more, fullPath (name :: path) = c :: more := by
      by_cases hpath : path = []
      · subst hpath
        exact ⟨tail, hname⟩
      · exact ⟨tail ++ 0x2f :: fullPath path, by rw [fullPath_cons name hpath, hname, List.cons_append]⟩
    obtain ⟨more, hfull⟩ := hfull
    rw [hfull]
    intro hhead
    have hc := (tolower_slash c).mp (Option.some.inj hhead)
    exact slash_notMem name (by rw [hname, hc]; exact List.mem_cons_self)

/-- A slash in front of a key stands for none of a path. -/
theorem lead_iff (hne : path ≠ []) (key rest : Bytes) :
    (∃ lead ∈ ([[], [0x2f]] : List Bytes), equal_ignore_case key (lead ++ fullPath path ++ rest) = true) ↔
      lower (stripped key) = lower (fullPath path ++ rest) := by
  have hhead := head_fullPath hne rest
  simp only [List.mem_cons, List.not_mem_nil, or_false, exists_eq_or_imp, exists_eq_left, equal_ignore_case_iff,
    List.nil_append, List.cons_append, lower_cons_slash]
  rw [stripped]
  by_cases hkey : key.head? = some 0x2f
  · obtain ⟨tail, rfl⟩ : ∃ tail, key = 0x2f :: tail := ⟨key.tail, List.eq_cons_of_mem_head? hkey⟩
    rw [if_pos hkey, List.tail_cons, lower_cons_slash, List.cons_inj_right]
    refine or_iff_right fun heq => hhead ?_
    rw [← heq]
    rfl
  · rw [if_neg hkey]
    refine or_iff_left fun heq => hkey ?_
    cases key with
    | nil => exact absurd heq (List.cons_ne_nil _ _).symm
    | cons c key => exact congrArg some ((tolower_slash c).mp (List.cons.inj heq).1)

theorem addresses_iff (hne : path ≠ []) (key : Bytes) :
    Addresses key path ↔ Reaches (stripped key) path ∧ left (stripped key) path = [] := by
  have hboth := reaches_left_iff hne (stripped key) []
  have hlead (trail : Bytes) := lead_iff hne key trail
  have hswap : Addresses key path ↔ ∃ trail ∈ ([[], [0x2f]] : List Bytes),
      ∃ lead ∈ ([[], [0x2f]] : List Bytes), equal_ignore_case key (lead ++ fullPath path ++ trail) = true := by
    constructor
    · rintro ⟨lead, hlead, trail, htrail, h⟩
      exact ⟨trail, htrail, lead, hlead, h⟩
    · rintro ⟨trail, htrail, lead, hlead, h⟩
      exact ⟨lead, hlead, trail, htrail, h⟩
  rw [hswap]
  simp only [hlead]
  rw [show lower ([] : Bytes) = [] from rfl, lower_eq_nil] at hboth
  rw [hboth]
  simp [lower_append, lower_cons_slash, show lower ([] : Bytes) = [] from rfl]

theorem goesOn_iff (hne : path ≠ []) (key : Bytes) :
    GoesOn key path ↔ Reaches (stripped key) path ∧ left (stripped key) path ≠ [] := by
  have hlead (more : Bytes) := lead_iff hne key (0x2f :: more)
  have hswap : GoesOn key path ↔ ∃ more ≠ [],
      ∃ lead ∈ ([[], [0x2f]] : List Bytes), equal_ignore_case key (lead ++ fullPath path ++ 0x2f :: more) = true := by
    constructor
    · rintro ⟨lead, hlead, more, hmore, h⟩
      exact ⟨more, hmore, lead, hlead, h⟩
    · rintro ⟨more, hmore, lead, hlead, h⟩
      exact ⟨lead, hlead, more, hmore, h⟩
  rw [hswap]
  simp only [hlead, lower_append, lower_cons_slash]
  constructor
  · rintro ⟨more, hmore, h⟩
    obtain ⟨hreach, hleft⟩ := (reaches_left_iff hne (stripped key) more).mpr (.inr h)
    refine ⟨hreach, fun hnil => hmore ?_⟩
    rw [hnil] at hleft
    exact (lower_eq_nil more).mp hleft.symm
  · rintro ⟨hreach, hleft⟩
    obtain ⟨hnil, -⟩ | h := (reaches_left_iff hne (stripped key) (left (stripped key) path)).mp ⟨hreach, rfl⟩
    · exact absurd hnil hleft
    · exact ⟨_, hleft, h⟩

end Paths

namespace RuntimeTree

/-- The items with their paths. -/
def items : RuntimeTree → List (List Name × RuntimeItem)
  | nil => []
  | item name it rest => ([name], it) :: rest.items
  | «section» name children rest => children.items.map (fun e => (name :: e.1, e.2)) ++ rest.items

/-- The paths of the sections. -/
def sections : RuntimeTree → List (List Name)
  | nil => []
  | item _ _ rest => rest.sections
  | «section» name children rest => [name] :: children.sections.map (name :: ·) ++ rest.sections

/-- The names beside each other. -/
def names : RuntimeTree → List Name
  | nil => []
  | item name _ rest => name :: rest.names
  | «section» name _ rest => name :: rest.names

/-- No two names beside each other are the same up to case. -/
def Apart : RuntimeTree → Prop
  | nil => True
  | item name _ rest => (∀ other ∈ rest.names, equal_ignore_case name.1 other.1 = false) ∧ rest.Apart
  | «section» name children rest =>
    (∀ other ∈ rest.names, equal_ignore_case name.1 other.1 = false) ∧ children.Apart ∧ rest.Apart

theorem path_of_items {tree : RuntimeTree} {e : List Name × RuntimeItem} (h : e ∈ tree.items) :
    ∃ name path, e.1 = name :: path ∧ name ∈ tree.names := by
  induction tree with
  | nil => cases h
  | item name it rest ih =>
    rw [items, List.mem_cons] at h
    rcases h with rfl | h
    · exact ⟨name, [], rfl, List.mem_cons_self⟩
    · obtain ⟨other, path, hpath, hmem⟩ := ih h
      exact ⟨other, path, hpath, List.mem_cons_of_mem name hmem⟩
  | «section» name children rest _ ih =>
    rw [items, List.mem_append] at h
    rcases h with h | h
    · obtain ⟨inner, -, rfl⟩ := List.mem_map.mp h
      exact ⟨name, inner.1, rfl, List.mem_cons_self⟩
    · obtain ⟨other, path, hpath, hmem⟩ := ih h
      exact ⟨other, path, hpath, List.mem_cons_of_mem name hmem⟩

theorem path_of_sections {tree : RuntimeTree} {p : List Name} (h : p ∈ tree.sections) :
    ∃ name path, p = name :: path ∧ name ∈ tree.names := by
  induction tree with
  | nil => cases h
  | item name it rest ih =>
    obtain ⟨other, path, hpath, hmem⟩ := ih h
    exact ⟨other, path, hpath, List.mem_cons_of_mem name hmem⟩
  | «section» name children rest _ ih =>
    rw [sections, List.cons_append, List.mem_cons, List.mem_append] at h
    rcases h with rfl | h | h
    · exact ⟨name, [], rfl, List.mem_cons_self⟩
    · obtain ⟨inner, -, rfl⟩ := List.mem_map.mp h
      exact ⟨name, inner, rfl, List.mem_cons_self⟩
    · obtain ⟨other, path, hpath, hmem⟩ := ih h
      exact ⟨other, path, hpath, List.mem_cons_of_mem name hmem⟩

end RuntimeTree

namespace RuntimeSetting

/-- A name is in front of a key if it is its first component. -/
theorem is_iff (s : RuntimeSetting) (name : Name) :
    s.is name = true ↔ equal_ignore_case name.1 (Lines.piece slash s.start_) = true := by
  have hname := slash_notMem name
  rw [is, Bool.and_eq_true, Bool.or_eq_true, decide_eq_true_iff, decide_eq_true_iff, equal_ignore_case_iff,
    equal_ignore_case_iff]
  have hsplit : s.start_ = s.start_.take name.1.length ++ s.start_.drop name.1.length :=
    (List.take_append_drop _ _).symm
  constructor
  · rintro ⟨hlower, hend⟩
    have hplain : 0x2f ∉ s.start_.take name.1.length := fun h =>
      hname ((mem_lower name.1).mp (hlower ▸ (mem_lower _).mpr h))
    have hall : ∀ c ∈ s.start_.take name.1.length, (!slash c) = true := by
      intro c hc
      rw [Bool.not_eq_true', slash]
      exact decide_eq_false fun heq => hplain (heq ▸ hc)
    have hpiece : Lines.piece slash s.start_ = s.start_.take name.1.length := by
      conv_lhs => rw [hsplit]
      rw [Lines.piece, List.takeWhile_append_of_pos hall]
      cases hrest : s.start_.drop name.1.length with
      | nil => rw [List.takeWhile_nil, List.append_nil]
      | cons c rest =>
        rw [hrest] at hend
        have hc : c = 0x2f := hend.elim (fun h => by cases h) fun h => Option.some.inj h
        rw [hc, List.takeWhile_cons_of_neg (by decide), List.append_nil]
    rw [hpiece]
    exact hlower
  · intro hlower
    have hlength := congrArg List.length hlower
    rw [lower, lower, List.length_map, List.length_map] at hlength
    have hparts : s.start_ = Lines.piece slash s.start_ ++ s.start_.dropWhile fun c => !slash c :=
      List.takeWhile_append_dropWhile.symm
    have htake : s.start_.take name.1.length = Lines.piece slash s.start_ := by
      conv_lhs => rw [hparts]
      exact List.take_left' hlength.symm
    have hdrop : s.start_.drop name.1.length = s.start_.dropWhile fun c => !slash c := by
      conv_lhs => rw [hparts]
      exact List.drop_left' hlength.symm
    rw [htake, hdrop]
    refine ⟨hlower, ?_⟩
    cases hrest : s.start_.dropWhile fun c => !slash c with
    | nil => exact .inl rfl
    | cons c rest =>
      have hhead := List.head_dropWhile_not (fun c => !slash c) (l := s.start_)
        (by rw [hrest]; exact List.cons_ne_nil _ _)
      simp only [hrest, List.head_cons, Bool.not_eq_false'] at hhead
      exact .inr (congrArg some (of_decide_eq_true hhead))

end RuntimeSetting

end DuneWeaver.Configuration
