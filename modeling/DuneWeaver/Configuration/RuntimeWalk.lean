import DuneWeaver.Configuration.RuntimePath
import Mathlib.Data.List.Pairwise

namespace DuneWeaver.Configuration

open RuntimeSetting

instance decidableReaches : ∀ (key : Bytes) (path : List Name), Decidable (Reaches key path)
  | _, [] => inferInstanceAs (Decidable False)
  | key, [name] => inferInstanceAs (Decidable (equal_ignore_case name.1 (Lines.piece slash key) = true))
  | key, name :: next :: path =>
    have := decidableReaches (Lines.behind slash key) (next :: path)
    inferInstanceAs (Decidable (equal_ignore_case name.1 (Lines.piece slash key) = true ∧
      Reaches (Lines.behind slash key) (next :: path)))

section Names

variable {s : RuntimeSetting} {tree : RuntimeTree} {name other : Name}

/-- A key has one first component. -/
theorem not_is_of_apart (hapart : equal_ignore_case name.1 other.1 = false) (his : s.is name = true) :
    s.is other = false := by
  rw [Bool.eq_false_iff]
  intro hother
  rw [is_iff, equal_ignore_case_iff] at his hother
  refine absurd ((equal_ignore_case_iff _ _).mpr (his.trans hother.symm)) ?_
  rw [hapart]
  exact Bool.false_ne_true

theorem reaches_head {path : List Name} (h : Reaches s.start_ (name :: path)) : s.is name = true := by
  rw [is_iff]
  cases path with
  | nil => exact h
  | cons next path => exact h.1

theorem not_reaches_items (hno : ∀ name ∈ tree.names, s.is name = false) {e : List Name × RuntimeItem}
    (he : e ∈ tree.items) : ¬ Reaches s.start_ e.1 := by
  obtain ⟨name, path, hpath, hmem⟩ := RuntimeTree.path_of_items he
  intro hreach
  rw [hpath] at hreach
  exact absurd (reaches_head hreach) (Bool.eq_false_iff.mp (hno name hmem))

theorem not_reaches_sections (hno : ∀ name ∈ tree.names, s.is name = false) {p : List Name}
    (hp : p ∈ tree.sections) : ¬ Reaches s.start_ p := by
  obtain ⟨name, path, hpath, hmem⟩ := RuntimeTree.path_of_sections hp
  intro hreach
  rw [hpath] at hreach
  exact absurd (reaches_head hreach) (Bool.eq_false_iff.mp (hno name hmem))

/-- Nothing is in front of an empty key. -/
theorem not_is_nil (name : Name) : ({ s with start_ := [] } : RuntimeSetting).is name = false := by
  rw [Bool.eq_false_iff]
  intro his
  rw [is_iff, equal_ignore_case_iff] at his
  exact name.2.1 ((lower_eq_nil name.1).mp his)

end Names

namespace RuntimeTree

/-- The names of the items beside each other. -/
def itemNames : RuntimeTree → List Name
  | nil => []
  | item name _ rest => name :: rest.itemNames
  | «section» _ _ rest => rest.itemNames

/-- No item has the name of an item or a section beside it. Sections may be repeated. -/
def ItemsApart : RuntimeTree → Prop
  | nil => True
  | item name _ rest => (∀ other ∈ rest.names, equal_ignore_case name.1 other.1 = false) ∧ rest.ItemsApart
  | «section» name children rest =>
    (∀ other ∈ rest.itemNames, equal_ignore_case name.1 other.1 = false) ∧ children.ItemsApart ∧ rest.ItemsApart

theorem mem_names_of_itemNames {tree : RuntimeTree} {name : Name} (h : name ∈ tree.itemNames) : name ∈ tree.names := by
  induction tree with
  | nil => exact h
  | item other it rest ih =>
    obtain rfl | h := List.mem_cons.mp h
    · exact List.mem_cons_self
    · exact List.mem_cons_of_mem _ (ih h)
  | «section» other children rest _ ih => exact List.mem_cons_of_mem _ (ih h)

end RuntimeTree

section Idle

variable (lib : Library) {s : RuntimeSetting} {tree : RuntimeTree}

/-- Where no item has a name that is in front of the key, and no section or everything is handled, nothing is done. -/
theorem group_idle (hitems : ∀ name ∈ tree.itemNames, s.is name = false)
    (hsections : s.isHandled_ = true ∨ ∀ name ∈ tree.names, s.is name = false) :
    group lib tree s = ⟨tree, s, none⟩ := by
  induction tree with
  | nil => rfl
  | item name it rest ih =>
    have hrest := ih (fun other hother => hitems other (List.mem_cons_of_mem name hother))
      (hsections.imp id fun hno other hother => hno other (List.mem_cons_of_mem name hother))
    have hname := hitems name List.mem_cons_self
    rw [group, handle, if_neg (Bool.eq_false_iff.mp hname)]
    dsimp only
    rw [hrest]
  | «section» name children rest _ ih =>
    have hrest := ih hitems (hsections.imp id fun hno other hother => hno other (List.mem_cons_of_mem name hother))
    have hskip : ¬ (s.is name && !s.isHandled_) = true := by
      rw [Bool.and_eq_true, Bool.not_eq_true']
      rintro ⟨his, hopen⟩
      obtain hhandled | hno := hsections
      · exact Bool.noConfusion (hhandled.symm.trans hopen)
      · exact Bool.noConfusion (his.symm.trans (hno name List.mem_cons_self))
    rw [group, if_neg hskip]
    dsimp only
    rw [hrest]

theorem group_unnamed (hno : ∀ name ∈ tree.names, s.is name = false) : group lib tree s = ⟨tree, s, none⟩ :=
  group_idle lib (fun name h => hno name (RuntimeTree.mem_names_of_itemNames h)) (.inr hno)

end Idle

/-- What a walk does: the item whose path is in front of the key is answered, and everything else stays. -/
structure Walks (lib : Library) (tree : RuntimeTree) (s : RuntimeSetting) (g : Walked) : Prop where
  items : g.tree.items = tree.items.map fun e =>
    if Reaches s.start_ e.1 then (e.1, (e.2.answer lib s.newValue_).item) else e
  sections : g.tree.sections = tree.sections
  handled : g.handler.isHandled_ = true ↔ (∃ e ∈ tree.items, Reaches s.start_ e.1) ∨
    s.newValue_ = none ∧ ∃ p ∈ tree.sections, Reaches s.start_ p ∧ left s.start_ p = []
  single : tree.items.Pairwise fun a b => ¬ (Reaches s.start_ a.1 ∧ Reaches s.start_ b.1)
  alone : ∀ p ∈ tree.sections, Reaches s.start_ p → left s.start_ p = [] → ∀ e ∈ tree.items, ¬ Reaches s.start_ e.1

section Walk

variable (lib : Library) {s : RuntimeSetting} {rest children : RuntimeTree} {name : Name}

theorem behind_eq (key : Bytes) : (key.dropWhile (· ≠ 0x2f)).tail = Lines.behind slash key := by
  have hfun : (fun c : UInt8 => decide (c ≠ 0x2f)) = fun c => !slash c := by
    funext c
    rw [slash, decide_not]
  rw [hfun, Lines.behind]

/-- A section is entered where the key goes on. -/
theorem descends_iff (key : Bytes) :
    (key.dropWhile (· ≠ 0x2f)).head? = some 0x2f ∧ (key.dropWhile (· ≠ 0x2f)).tail ≠ [] ↔
      Lines.behind slash key ≠ [] := by
  rw [behind_eq]
  refine and_iff_right_of_imp fun hne => ?_
  cases hrest : key.dropWhile (· ≠ 0x2f) with
  | nil =>
    rw [← behind_eq, hrest] at hne
    exact absurd rfl hne
  | cons c rest =>
    have hhead := List.head_dropWhile_not (fun c : UInt8 => decide (c ≠ 0x2f)) (l := key)
      (by rw [hrest]; exact List.cons_ne_nil _ _)
    simp only [hrest, List.head_cons, decide_eq_false_iff_not, not_not] at hhead
    exact congrArg some hhead

/-- Items that are not in front of the key are left alone. -/
theorem map_unreached {entries : List (List Name × RuntimeItem)} {key : Bytes}
    (act : List Name × RuntimeItem → List Name × RuntimeItem) (hno : ∀ e ∈ entries, ¬ Reaches key e.1) :
    entries.map (fun e => if Reaches key e.1 then act e else e) = entries := by
  conv_rhs => rw [← List.map_id entries]
  exact List.map_congr_left fun e he => if_neg (hno e he)

theorem not_reaches_rest (his : s.is name = true)
    (hapart : ∀ other ∈ rest.names, equal_ignore_case name.1 other.1 = false) :
    ∀ other ∈ rest.names, s.is other = false :=
  fun other hother => not_is_of_apart (hapart other hother) his

theorem Walks.unnamed {tree : RuntimeTree} (hno : ∀ name ∈ tree.names, s.is name = false)
    (hopen : s.isHandled_ = false) : Walks lib tree s ⟨tree, s, none⟩ where
  items := (map_unreached _ fun _ he => not_reaches_items hno he).symm
  sections := rfl
  handled := by
    rw [hopen]
    refine iff_of_false Bool.false_ne_true ?_
    rintro (⟨e, he, hreach⟩ | ⟨-, p, hp, hreach, -⟩)
    · exact not_reaches_items hno he hreach
    · exact not_reaches_sections hno hp hreach
  single := List.pairwise_of_forall_mem_list fun a ha _ _ h => not_reaches_items hno ha h.1
  alone := fun _ hp hreach _ _ _ _ => not_reaches_sections hno hp hreach

/-- The item is the one in front of the key. -/
theorem walks_item (it : RuntimeItem) (his : s.is name = true)
    (hapart : ∀ other ∈ rest.names, equal_ignore_case name.1 other.1 = false) :
    Walks lib (.item name it rest) s (group lib (.item name it rest) s) := by
  have hrest := not_reaches_rest his hapart
  have hreach : Reaches s.start_ [name] := (is_iff s name).mp his
  have hgroup : ∃ failed, group lib (.item name it rest) s = ⟨.item name (it.answer lib s.newValue_).item rest,
      { s with isHandled_ := true, newValue_ := (it.answer lib s.newValue_).newValue_ }, failed⟩ := by
    have hidle := group_unnamed lib
      (s := { s with isHandled_ := true, newValue_ := (it.answer lib s.newValue_).newValue_ }) hrest
    rw [group, handle, if_pos his]
    dsimp only
    rw [hidle]
    cases (it.answer lib s.newValue_).failed with
    | some msg => exact ⟨some msg, rfl⟩
    | none => exact ⟨none, rfl⟩
  obtain ⟨failed, hgroup⟩ := hgroup
  rw [hgroup]
  exact {
    items := by
      rw [RuntimeTree.items, RuntimeTree.items, List.map_cons, if_pos hreach,
        map_unreached _ fun _ he => not_reaches_items hrest he]
    sections := rfl
    handled := iff_of_true rfl (.inl ⟨([name], it), List.mem_cons_self, hreach⟩)
    single := List.pairwise_cons.mpr ⟨fun b hb h => not_reaches_items hrest hb h.2,
      (Walks.unnamed lib (s := { s with isHandled_ := false }) hrest rfl).single⟩
    alone := fun _ hp hreach _ _ _ _ => not_reaches_sections hrest hp hreach }

/-- What stands in front of the others is not touched, as its name is another one. -/
theorem walks_after_item (it : RuntimeItem) (hnot : s.is name = false)
    (h : Walks lib rest s (group lib rest s)) :
    Walks lib (.item name it rest) s (group lib (.item name it rest) s) := by
  have hreach : ¬ Reaches s.start_ [name] := fun h => Bool.noConfusion (((is_iff s name).mpr h).symm.trans hnot)
  rw [group, handle, if_neg (Bool.eq_false_iff.mp hnot)]
  exact {
    items := by
      rw [RuntimeTree.items, RuntimeTree.items, List.map_cons, if_neg hreach, ← h.items]
    sections := h.sections
    handled := by
      refine h.handled.trans (or_congr_left ?_)
      rw [RuntimeTree.items]
      simp only [List.mem_cons, exists_eq_or_imp, or_iff_right hreach]
    single := List.pairwise_cons.mpr ⟨fun b _ h => hreach h.1, h.single⟩
    alone := fun p hp hr hleft e he => by
      obtain rfl | he := List.mem_cons.mp he
      · exact hreach
      · exact h.alone p hp hr hleft e he }

theorem walks_after_section (hnot : s.is name = false) (h : Walks lib rest s (group lib rest s)) :
    Walks lib (.section name children rest) s (group lib (.section name children rest) s) := by
  have hreach (path : List Name) : ¬ Reaches s.start_ (name :: path) := fun h =>
    Bool.noConfusion ((reaches_head h).symm.trans hnot)
  have hchildren : ∀ e ∈ children.items.map (fun e => (name :: e.1, e.2)), ¬ Reaches s.start_ e.1 := by
    intro e he
    obtain ⟨inner, -, rfl⟩ := List.mem_map.mp he
    exact hreach inner.1
  have hskip : ¬ (s.is name && !s.isHandled_) = true := by
    rw [hnot, Bool.false_and]
    exact Bool.false_ne_true
  rw [group, if_neg hskip]
  exact {
    items := by
      rw [RuntimeTree.items, RuntimeTree.items, List.map_append, map_unreached _ hchildren, ← h.items]
    sections := by
      rw [RuntimeTree.sections, RuntimeTree.sections, h.sections]
    handled := by
      refine h.handled.trans (or_congr ?_ (and_congr_right' ?_))
      · rw [RuntimeTree.items]
        constructor
        · rintro ⟨e, he, hr⟩
          exact ⟨e, List.mem_append_right _ he, hr⟩
        · rintro ⟨e, he, hr⟩
          exact ⟨e, (List.mem_append.mp he).resolve_left fun hc => hchildren e hc hr, hr⟩
      · rw [RuntimeTree.sections]
        constructor
        · rintro ⟨p, hp, hr⟩
          exact ⟨p, List.mem_append_right _ hp, hr⟩
        · rintro ⟨p, hp, hr⟩
          refine ⟨p, (List.mem_append.mp hp).resolve_left fun hc => ?_, hr⟩
          obtain rfl | hc := List.mem_cons.mp hc
          · exact hreach [] hr.1
          · obtain ⟨inner, -, rfl⟩ := List.mem_map.mp hc
            exact hreach inner hr.1
    single := List.pairwise_append.mpr ⟨List.pairwise_of_forall_mem_list fun a ha _ _ h => hchildren a ha h.1,
      h.single, fun a ha _ _ h => hchildren a ha h.1⟩
    alone := fun p hp hr hleft e he => by
      obtain he | he := List.mem_append.mp he
      · exact hchildren e he
      · refine h.alone p ((List.mem_append.mp hp).resolve_left fun hc => ?_) hr hleft e he
        obtain rfl | hc := List.mem_cons.mp hc
        · exact hreach [] hr
        · obtain ⟨inner, -, rfl⟩ := List.mem_map.mp hc
          exact hreach inner hr }

/-- The items of a section are reached where its name is the first component and theirs are the others. -/
theorem reaches_child {key : Bytes} (hname : equal_ignore_case name.1 (Lines.piece slash key) = true)
    {e : List Name × RuntimeItem} (he : e ∈ children.items) :
    Reaches key (name :: e.1) ↔ Reaches (Lines.behind slash key) e.1 := by
  obtain ⟨other, path, hpath, -⟩ := RuntimeTree.path_of_items he
  rw [hpath]
  exact and_iff_right hname

/-- The walk goes on in the section that is the one in front of the key, and there only. -/
theorem walks_child (his : s.is name = true) (hopen : s.isHandled_ = false) (hmore : Lines.behind slash s.start_ ≠ [])
    (hapart : ∀ other ∈ rest.names, equal_ignore_case name.1 other.1 = false)
    (h : Walks lib children { s with start_ := Lines.behind slash s.start_ }
      (group lib children { s with start_ := Lines.behind slash s.start_ })) :
    Walks lib (.section name children rest) s (group lib (.section name children rest) s) := by
  have hrest := not_reaches_rest his hapart
  have hname := (is_iff s name).mp his
  have hgroup : ∃ handler failed, group lib (.section name children rest) s =
      ⟨.section name (group lib children { s with start_ := Lines.behind slash s.start_ }).tree rest, handler, failed⟩ ∧
        handler.isHandled_ =
          (group lib children { s with start_ := Lines.behind slash s.start_ }).handler.isHandled_ := by
    have hidle := group_unnamed lib
      (s := { (group lib children { s with start_ := Lines.behind slash s.start_ }).handler with start_ := s.start_
        }) hrest
    rw [group, if_pos (by rw [his, hopen]; rfl)]
    dsimp only
    rw [if_pos ((descends_iff s.start_).mpr hmore), behind_eq, hidle]
    cases (group lib children { s with start_ := Lines.behind slash s.start_ }).failed with
    | some msg => exact ⟨_, _, rfl, rfl⟩
    | none => exact ⟨_, _, rfl, rfl⟩
  obtain ⟨handler, failed, hgroup, hhandled⟩ := hgroup
  rw [hgroup]
  exact {
    items := by
      rw [RuntimeTree.items, RuntimeTree.items, List.map_append, map_unreached _ fun _ he => not_reaches_items hrest he,
        h.items, List.map_map, List.map_map]
      refine congrArg (· ++ _) (List.map_congr_left fun e he => ?_)
      have hchild := reaches_child hname he
      dsimp only [Function.comp]
      by_cases hreach : Reaches (Lines.behind slash s.start_) e.1
      · rw [if_pos hreach, if_pos (hchild.mpr hreach)]
      · rw [if_neg hreach, if_neg fun h => hreach (hchild.mp h)]
    sections := by
      rw [RuntimeTree.sections, RuntimeTree.sections, h.sections]
    handled := by
      rw [hhandled, h.handled]
      refine or_congr ?_ (and_congr_right' ?_)
      · rw [RuntimeTree.items]
        constructor
        · rintro ⟨e, he, hr⟩
          exact ⟨(name :: e.1, e.2), List.mem_append_left _ (List.mem_map_of_mem he), (reaches_child hname he).mpr hr⟩
        · rintro ⟨e, he, hr⟩
          obtain ⟨inner, hinner, rfl⟩ :=
            List.mem_map.mp ((List.mem_append.mp he).resolve_right fun hc => not_reaches_items hrest hc hr)
          exact ⟨inner, hinner, (reaches_child hname hinner).mp hr⟩
      · rw [RuntimeTree.sections]
        constructor
        · rintro ⟨p, hp, hr, hleft⟩
          obtain ⟨other, path, rfl, -⟩ := RuntimeTree.path_of_sections hp
          exact ⟨name :: other :: path, List.mem_append_left _ (List.mem_cons_of_mem _ (List.mem_map_of_mem hp)),
            ⟨hname, hr⟩, hleft⟩
        · rintro ⟨p, hp, hr, hleft⟩
          obtain rfl | hc := List.mem_cons.mp
            ((List.mem_append.mp hp).resolve_right fun hc => not_reaches_sections hrest hc hr)
          · exact absurd hleft hmore
          · obtain ⟨inner, hinner, rfl⟩ := List.mem_map.mp hc
            obtain ⟨other, path, rfl, -⟩ := RuntimeTree.path_of_sections hinner
            exact ⟨other :: path, hinner, hr.2, hleft⟩
    single := by
      refine List.pairwise_append.mpr ⟨List.pairwise_map.mpr ?_,
        List.pairwise_of_forall_mem_list fun a ha _ _ h => not_reaches_items hrest ha h.1,
        fun _ _ b hb h => not_reaches_items hrest hb h.2⟩
      refine h.single.imp_of_mem fun {a b} ha hb hnot hboth => hnot ?_
      exact ⟨(reaches_child hname ha).mp hboth.1, (reaches_child hname hb).mp hboth.2⟩
    alone := fun p hp hr hleft e he => by
      obtain he | he := List.mem_append.mp he
      · obtain ⟨inner, hinner, rfl⟩ := List.mem_map.mp he
        rw [reaches_child hname hinner]
        obtain rfl | hc := List.mem_cons.mp
          ((List.mem_append.mp hp).resolve_right fun hc => not_reaches_sections hrest hc hr)
        · exact absurd hleft hmore
        · obtain ⟨path, hpath, rfl⟩ := List.mem_map.mp hc
          obtain ⟨other, path, rfl, -⟩ := RuntimeTree.path_of_sections hpath
          exact h.alone (other :: path) hpath hr.2 hleft inner hinner
      · exact not_reaches_items hrest he }

/-- A section at the end of the key is displayed, and a value is not set. -/
theorem walks_section (his : s.is name = true) (hopen : s.isHandled_ = false) (hlast : Lines.behind slash s.start_ = [])
    (hapart : ∀ other ∈ rest.names, equal_ignore_case name.1 other.1 = false) :
    Walks lib (.section name children rest) s (group lib (.section name children rest) s) := by
  have hrest := not_reaches_rest his hapart
  have hname := (is_iff s name).mp his
  have hgroup : group lib (.section name children rest) s = ⟨.section name children rest,
      if s.newValue_ = none then { s with isHandled_ := true } else s, none⟩ := by
    have hidle : group lib rest (if s.newValue_ = none then { s with isHandled_ := true } else s) =
        ⟨rest, if s.newValue_ = none then { s with isHandled_ := true } else s, none⟩ := by
      refine group_unnamed lib ?_
      split
      · exact hrest
      · exact hrest
    rw [group, if_pos (by rw [his, hopen]; rfl)]
    dsimp only
    rw [if_neg fun h => (descends_iff s.start_).mp h hlast, hidle]
  have hchildren (path : List Name) (hne : path ≠ []) : ¬ Reaches s.start_ (name :: path) := by
    rw [reaches_cons s.start_ name hne, hlast]
    rintro ⟨-, hreach⟩
    obtain ⟨other, more, rfl⟩ := List.exists_cons_of_ne_nil hne
    exact Bool.noConfusion ((not_is_nil other).symm.trans (reaches_head (s := { s with start_ := [] }) hreach))
  have hitems : ∀ e ∈ (RuntimeTree.section name children rest).items, ¬ Reaches s.start_ e.1 := by
    intro e he
    obtain hc | hc := List.mem_append.mp he
    · obtain ⟨inner, hinner, rfl⟩ := List.mem_map.mp hc
      obtain ⟨other, path, hpath, -⟩ := RuntimeTree.path_of_items hinner
      exact hchildren inner.1 (by rw [hpath]; exact List.cons_ne_nil _ _)
    · exact not_reaches_items hrest hc
  rw [hgroup]
  exact {
    items := (map_unreached _ hitems).symm
    sections := rfl
    handled := by
      have hsection : ∃ p ∈ (RuntimeTree.section name children rest).sections,
          Reaches s.start_ p ∧ left s.start_ p = [] := ⟨[name], List.mem_cons_self, hname, hlast⟩
      have hnone : ¬ ∃ e ∈ (RuntimeTree.section name children rest).items, Reaches s.start_ e.1 := by
        rintro ⟨e, he, hreach⟩
        exact hitems e he hreach
      rw [or_iff_right hnone, and_iff_left hsection]
      by_cases hvalue : s.newValue_ = none
      · rw [if_pos hvalue]
        exact iff_of_true rfl hvalue
      · rw [if_neg hvalue, hopen]
        exact iff_of_false Bool.false_ne_true hvalue
    single := List.pairwise_of_forall_mem_list fun a ha _ _ h => hitems a ha h.1
    alone := fun _ _ _ _ e he => hitems e he }

/-- A walk over a configuration answers the one item in front of the key, if there is one. -/
theorem group_walks {tree : RuntimeTree} (hapart : tree.Apart) (hopen : s.isHandled_ = false) :
    Walks lib tree s (group lib tree s) := by
  induction tree generalizing s with
  | nil => exact Walks.unnamed lib (fun name h => by cases h) hopen
  | item name it rest ih =>
    cases his : s.is name with
    | true => exact walks_item lib it his hapart.1
    | false => exact walks_after_item lib it his (ih hapart.2 hopen)
  | «section» name children rest ihchildren ih =>
    cases his : s.is name with
    | true =>
      by_cases hlast : Lines.behind slash s.start_ = []
      · exact walks_section lib his hopen hlast hapart.1
      · exact walks_child lib his hopen hlast hapart.1 (ihchildren hapart.2.1 hopen)
    | false => exact walks_after_section lib his (ih hapart.2.2 hopen)

end Walk

/-- A configuration: no two names beside each other are the same up to case. -/
structure RuntimeConfig where
  root : RuntimeTree
  apart : root.Apart

/-- A number that is displayed is in its range, if its function looks at that. -/
def RuntimeItem.InRange : RuntimeItem → Prop
  | ranged (.uint32 minValue maxValue value) => minValue ≤ value ∧ value ≤ maxValue
  | _ => True

/-- A key addresses one item: what its value changes is the item with that path, it is handled where there is one, or
a section to display, and without a value nothing changes. -/
structure Precise (key : Bytes) (value : Option Bytes) (tree : RuntimeTree) (g : Walked) : Prop where
  frame : List.Forall₂ (fun before after => after.1 = before.1 ∧ (after.2 = before.2 ∨ Addresses key before.1))
    tree.items g.tree.items
  sections : g.tree.sections = tree.sections
  single : tree.items.Pairwise fun a b => ¬ (Addresses key a.1 ∧ Addresses key b.1)
  handled : g.handler.isHandled_ = true ↔ (∃ e ∈ tree.items, Addresses key e.1) ∨
    value = none ∧ ∃ p ∈ tree.sections, Addresses key p
  display : value = none → g.tree.items = tree.items

/-- No item is in front of more than a slash of the key, and what is displayed is in range. -/
structure Fits (key : Bytes) (value : Option Bytes) (tree : RuntimeTree) : Prop where
  ends : ∀ e ∈ tree.items, ¬ GoesOn key e.1
  inRange : value = none → ∀ e ∈ tree.items, Addresses key e.1 → e.2.InRange

instance (key : Bytes) (path : List Name) : Decidable (Addresses key path) :=
  inferInstanceAs (Decidable (∃ lead ∈ ([[], [0x2f]] : List Bytes), ∃ trail ∈ ([[], [0x2f]] : List Bytes),
    equal_ignore_case key (lead ++ fullPath path ++ trail) = true))

section InRange

variable {key : Bytes} {tree : RuntimeTree} {e : List Name × RuntimeItem}

theorem display_eq_iff (it : RuntimeItem) : it.display = it ↔ it.InRange := by
  cases it with
  | ranged item =>
    cases item with
    | uint32 minValue maxValue value =>
      rw [RuntimeItem.display, RuntimeItem.InRange, RuntimeItem.ranged.injEq, RangedItem.uint32.injEq,
        and_iff_right rfl, and_iff_right rfl, constrain_with_message]
      by_cases hout : value < minValue ∨ maxValue < value
      · rw [if_pos hout, myConstrain]
        refine iff_of_false ?_ ?_
        · split
          case isTrue hlow => exact fun heq => absurd hlow (heq ▸ UInt32.lt_irrefl minValue)
          case isFalse hlow =>
            have hhigh := hout.resolve_left hlow
            rw [if_pos hhigh]
            exact fun heq => absurd hhigh (heq ▸ UInt32.lt_irrefl maxValue)
        · rintro ⟨hlow, hhigh⟩
          exact hout.elim (UInt32.not_lt.mpr hlow) (UInt32.not_lt.mpr hhigh)
      · rw [if_neg hout]
        exact iff_of_true rfl ⟨UInt32.not_lt.mp fun h => hout (.inl h), UInt32.not_lt.mp fun h => hout (.inr h)⟩
    | int32 minValue maxValue value => exact iff_of_true rfl trivial
    | float minValue maxValue value => exact iff_of_true rfl trivial
  | _ => exact iff_of_true rfl trivial

theorem addresses_item_iff (he : e ∈ tree.items) :
    Addresses key e.1 ↔ Reaches (stripped key) e.1 ∧ left (stripped key) e.1 = [] := by
  obtain ⟨name, path, hpath, -⟩ := RuntimeTree.path_of_items he
  exact addresses_iff (by rw [hpath]; exact List.cons_ne_nil _ _) key

theorem goesOn_item_iff (he : e ∈ tree.items) :
    GoesOn key e.1 ↔ Reaches (stripped key) e.1 ∧ left (stripped key) e.1 ≠ [] := by
  obtain ⟨name, path, hpath, -⟩ := RuntimeTree.path_of_items he
  exact goesOn_iff (by rw [hpath]; exact List.cons_ne_nil _ _) key

theorem addresses_section_iff {p : List Name} (hp : p ∈ tree.sections) :
    Addresses key p ↔ Reaches (stripped key) p ∧ left (stripped key) p = [] := by
  obtain ⟨name, path, hpath, -⟩ := RuntimeTree.path_of_sections hp
  exact addresses_iff (by rw [hpath]; exact List.cons_ne_nil _ _) key

end InRange

/-- The handler addresses one item exactly where the key does not go on behind an item, and a number that is only
displayed is in its range. -/
theorem group_precise_iff (lib : Library) (config : RuntimeConfig) (key : Bytes) (value : Option Bytes) :
    Precise key value config.root (group lib config.root (ofKey key value)) ↔ Fits key value config.root := by
  have hwalk := group_walks lib config.apart (s := ofKey key value) rfl
  have hitems := hwalk.items
  have hhandled := hwalk.handled
  have hsingle := hwalk.single
  have halone := hwalk.alone
  change _ = config.root.items.map
    (fun e => if Reaches (stripped key) e.1 then (e.1, (e.2.answer lib value).item) else e) at hitems
  change _ ↔ (∃ e ∈ config.root.items, Reaches (stripped key) e.1) ∨
    value = none ∧ ∃ p ∈ config.root.sections, Reaches (stripped key) p ∧ left (stripped key) p = [] at hhandled
  change config.root.items.Pairwise fun a b => ¬ (Reaches (stripped key) a.1 ∧ Reaches (stripped key) b.1) at hsingle
  constructor
  · intro h
    refine ⟨fun e he hgoes => ?_, fun hvalue e he haddressed => ?_⟩
    · obtain ⟨hreach, hmore⟩ := (goesOn_item_iff he).mp hgoes
      obtain ⟨other, hother, haddressed⟩ | ⟨-, p, hp, haddressed⟩ :=
        h.handled.mp (hhandled.mpr (.inl ⟨e, he, hreach⟩))
      · obtain ⟨hreach', hleft⟩ := (addresses_item_iff hother).mp haddressed
        by_cases hsame : e = other
        · subst hsame
          exact hmore hleft
        · have : Std.Symm fun a b : List Name × RuntimeItem =>
              ¬ (Reaches (stripped key) a.1 ∧ Reaches (stripped key) b.1) := ⟨fun a b hnot hboth => hnot hboth.symm⟩
          exact hsingle.forall he hother hsame ⟨hreach, hreach'⟩
      · obtain ⟨hreach', hleft⟩ := (addresses_section_iff hp).mp haddressed
        exact halone p hp hreach' hleft e he hreach
    · have hreach := ((addresses_item_iff he).mp haddressed).1
      have hsame : config.root.items.map (fun e =>
          if Reaches (stripped key) e.1 then (e.1, (e.2.answer lib value).item) else e) = config.root.items.map id := by
        rw [← hitems, h.display hvalue, List.map_id]
      have hitem := List.map_inj_left.mp hsame e he
      rw [if_pos hreach, hvalue] at hitem
      exact (display_eq_iff e.2).mp (congrArg Prod.snd hitem)
  · intro h
    have hiff : ∀ e ∈ config.root.items, (Reaches (stripped key) e.1 ↔ Addresses key e.1) := by
      intro e he
      rw [addresses_item_iff he]
      refine (and_iff_left_of_imp fun hreach => ?_).symm
      by_contra hmore
      exact h.ends e he ((goesOn_item_iff he).mpr ⟨hreach, hmore⟩)
    exact {
      frame := by
        rw [hitems, List.forall₂_map_right_iff, List.forall₂_same]
        intro e he
        by_cases hreach : Reaches (stripped key) e.1
        · rw [if_pos hreach]
          exact ⟨rfl, .inr ((hiff e he).mp hreach)⟩
        · rw [if_neg hreach]
          exact ⟨rfl, .inl rfl⟩
      sections := hwalk.sections
      single := hsingle.imp_of_mem fun {a b} ha hb hnot hboth =>
        hnot ⟨(hiff a ha).mpr hboth.1, (hiff b hb).mpr hboth.2⟩
      handled := by
        refine hhandled.trans (or_congr (exists_congr fun e => and_congr_right fun he => hiff e he) ?_)
        exact and_congr_right' (exists_congr fun p => and_congr_right fun hp => (addresses_section_iff hp).symm)
      display := by
        intro hvalue
        rw [hitems]
        conv_rhs => rw [← List.map_id config.root.items]
        refine List.map_congr_left fun e he => ?_
        by_cases hreach : Reaches (stripped key) e.1
        · have hrange := h.inRange hvalue e he ((hiff e he).mp hreach)
          rw [if_pos hreach, hvalue, RuntimeItem.answer, (display_eq_iff e.2).mpr hrange]
          rfl
        · rw [if_neg hreach]
          rfl }

/-- A configuration with the item `axes/homing_runs`. -/
def homing_runs_only : RuntimeConfig where
  root := .section ⟨bytes "axes", by decide, List.all_eq_true.mp (by decide)⟩
    (.item ⟨bytes "homing_runs", by decide, List.all_eq_true.mp (by decide)⟩ (.ranged (.uint32 1 5 2)) .nil) .nil
  apart := ⟨(fun _ h => by cases h), ⟨(fun _ h => by cases h), trivial⟩, trivial⟩

/-- Behind the item's path the key goes on, and the item is set all the same. -/
theorem longer_key_sets_item :
    let lib : Library := ⟨fun _ => (Binary32.round false 0, []), fun _ => none⟩
    let key := bytes "/axes/homing_runs/speed"
    ¬ Precise key (some (bytes "5")) homing_runs_only.root
      (group lib homing_runs_only.root (ofKey key (some (bytes "5")))) := by
  intro lib key h
  have hhandled : (group lib homing_runs_only.root (ofKey key (some (bytes "5")))).handler.isHandled_ = true := by
    decide
  have hnone : ¬ ((∃ e ∈ homing_runs_only.root.items, Addresses key e.1) ∨
      some (bytes "5") = none ∧ ∃ p ∈ homing_runs_only.root.sections, Addresses key p) := by
    decide
  exact hnone (h.handled.mp hhandled)

end DuneWeaver.Configuration
