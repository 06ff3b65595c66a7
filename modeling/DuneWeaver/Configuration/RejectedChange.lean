import DuneWeaver.Configuration.RuntimeWalk

namespace DuneWeaver.Configuration

open RuntimeSetting

section Failure

variable (lib : Library)

/-- An item whose function throws is not written. -/
theorem store_failed {newValue_ msg : Bytes} {it : RuntimeItem} (h : (it.store lib newValue_).failed = some msg) :
    (it.store lib newValue_).item = it := by
  cases it with
  | ranged item => cases item <;> cases h
  | speeds value =>
    rw [RuntimeItem.store] at h ⊢
    dsimp only at h ⊢
    cases hread : speedMap lib newValue_ [] with
    | ok value =>
      rw [hread] at h
      cases h
    | error msg => rfl
  | floats value =>
    rw [RuntimeItem.store] at h ⊢
    dsimp only at h ⊢
    cases hread : floatList lib newValue_ [] with
    | ok value =>
      rw [hread] at h
      cases h
    | error msg => rfl
  | ip value =>
    rw [RuntimeItem.store] at h ⊢
    dsimp only at h ⊢
    cases hread : lib.fromString newValue_ with
    | some value =>
      rw [hread] at h
      cases h
    | none => rfl
  | enum e value =>
    rw [RuntimeItem.store] at h ⊢
    dsimp only at h ⊢
    cases hread : RuntimeItem.enumValue e newValue_ with
    | some found =>
      rw [hread] at h
      cases h
    | none => rfl
  | _ => cases h

theorem answer_failed {newValue_ : Option Bytes} {msg : Bytes} {it : RuntimeItem}
    (h : (it.answer lib newValue_).failed = some msg) : (it.answer lib newValue_).item = it := by
  cases newValue_ with
  | none => cases h
  | some newValue_ => exact store_failed lib h

variable {tree : RuntimeTree} {s : RuntimeSetting}

/-- What is handled stays handled. -/
theorem group_handled (h : s.isHandled_ = true) : (group lib tree s).handler.isHandled_ = true := by
  induction tree generalizing s with
  | nil => exact h
  | item name it rest ih =>
    cases his : s.is name with
    | false =>
      rw [group, handle, if_neg (Bool.eq_false_iff.mp his)]
      exact ih h
    | true =>
      rw [group, handle, if_pos his]
      dsimp only
      cases (it.answer lib s.newValue_).failed with
      | some msg => rfl
      | none => exact ih rfl
  | «section» name children rest _ ih =>
    have hskip : ¬ (s.is name && !s.isHandled_) = true := by
      rw [h, Bool.not_true, Bool.and_false]
      exact Bool.false_ne_true
    rw [group, if_neg hskip]
    exact ih h

/-- Where nothing is handled, nothing is done. -/
theorem group_unhandled (h : (group lib tree s).handler.isHandled_ = false) :
    (group lib tree s).tree = tree ∧ (group lib tree s).failed = none := by
  induction tree generalizing s with
  | nil => exact ⟨rfl, rfl⟩
  | item name it rest ih =>
    cases his : s.is name with
    | false =>
      rw [group, handle, if_neg (Bool.eq_false_iff.mp his)] at h ⊢
      dsimp only at h ⊢
      obtain ⟨htree, hfailed⟩ := ih h
      rw [htree]
      exact ⟨rfl, hfailed⟩
    | true =>
      rw [group, handle, if_pos his] at h
      dsimp only at h
      cases hanswer : (it.answer lib s.newValue_).failed with
      | some msg =>
        rw [hanswer] at h
        cases h
      | none =>
        rw [hanswer] at h
        dsimp only at h
        rw [group_handled lib rfl] at h
        cases h
  | «section» name children rest ihchildren ih =>
    by_cases henter : (s.is name && !s.isHandled_) = true
    · rw [group, if_pos henter] at h ⊢
      dsimp only at h ⊢
      by_cases hmore : (s.start_.dropWhile (· ≠ 0x2f)).head? = some 0x2f ∧ (s.start_.dropWhile (· ≠ 0x2f)).tail ≠ []
      · rw [if_pos hmore] at h ⊢
        cases hinner : (group lib children { s with start_ := (s.start_.dropWhile (· ≠ 0x2f)).tail }).failed with
        | some msg =>
          rw [hinner] at h
          rw [(ihchildren h).2] at hinner
          cases hinner
        | none =>
          rw [hinner] at h
          dsimp only at h ⊢
          obtain ⟨htree, hfailed⟩ := ih h
          have hopen :
              (group lib children { s with start_ := (s.start_.dropWhile (· ≠ 0x2f)).tail }).handler.isHandled_ =
              false := by
            by_contra hhandled
            exact Bool.noConfusion (h.symm.trans (group_handled lib (Bool.eq_true_of_not_eq_false hhandled)))
          rw [htree, (ihchildren hopen).1]
          exact ⟨rfl, hfailed⟩
      · rw [if_neg hmore] at h ⊢
        dsimp only at h ⊢
        obtain ⟨htree, hfailed⟩ := ih h
        rw [htree]
        exact ⟨rfl, hfailed⟩
    · rw [group, if_neg henter] at h ⊢
      dsimp only at h ⊢
      obtain ⟨htree, hfailed⟩ := ih h
      rw [htree]
      exact ⟨rfl, hfailed⟩

/-- An assertion that fails in a walk leaves the configuration as it was. -/
theorem group_failed (hapart : tree.ItemsApart) {msg : Bytes} (h : (group lib tree s).failed = some msg) :
    (group lib tree s).tree = tree := by
  induction tree generalizing s msg with
  | nil => rfl
  | item name it rest ih =>
    cases his : s.is name with
    | false =>
      rw [group, handle, if_neg (Bool.eq_false_iff.mp his)] at h ⊢
      dsimp only at h ⊢
      rw [ih hapart.2 h]
    | true =>
      have hidle (handler : RuntimeSetting) (hstart : handler.start_ = s.start_)
          (hhandled : handler.isHandled_ = true) :
          group lib rest handler = ⟨rest, handler, none⟩ := by
        refine group_idle lib (fun other hother => ?_) (.inl hhandled)
        rw [is, hstart]
        exact not_is_of_apart (hapart.1 other (RuntimeTree.mem_names_of_itemNames hother)) his
      rw [group, handle, if_pos his] at h ⊢
      dsimp only at h ⊢
      cases hanswer : (it.answer lib s.newValue_).failed with
      | some msg =>
        dsimp only
        rw [answer_failed lib hanswer]
      | none =>
        have hrest := hidle
          { s with isHandled_ := true, newValue_ := (it.answer lib s.newValue_).newValue_ } rfl rfl
        rw [hanswer, hrest] at h
        cases h
  | «section» name children rest ihchildren ih =>
    by_cases henter : (s.is name && !s.isHandled_) = true
    · have his := (Bool.and_eq_true_iff.mp henter).1
      have hidle (handler : RuntimeSetting) (hstart : handler.start_ = s.start_)
          (hhandled : handler.isHandled_ = true) :
          group lib rest handler = ⟨rest, handler, none⟩ := by
        refine group_idle lib (fun other hother => ?_) (.inl hhandled)
        rw [is, hstart]
        exact not_is_of_apart (hapart.1 other hother) his
      rw [group, if_pos henter] at h ⊢
      dsimp only at h ⊢
      by_cases hmore : (s.start_.dropWhile (· ≠ 0x2f)).head? = some 0x2f ∧ (s.start_.dropWhile (· ≠ 0x2f)).tail ≠ []
      · rw [if_pos hmore] at h ⊢
        cases hinner : (group lib children { s with start_ := (s.start_.dropWhile (· ≠ 0x2f)).tail }).failed with
        | some msg =>
          dsimp only
          rw [ihchildren hapart.2.1 hinner]
        | none =>
          rw [hinner] at h
          dsimp only at h ⊢
          by_cases hhandled : (group lib children
              { s with start_ := (s.start_.dropWhile (· ≠ 0x2f)).tail }).handler.isHandled_ = true
          · have hrest := hidle { (group lib children
              { s with start_ := (s.start_.dropWhile (· ≠ 0x2f)).tail }).handler with start_ := s.start_ } rfl hhandled
            rw [hrest] at h
            cases h
          · rw [(group_unhandled lib (Bool.eq_false_iff.mpr hhandled)).1, ih hapart.2.2 h]
      · rw [if_neg hmore] at h ⊢
        dsimp only at h ⊢
        by_cases hvalue : s.newValue_ = none
        · have hrest := hidle { s with isHandled_ := true } rfl rfl
          rw [if_pos hvalue, hrest] at h
          cases h
        · rw [if_neg hvalue] at h ⊢
          rw [ih hapart.2.2 h]
    · rw [group, if_neg henter] at h ⊢
      dsimp only at h ⊢
      rw [ih hapart.2.2 h]

end Failure

section Names

variable (lib : Library)

/-- A walk leaves the names as they are. -/
theorem group_names (tree : RuntimeTree) (s : RuntimeSetting) :
    (group lib tree s).tree.names = tree.names ∧ (group lib tree s).tree.itemNames = tree.itemNames ∧
      (tree.ItemsApart → (group lib tree s).tree.ItemsApart) := by
  induction tree generalizing s with
  | nil => exact ⟨rfl, rfl, id⟩
  | item name it rest ih =>
    rw [group]
    dsimp only
    split
    · exact ⟨rfl, rfl, id⟩
    · obtain ⟨hnames, hitems, hapart⟩ := ih (s.handle lib name it).2
      refine ⟨congrArg (name :: ·) hnames, congrArg (name :: ·) hitems, fun h => ⟨?_, hapart h.2⟩⟩
      rw [hnames]
      exact h.1
  | «section» name children rest ihchildren ih =>
    have hrest (handler : RuntimeSetting) (inner : RuntimeTree) (hinner : children.ItemsApart → inner.ItemsApart) :
        (RuntimeTree.section name inner (group lib rest handler).tree).names = name :: rest.names ∧
          (RuntimeTree.section name inner (group lib rest handler).tree).itemNames = rest.itemNames ∧
          ((RuntimeTree.section name children rest).ItemsApart →
            (RuntimeTree.section name inner (group lib rest handler).tree).ItemsApart) := by
      obtain ⟨hnames, hitems, hapart⟩ := ih handler
      refine ⟨congrArg (name :: ·) hnames, hitems, fun h => ⟨?_, hinner h.2.1, hapart h.2.2⟩⟩
      rw [hitems]
      exact h.1
    rw [group]
    split
    · dsimp only
      split
      · split
        · exact ⟨rfl, rfl, fun h => ⟨h.1, (ihchildren _).2.2 h.2.1, h.2.2⟩⟩
        · exact hrest _ _ (ihchildren _).2.2
      · exact hrest _ _ id
    · exact hrest _ _ id

end Names

/-- A configuration whose items can be told from what is beside them. -/
abbrev ConfigTree := { tree : RuntimeTree // tree.ItemsApart }

/-- What the sections check: `validate` and `afterParse` of the section with a path, which may change something and
may fail an assertion, and `afterParse` of the machine, which has none. The machine's `validate` is empty. An
`AssertionFailed` is not a `std::exception`, and a check throws nothing else. -/
structure Checks where
  validate : List Name → ConfigTree → ConfigTree × Option Bytes
  afterParse : List Name → ConfigTree → ConfigTree × Option Bytes
  machineAfterParse : ConfigTree → ConfigTree

/-- The answers that are given here. -/
inductive ConfigError where
  | Ok
  | ConfigurationInvalid

/-- The configuration, and whether the machine is in the alarm for a bad one. -/
structure ConfigState where
  tree : ConfigTree
  alarm : Bool

section Change

variable (lib : Library) (checks : Checks)

/-- The walk of a `Validator` or an `AfterParse` over sections. An assertion that fails in a section is caught where
the section is entered, and the walk goes on. -/
def enterSections (check : List Name → ConfigTree → ConfigTree × Option Bytes) :
    List (List Name) → ConfigState → ConfigState
  | [], c => c
  | path :: paths, c =>
    let (tree, failed) := check path c.tree
    enterSections check paths { tree, alarm := c.alarm || failed.isSome }

/-- The part of `do_command_or_setting` that looks for the key in the configuration; without an answer the search
goes on in the settings. -/
def do_command_or_setting (key : Bytes) (value : Option Bytes) (c : ConfigState) : Option ConfigError × ConfigState :=
  let rts := group lib c.tree.1 (ofKey key value)
  let changed := { c with tree := ⟨rts.tree, (group_names lib c.tree.1 (ofKey key value)).2.2 c.tree.2⟩ }
  match rts.failed with
  -- thrown out of the walk
  | some _ => (some .ConfigurationInvalid, changed)
  | none =>
    if !rts.handler.isHandled_ then (none, changed)
    else if value = none then (some .Ok, changed)
    else
      -- no assertion gets out of the walks, so there is nothing for the handlers around them to catch
      let validated := enterSections checks.validate changed.tree.1.sections changed
      let parsed := { validated with tree := checks.machineAfterParse validated.tree }
      (some .Ok, enterSections checks.afterParse parsed.tree.1.sections parsed)

/-- A change is rejected where the item's function throws, and nowhere else. -/
theorem configurationInvalid_iff (key : Bytes) (value : Option Bytes) (c : ConfigState) :
    (do_command_or_setting lib checks key value c).1 = some .ConfigurationInvalid ↔
      ∃ msg, (group lib c.tree.1 (ofKey key value)).failed = some msg := by
  rw [do_command_or_setting]
  dsimp only
  cases (group lib c.tree.1 (ofKey key value)).failed with
  | some msg => exact iff_of_true rfl ⟨msg, rfl⟩
  | none =>
    refine iff_of_false (fun h => ?_) fun h => by obtain ⟨msg, h⟩ := h; cases h
    dsimp only at h
    split at h
    · cases h
    · split at h
      · cases h
      · cases h

/-- A rejected change leaves everything as it was, so what comes later is judged as if it had not been sent. -/
theorem rejected_change (key : Bytes) (value : Option Bytes) (c : ConfigState)
    (h : (do_command_or_setting lib checks key value c).1 = some .ConfigurationInvalid) :
    (do_command_or_setting lib checks key value c).2.tree = c.tree ∧
      ∀ laterKey laterValue,
        do_command_or_setting lib checks laterKey laterValue (do_command_or_setting lib checks key value c).2 =
          do_command_or_setting lib checks laterKey laterValue c := by
  obtain ⟨msg, hfailed⟩ := (configurationInvalid_iff lib checks key value c).mp h
  have hsame : (do_command_or_setting lib checks key value c).2 = c := by
    rw [do_command_or_setting]
    dsimp only
    rw [hfailed]
    dsimp only
    have htree : (⟨(group lib c.tree.1 (ofKey key value)).tree,
        (group_names lib c.tree.1 (ofKey key value)).2.2 c.tree.2⟩ : ConfigTree) = c.tree :=
      Subtype.ext (group_failed lib c.tree.2 hfailed)
    rw [htree]
  rw [hsame]
  exact ⟨rfl, fun _ _ => rfl⟩

end Change

/-- A configuration with the item `stepping/engine`, of which two values are known. -/
def engine_only : ConfigTree :=
  let engines : EnumItems :=
    { items := [(⟨bytes "Timed", by decide, List.all_eq_true.mp (by decide)⟩, 0),
        (⟨bytes "RMT", by decide, List.all_eq_true.mp (by decide)⟩, 1)], defaultValue := 1, apart := by decide }
  ⟨.section ⟨bytes "stepping", by decide, List.all_eq_true.mp (by decide)⟩
    (.item ⟨bytes "engine", by decide, List.all_eq_true.mp (by decide)⟩ (.enum engines 1) .nil) .nil,
    (fun _ h => by cases h), ⟨(fun _ h => by cases h), trivial⟩, trivial⟩

theorem unknown_engine_is_rejected :
    let lib : Library := ⟨fun _ => (Binary32.round false 0, []), fun _ => none⟩
    let checks : Checks :=
      ⟨fun _ tree => (tree, some (bytes "Homing cycle must be defined")), fun _ tree => (tree, none), id⟩
    let line := do_command_or_setting lib checks (bytes "/stepping/engine") (some (bytes "steam"))
    (line ⟨engine_only, false⟩).1 = some .ConfigurationInvalid ∧ (line ⟨engine_only, false⟩).2.tree = engine_only :=
  ⟨rfl, (rejected_change _ _ _ _ ⟨engine_only, false⟩ rfl).1⟩

end DuneWeaver.Configuration
