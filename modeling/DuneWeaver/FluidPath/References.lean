import DuneWeaver.Leases.Holders
import DuneWeaver.Transition.Run

namespace DuneWeaver

/-- The error codes a `FluidPath` constructor reports. `sd_mount` has its own. -/
inductive PathError where
  | invalid_argument
  | SDNotConfigured
  | sd_mount (code : Nat)
  deriving DecidableEq

/-- A `FluidPath`: the components its path iterates over, and whether its
destructor gives a mount reference back. -/
structure FluidPath where
  path : List String := []
  isSD : Bool := false
  deriving DecidableEq

/-- The SD card driver and `FluidPath::_refcnt`, which all paths share. -/
structure SdMount where
  refcnt : Nat := 0
  mounted : Bool := false
  deriving DecidableEq

/-- What a constructor finds out about the card: whether it is configured, and the
error code of `sd_mount` if mounting it fails. -/
structure Card where
  config_ok : Bool := true
  sd_mount : Option Nat := none
  deriving DecidableEq

/-- How a constructor ends. An exception leaves no object, an error code does. -/
inductive Constructed where
  | object (path : FluidPath) (ec : Option PathError)
  | thrown (ec : PathError)
  deriving DecidableEq

namespace FluidPath

/-- The card is inaccessible: the error code goes to `*ecptr` if there is one, else
it is thrown. -/
def inaccessible (path : List String) (ecptr : Bool) (ec : PathError) : Constructed :=
  if ecptr then .object { path, isSD := true } (some ec) else .thrown ec

/-- The constructor from the components of `canonicalPath(name, fs)`. -/
def construct (path : List String) (ecptr : Bool) (card : Card) (sd : SdMount) : Constructed × SdMount :=
  match path with
  | _ :: mount :: _ =>
    if mount = "sd" then
      if ¬ card.config_ok then (inaccessible path ecptr .SDNotConfigured, sd)
      else if sd.refcnt = 0 then
        match card.sd_mount with
        | some code => (inaccessible path ecptr (.sd_mount code), sd)
        | none => (.object { path, isSD := true } none, { refcnt := 1, mounted := true })
      else (.object { path, isSD := true } none, { sd with refcnt := sd.refcnt + 1 })
    else (.object { path } none, sd)
  | _ => (.object { path } (if ecptr then some .invalid_argument else none), sd)

/-- The copy constructor: the new object, and the mount after it. -/
def copy (o : FluidPath) (sd : SdMount) : FluidPath × SdMount :=
  (o, if o.isSD then { sd with refcnt := sd.refcnt + 1 } else sd)

/-- The move constructor: the new object, and what it leaves of the other. -/
def move (o : FluidPath) : FluidPath × FluidPath := (o, { path := [], isSD := false })

/-- Copy assignment from another object. It looks at the flag it overwrites for
nothing. -/
def copyAssign (_this o : FluidPath) (sd : SdMount) : FluidPath × SdMount :=
  (o, if o.isSD then { sd with refcnt := sd.refcnt + 1 } else sd)

/-- Move assignment from another object: the flags change places. -/
def moveAssign (this o : FluidPath) : FluidPath × FluidPath :=
  ({ path := o.path, isSD := o.isSD }, { path := [], isSD := this.isSD })

/-- The destructor. -/
def destruct (this : FluidPath) (sd : SdMount) : SdMount :=
  if this.isSD ∧ sd.refcnt ≠ 0 then
    if sd.refcnt - 1 = 0 then { refcnt := 0, mounted := false } else { sd with refcnt := sd.refcnt - 1 }
  else sd

end FluidPath

/-- A live object. `holds` is no part of the program: a path holds a mount
reference if its constructor took one without an error, and a copy, a move or an
assignment from it makes its target hold one. -/
structure LivePath extends FluidPath where
  holds : Bool := false
  deriving DecidableEq

/-- A path whose constructor could not mount the card and said so by an error
code: its flag is set and it holds no reference. -/
def LivePath.failed (o : LivePath) : Bool := o.isSD && !o.holds

/-- All objects made so far, in order, with holes for the dead ones. -/
structure Paths where
  objects : List (Option LivePath) := []
  sd : SdMount := {}
  deriving DecidableEq

/-- What a program may do with paths. Objects are known by the order in which
they were made. -/
inductive PathOp where
  | default
  | construct (path : List String) (ecptr : Bool) (card : Card)
  | copy (source : Nat)
  | move (source : Nat)
  | copyAssign (target source : Nat)
  | moveAssign (target source : Nat)
  | destroy (object : Nat)
  deriving DecidableEq

namespace Paths

/-- The live object of that number. -/
def live (w : Paths) (i : Nat) : Option LivePath := w.objects[i]?.join

def make (w : Paths) (path : FluidPath) (holds : Bool) (sd : SdMount) : Paths where
  objects := w.objects ++ [some { path with holds }]
  sd := sd

def put (w : Paths) (i : Nat) (path : FluidPath) (holds : Bool) : Paths :=
  { w with objects := w.objects.set i (some { path with holds }) }

/-- One operation. An operation on an object that does not live is no program;
it is left out. -/
def perform (w : Paths) : PathOp → Paths
  | .default => w.make {} false w.sd
  | .construct path ecptr card =>
    match FluidPath.construct path ecptr card w.sd with
    | (.object made ec, sd) => w.make made (made.isSD && ec.isNone) sd
    | (.thrown _, sd) => { w with sd }
  | .copy source =>
    match w.live source with
    | some o => w.make (o.toFluidPath.copy w.sd).1 o.holds (o.toFluidPath.copy w.sd).2
    | none => w
  | .move source =>
    match w.live source with
    | some o => (w.put source o.toFluidPath.move.2 false).make o.toFluidPath.move.1 o.holds w.sd
    | none => w
  | .copyAssign target source =>
    match w.live target, w.live source with
    | some this, some o =>
      if target = source then w
      else
        { w.put target (this.toFluidPath.copyAssign o.toFluidPath w.sd).1 o.holds with
          sd := (this.toFluidPath.copyAssign o.toFluidPath w.sd).2 }
    | _, _ => w
  | .moveAssign target source =>
    match w.live target, w.live source with
    | some this, some o =>
      if target = source then w
      else
        (w.put source (this.toFluidPath.moveAssign o.toFluidPath).2 this.holds).put target
          (this.toFluidPath.moveAssign o.toFluidPath).1 o.holds
    | _, _ => w
  | .destroy object =>
    match w.live object with
    | some this => { objects := w.objects.set object none, sd := this.toFluidPath.destruct w.sd }
    | none => w

/-- How many live objects hold a mount reference. -/
def holders (w : Paths) : Nat := Leases.holders LivePath.holds w.objects

/-- The count is the number of holders, and the card is mounted exactly while
that number is positive. -/
def Counted (w : Paths) : Prop := w.sd.refcnt = w.holders ∧ (w.sd.mounted = true ↔ 0 < w.sd.refcnt)

/-- The operations that lose or invent a reference: copying a failed path,
overwriting a holder by copy assignment, and destroying a failed path while
another path holds a reference. -/
def Miscounts (w : Paths) : PathOp → Prop
  | .copy source => ∃ o, w.live source = some o ∧ o.failed = true
  | .copyAssign target source =>
    target ≠ source ∧ ∃ this o, w.live target = some this ∧ w.live source = some o ∧
      (this.holds = true ∨ o.failed = true)
  | .destroy object => ∃ this, w.live object = some this ∧ this.failed = true ∧ 0 < w.sd.refcnt
  | _ => False

/-- Only a path with its flag set holds a reference. -/
def Flagged (w : Paths) : Prop := ∀ i o, w.live i = some o → o.holds = true → o.isSD = true

section Objects

variable {w : Paths} {path : FluidPath} {holds : Bool} {sd : SdMount} {i j : Nat} {o : LivePath}

theorem live_eq_some_iff : w.live i = some o ↔ w.objects[i]? = some (some o) := by
  unfold live
  cases w.objects[i]? <;> simp

theorem make_live (h : (w.make path holds sd).live i = some o) :
    w.live i = some o ∨ o = { path with holds } := by
  rw [live_eq_some_iff] at h ⊢
  simp only [make, List.getElem?_append] at h
  split_ifs at h with hi
  · exact .inl h
  · right
    cases hidx : i - w.objects.length with
    | zero => simpa [hidx] using h.symm
    | succ k => simp [hidx] at h

theorem put_live (h : (w.put j path holds).live i = some o) :
    (i ≠ j ∧ w.live i = some o) ∨ o = { path with holds } := by
  rw [live_eq_some_iff] at h ⊢
  simp only [put, List.getElem?_set] at h
  split_ifs at h with hj hlt
  · exact .inr (by simpa using h.symm)
  · exact .inl ⟨fun heq => hj heq.symm, h⟩

theorem put_live_of_ne (hne : i ≠ j) : (w.put j path holds).live i = w.live i := by
  unfold live put
  rw [List.getElem?_set_ne (Ne.symm hne)]

theorem make_holders : (w.make path holds sd).holders = w.holders + holds.toNat :=
  Leases.holders_concat _ _ _

theorem put_holders (path : FluidPath) (holds : Bool) (hlive : w.live i = some o) :
    (w.put i path holds).holders + o.holds.toNat = w.holders + holds.toNat :=
  Leases.holders_set _ (live_eq_some_iff.mp hlive) _

theorem holders_pos (hlive : w.live i = some o) (hholds : o.holds = true) : 0 < w.holders :=
  Leases.holders_pos _ (live_eq_some_iff.mp hlive) hholds

end Objects

section Steps

variable {w : Paths} {op : PathOp}

/-- What a constructor comes to: an object without a reference, an object with
one, for which the flag is set and the reference is counted, or an exception. -/
inductive Constructs (sd : SdMount) : Constructed × SdMount → Prop where
  | without (made : FluidPath) (ec : Option PathError) (hnone : (made.isSD && ec.isNone) = false) :
    Constructs sd (.object made ec, sd)
  | holding (made : FluidPath) (hflag : made.isSD = true) :
    Constructs sd (.object made none, { refcnt := sd.refcnt + 1, mounted := true })
  | thrown (ec : PathError) : Constructs sd (.thrown ec, sd)

private theorem inaccessible_constructs (path : List String) (ecptr : Bool) (ec : PathError)
    (sd : SdMount) : Constructs sd (FluidPath.inaccessible path ecptr ec, sd) := by
  cases ecptr with
  | true => exact .without _ _ (by simp)
  | false => exact .thrown ec

theorem construct_constructs (path : List String) (ecptr : Bool) (card : Card) (sd : SdMount)
    (hmounted : sd.mounted = true ↔ 0 < sd.refcnt) :
    Constructs sd (FluidPath.construct path ecptr card sd) := by
  unfold FluidPath.construct
  split
  · split_ifs with hsd hok hzero
    · split
      · apply inaccessible_constructs
      · have hone : (1 : Nat) = sd.refcnt + 1 := by omega
        rw [hone]
        exact .holding _ rfl
    · have hmount : sd.mounted = true := hmounted.mpr (by omega)
      rw [hmount]
      exact .holding _ rfl
    · apply inaccessible_constructs
    · exact .without _ _ (by simp)
  · exact .without _ _ (by simp)

theorem perform_construct (path : List String) (ecptr : Bool) (card : Card)
    (hmounted : w.sd.mounted = true ↔ 0 < w.sd.refcnt) :
    (∃ made, w.perform (.construct path ecptr card) = w.make made false w.sd) ∨
      (∃ made, made.isSD = true ∧ w.perform (.construct path ecptr card) =
        w.make made true { refcnt := w.sd.refcnt + 1, mounted := true }) ∨
      w.perform (.construct path ecptr card) = w := by
  have hconstructs := construct_constructs path ecptr card w.sd hmounted
  simp only [perform]
  generalize FluidPath.construct path ecptr card w.sd = result at hconstructs ⊢
  cases hconstructs with
  | without made ec hnone => exact .inl ⟨made, by simp only [hnone]⟩
  | holding made hflag => exact .inr (.inl ⟨made, hflag, by simp [hflag]⟩)
  | thrown ec => exact .inr (.inr rfl)

theorem Flagged.make (hflagged : w.Flagged) {path : FluidPath} {holds : Bool} {sd : SdMount}
    (hflag : holds = true → path.isSD = true) : (w.make path holds sd).Flagged := by
  intro i o hlive hholds
  rcases make_live hlive with hold | rfl
  · exact hflagged i o hold hholds
  · exact hflag hholds

theorem Flagged.put (hflagged : w.Flagged) {i : Nat} {path : FluidPath} {holds : Bool}
    (hflag : holds = true → path.isSD = true) : (w.put i path holds).Flagged := by
  intro j o hlive hholds
  rcases put_live hlive with ⟨_, hold⟩ | rfl
  · exact hflagged j o hold hholds
  · exact hflag hholds

/-- Every operation keeps the flags: a path that holds a reference has its flag
set. -/
theorem perform_flagged (hflagged : w.Flagged) (hmounted : w.sd.mounted = true ↔ 0 < w.sd.refcnt) :
    (w.perform op).Flagged := by
  cases op with
  | default => exact hflagged.make (by simp)
  | construct path ecptr card =>
    rcases perform_construct path ecptr card hmounted with ⟨made, heq⟩ | ⟨made, hflag, heq⟩ | heq
    · rw [heq]
      exact hflagged.make (by simp)
    · rw [heq]
      exact hflagged.make fun _ => hflag
    · rwa [heq]
  | copy source =>
    simp only [perform]
    split
    · next o hlive => exact hflagged.make (hflagged source o hlive)
    · exact hflagged
  | move source =>
    simp only [perform]
    split
    · next o hlive => exact (hflagged.put (by simp)).make (hflagged source o hlive)
    · exact hflagged
  | copyAssign target source =>
    simp only [perform]
    split
    · next this o hthis ho =>
      split_ifs
      · exact hflagged
      · exact hflagged.put (hflagged source o ho)
    · exact hflagged
  | moveAssign target source =>
    simp only [perform]
    split
    · next this o hthis ho =>
      split_ifs
      · exact hflagged
      · refine (hflagged.put ?_).put ?_
        · exact hflagged target this hthis
        · exact hflagged source o ho
    · exact hflagged
  | destroy object =>
    simp only [perform]
    split
    · intro i o hlive hholds
      rw [live_eq_some_iff, List.getElem?_set] at hlive
      split_ifs at hlive with hi hlt
      · simp at hlive
      · exact hflagged i o (live_eq_some_iff.mpr hlive) hholds
    · exact hflagged

/-- An operation that leaves the mount alone must leave the holders alone. -/
private theorem counted_of_same {w' : Paths} (hcounted : w.Counted) (hsd : w'.sd = w.sd)
    (hholders : w'.holders = w.holders) : w'.Counted := by
  unfold Counted at hcounted ⊢
  rwa [hsd, hholders]

/-- Taking the reference of a live path `o` while giving up `lost` others keeps
the count right exactly if nothing is lost and the path has not failed. -/
private theorem counted_take_iff (w' : Paths) (lost : Nat) {source : Nat} {o : LivePath}
    (hflagged : w.Flagged) (hcounted : w.Counted) (hlive : w.live source = some o)
    (hsd : w'.sd = if o.isSD then { w.sd with refcnt := w.sd.refcnt + 1 } else w.sd)
    (hholders : w'.holders + lost = w.holders + o.holds.toNat) :
    w'.Counted ↔ ¬ (0 < lost ∨ o.failed = true) := by
  obtain ⟨hrefcnt, hmounted⟩ := hcounted
  have hflag := hflagged source o hlive
  have hpos := fun h => holders_pos hlive h
  unfold Counted LivePath.failed
  rw [hsd]
  cases hholds : o.holds <;> cases hSD : o.isSD
  · simp only [hholds, Bool.toNat_false] at hholders
    simp only [Bool.false_eq_true, if_false, Bool.false_and, or_false, hmounted, and_true]
    omega
  · simp only [hholds, Bool.toNat_false] at hholders
    refine iff_of_false ?_ (by simp)
    rintro ⟨htaken, _⟩
    have htaken' : w.sd.refcnt + 1 = w'.holders := htaken
    omega
  · rw [hflag hholds] at hSD
    cases hSD
  · simp only [hholds, Bool.toNat_true] at hholders
    have hmount : w.sd.mounted = true := hmounted.mpr (by have := hpos hholds; omega)
    simp only [if_true, hmount, Bool.not_true, Bool.and_false, Bool.false_eq_true, or_false, true_iff]
    constructor
    · rintro ⟨htaken, _⟩
      omega
    · intro hlost
      exact ⟨by omega, by omega⟩

/-- Destroying a live path. -/
private theorem counted_destruct_iff (w' : Paths) {object : Nat} {this : LivePath} (hflagged : w.Flagged)
    (hcounted : w.Counted) (hlive : w.live object = some this)
    (hsd : w'.sd = this.toFluidPath.destruct w.sd)
    (hholders : w'.holders + this.holds.toNat = w.holders) :
    w'.Counted ↔ ¬ (this.failed = true ∧ 0 < w.sd.refcnt) := by
  obtain ⟨hrefcnt, hmounted⟩ := hcounted
  have hflag := hflagged object this hlive
  unfold Counted LivePath.failed
  rw [hsd]
  unfold FluidPath.destruct
  cases hSD : this.isSD with
  | false =>
    have hholds : this.holds = false := by
      cases h : this.holds with
      | false => rfl
      | true => rw [hflag h] at hSD; cases hSD
    simp only [hholds, Bool.toNat_false] at hholders
    simp only [Bool.false_eq_true, false_and, if_false, Bool.false_and, not_false_iff, iff_true]
    exact ⟨by omega, hmounted⟩
  | true =>
    by_cases hzero : w.sd.refcnt = 0
    · rw [if_neg fun h => h.2 hzero]
      refine iff_of_true ⟨?_, hmounted⟩ (by simp [hzero])
      cases hholds : this.holds with
      | true => exact absurd (holders_pos hlive hholds) (by omega)
      | false =>
        simp only [hholds, Bool.toNat_false] at hholders
        omega
    · have hmount : w.sd.mounted = true := hmounted.mpr (by omega)
      cases hholds : this.holds with
      | true =>
        simp only [hholds, Bool.toNat_true] at hholders
        simp only [Bool.not_true, Bool.and_false, Bool.false_eq_true, false_and, not_false_iff, iff_true]
        split_ifs with hone hlast
        · exact ⟨by dsimp only; omega, by simp⟩
        · exact ⟨by dsimp only; omega, by dsimp only; simp only [hmount, true_iff]; omega⟩
        · exact absurd ⟨trivial, hzero⟩ hone
      | false =>
        simp only [hholds, Bool.toNat_false] at hholders
        refine iff_of_false ?_ (by simp; omega)
        split_ifs with hone hlast
        · rintro ⟨h, _⟩
          dsimp only at h
          omega
        · rintro ⟨h, _⟩
          dsimp only at h
          omega
        · exact absurd ⟨rfl, hzero⟩ hone

/-- One operation keeps the count right exactly if it is not one that miscounts. -/
theorem perform_counted_iff (hflagged : w.Flagged) (hcounted : w.Counted) :
    (w.perform op).Counted ↔ ¬ w.Miscounts op := by
  have hmounted := hcounted.2
  cases op with
  | default => exact iff_of_true (counted_of_same hcounted rfl make_holders) not_false
  | construct path ecptr card =>
    refine iff_of_true ?_ not_false
    rcases perform_construct path ecptr card hmounted with ⟨made, heq⟩ | ⟨made, _, heq⟩ | heq
    · rw [heq]
      exact counted_of_same hcounted rfl make_holders
    · rw [heq]
      refine ⟨?_, by simp [make]⟩
      rw [make_holders, ← hcounted.1]
      rfl
    · rwa [heq]
  | copy source =>
    simp only [perform, Miscounts]
    cases hlive : w.live source with
    | none => exact iff_of_true hcounted (by simp)
    | some o =>
      dsimp only
      refine (counted_take_iff _ 0 hflagged hcounted hlive rfl make_holders).trans ?_
      simp
  | move source =>
    refine iff_of_true ?_ not_false
    simp only [perform]
    cases hlive : w.live source with
    | none => exact hcounted
    | some o =>
      refine counted_of_same hcounted rfl ?_
      rw [make_holders, put_holders _ _ hlive]
      rfl
  | copyAssign target source =>
    simp only [perform, Miscounts]
    cases hthis : w.live target with
    | none => exact iff_of_true hcounted (by simp)
    | some this =>
      cases ho : w.live source with
      | none => exact iff_of_true hcounted (by simp)
      | some o =>
        by_cases hself : target = source
        · simp only [hself, if_true, ne_eq, not_true, false_and, not_false_iff, iff_true]
          exact hcounted
        · simp only [hself, if_false]
          have hput := put_holders o.toFluidPath o.holds hthis
          refine (counted_take_iff _ this.holds.toNat hflagged hcounted ho rfl ?_).trans ?_
          · exact hput
          cases hholds : this.holds <;> simp [hself, hholds]
  | moveAssign target source =>
    refine iff_of_true ?_ not_false
    simp only [perform]
    cases hthis : w.live target with
    | none => exact hcounted
    | some this =>
      cases ho : w.live source with
      | none => exact hcounted
      | some o =>
        by_cases hself : target = source
        · simp only [hself, if_true]
          exact hcounted
        · simp only [hself, if_false]
          refine counted_of_same hcounted rfl ?_
          have hput := put_holders (this.toFluidPath.moveAssign o.toFluidPath).2 this.holds ho
          have hother : (w.put source (this.toFluidPath.moveAssign o.toFluidPath).2 this.holds).live target =
              some this := by rw [put_live_of_ne hself, hthis]
          have hboth := put_holders (this.toFluidPath.moveAssign o.toFluidPath).1 o.holds hother
          omega
  | destroy object =>
    simp only [perform, Miscounts]
    cases hlive : w.live object with
    | none => exact iff_of_true hcounted (by simp)
    | some this =>
      have hset := Leases.holders_set LivePath.holds (live_eq_some_iff.mp hlive) none
      dsimp only
      refine (counted_destruct_iff _ hflagged hcounted hlive rfl ?_).trans ?_
      · exact hset
      simp

end Steps

/-- In every program the count is right, and the card mounted exactly while some
path holds a reference, in all states exactly if no operation miscounts. -/
theorem refcnt_counts_holders (ops : List PathOp) :
    Transition.Always perform Counted {} ops ↔
      Transition.Throughout perform (fun w op => ¬ w.Miscounts op) {} ops := by
  have hflagged : Flagged {} := by
    intro i o hlive
    simp [live] at hlive
  have hcounted : Counted {} := ⟨rfl, by decide⟩
  apply Transition.always_iff_throughout_not (I := Flagged) (Q := fun _ _ => True)
  · intro w op hflagged _ hcounted
    exact perform_flagged hflagged hcounted.2
  · intro w op hflagged _ hcounted
    exact perform_counted_iff hflagged hcounted
  · exact hflagged
  · exact hcounted
  · exact Transition.throughout_of_forall (fun _ _ => trivial) _ _

/-- A path on the card is overwritten by one that is not on it. Both die, and the
card stays mounted. -/
def overwriting : List PathOp :=
  [.construct ["/", "sd", "patterns"] false {}, .construct ["/", "littlefs"] false {},
    .copyAssign 0 1, .destroy 0, .destroy 1]

theorem overwritten_path_keeps_card_mounted :
    ¬ ∀ ops : List PathOp, Transition.Always perform Counted {} ops := by
  intro hall
  have hlast := (hall overwriting).last
  have hrefcnt : (Transition.run perform {} overwriting).sd.refcnt = 1 := by decide
  have hholders : (Transition.run perform {} overwriting).holders = 0 := by decide
  have hcount := hlast.1
  omega

end Paths

end DuneWeaver
