import DuneWeaver.Gcode.Flowcontrol
import Mathlib.Logic.Function.Basic
import Mathlib.Tactic.Linarith

namespace DuneWeaver

/-- The stored coordinates that numbered parameters give access to. -/
inductive CoordIndex where
  | G54 | G55 | G56 | G57 | G58 | G59 | G28 | G30
  deriving DecidableEq

/-- The unit factors, which convert back and forth exactly. -/
structure UnitFactors where
  INCH_PER_MM : ℚ
  MM_PER_INCH : ℚ
  exact : INCH_PER_MM * MM_PER_INCH = 1

/-- What the numbered parameters read and write. A position is that of the machine, in mm. -/
structure ParamState where
  inches : Bool
  coords : CoordIndex → Nat → ℚ
  coord_select : Nat
  coord_system : Nat → ℚ
  coord_offset : Nat → ℚ
  tool_length_offset : ℚ
  selected_tool : Nat
  n_axis : Nat
  mpos : Nat → ℚ
  probe_position : Nat → ℚ
  probe_succeeded : Bool
  float_params : Int → Option ℚ

namespace ParamState

def MAX_N_AXIS : Nat := 6

def TOOL_LENGTH_OFFSET_AXIS : Nat := 2

def axis_params : List (Int × CoordIndex) := [
  (5161, .G28), (5181, .G30), (5221, .G54), (5241, .G55), (5261, .G56), (5281, .G57), (5301, .G58), (5321, .G59)]

def can_write_float_param (id : Int) : Bool := id = 5399 || (1 ≤ id && id ≤ 5000)

def can_read_float_param (id : Int) : Bool := id = 5399 || (31 ≤ id && id ≤ 5000)

/-- The axis of a parameter in a row of them, one for each axis. -/
def axis_of (id first : Int) : Option Nat :=
  if 0 ≤ id - first ∧ id - first < MAX_N_AXIS then some (id - first).toNat else none

/-- The loop through `axis_params`. -/
def axis_param (id : Int) : Option (CoordIndex × Nat) :=
  axis_params.findSome? fun (key, coord_index) => (axis_of id key).map fun axis => (coord_index, axis)

def is_rotary (axis : Nat) : Bool := 3 ≤ axis && axis ≤ 5

variable (factors : UnitFactors)

def to_inches (s : ParamState) (axis : Nat) (value : ℚ) : ℚ :=
  if !is_rotary axis && s.inches then value * factors.INCH_PER_MM else value

def to_mm (s : ParamState) (axis : Nat) (value : ℚ) : ℚ :=
  if !is_rotary axis && s.inches then value * factors.MM_PER_INCH else value

def get_wco (s : ParamState) (axis : Nat) : ℚ :=
  s.coord_system axis + s.coord_offset axis + if axis = TOOL_LENGTH_OFFSET_AXIS then s.tool_length_offset else 0

def mpos_to_wpos (s : ParamState) (axis : Nat) : ℚ :=
  if axis < s.n_axis then s.mpos axis - s.get_wco axis else s.mpos axis

/-- The value `result` has after the attempt to read a G92 offset, which goes on to look for the
parameter elsewhere. -/
def g92_result (s : ParamState) (id : Int) (result : ℚ) : ℚ :=
  match axis_of id 5211 with
  | some axis => s.to_inches factors axis (s.coord_offset axis)
  | none => result

/-- `get_numbered_param`: whether it has succeeded, and the value that `result` is left with. -/
def get_numbered_param (s : ParamState) (id : Int) (result : ℚ) : Bool × ℚ :=
  match axis_param id with
  | some (coord_index, axis) => (true, s.to_inches factors axis (s.coords coord_index axis))
  | none =>
    match axis_of id 5061 with
    | some axis => (true, s.to_inches factors axis (s.probe_position axis))
    | none =>
      let result := s.g92_result factors id result
      if id = 5220 then (true, s.coord_select + 1)
      else if id = 5400 then (true, s.selected_tool)
      else
        match axis_of id 5420 with
        | some axis => (true, s.to_inches factors axis (s.mpos_to_wpos axis))
        | none =>
          if id = 5070 then (true, if s.probe_succeeded then 1 else 0)
          else if can_read_float_param id then
            match s.float_params id with
            | some value => (true, value)
            | none => (false, result)
          else (false, result)

/-- `set_numbered_param`. -/
def set_numbered_param (s : ParamState) (id : Int) (value : ℚ) : Bool × ParamState :=
  match axis_param id with
  | some (coord_index, axis) =>
    (true, { s with
      coords := Function.update s.coords coord_index
        (Function.update (s.coords coord_index) axis (s.to_mm factors axis value)) })
  | none =>
    match axis_of id 5211 with
    | some axis =>
      (true, { s with coord_offset := Function.update s.coord_offset axis (s.to_mm factors axis value) })
    | none =>
      if id = 5220 then (true, { s with coord_select := ⌊value⌋.toNat % 2 ^ 16 })
      else if id = 5400 then (true, { s with selected_tool := uint32_of value })
      else if can_write_float_param id then
        (true, { s with float_params := Function.update s.float_params id (some value) })
      else (false, s)

section Tables

variable {id other first : Int} {axis : Nat} {coord_index : CoordIndex}

theorem axis_of_eq_some : axis_of id first = some axis ↔ id = first + axis ∧ axis < MAX_N_AXIS := by
  unfold axis_of MAX_N_AXIS
  split_ifs with h
  · rw [Option.some.injEq]
    omega
  · simp only [false_iff]
    omega

theorem axis_of_eq_none (h : id < first ∨ first + 6 ≤ id) : axis_of id first = none := by
  unfold axis_of MAX_N_AXIS
  rw [if_neg (by omega)]

/-- The first parameter of the row for a coordinate. -/
theorem axis_param_eq_some (h : axis_param id = some (coord_index, axis)) :
    ∃ key, (key, coord_index) ∈ axis_params ∧ id = key + axis ∧ axis < MAX_N_AXIS := by
  obtain ⟨⟨key, index⟩, hmem, hfound⟩ := List.exists_of_findSome?_eq_some h
  rw [Option.map_eq_some_iff] at hfound
  obtain ⟨a, haxis, heq⟩ := hfound
  rw [Prod.mk.injEq] at heq
  obtain ⟨rfl, rfl⟩ := heq
  exact ⟨key, hmem, axis_of_eq_some.mp haxis⟩

/-- No coordinate has two rows. -/
theorem axis_params_key : ∀ p ∈ axis_params, ∀ q ∈ axis_params, p.2 = q.2 → p.1 = q.1 := by decide

theorem axis_param_inj (h : axis_param id = some (coord_index, axis))
    (h' : axis_param other = some (coord_index, axis)) :
    id = other := by
  obtain ⟨key, hmem, hid, -⟩ := axis_param_eq_some h
  obtain ⟨key', hmem', hother, -⟩ := axis_param_eq_some h'
  have hkey := axis_params_key _ hmem _ hmem' rfl
  dsimp only at hkey
  omega

/-- The rows leave room for that of the G92 offset and the number of the coordinate system. -/
theorem axis_param_apart (h : axis_param id = some (coord_index, axis)) : id < 5211 ∨ 5220 < id := by
  obtain ⟨key, hmem, hid, hlt⟩ := axis_param_eq_some h
  have hkeys : ∀ p ∈ axis_params, p.1 + 6 ≤ 5211 ∨ 5220 < p.1 := by decide
  have hkey := hkeys _ hmem
  rw [MAX_N_AXIS] at hlt
  dsimp only at hkey
  omega

theorem axis_param_of_between (h : 5211 ≤ id) (h' : id ≤ 5220) : axis_param id = none := by
  rw [Option.eq_none_iff_forall_ne_some]
  rintro ⟨coord_index, axis⟩ hsome
  have hapart := axis_param_apart hsome
  omega

theorem axis_param_range (h : axis_param id = some (coord_index, axis)) : 5161 ≤ id ∧ id < 5327 := by
  obtain ⟨key, hmem, hid, hlt⟩ := axis_param_eq_some h
  have hkeys : ∀ p ∈ axis_params, 5161 ≤ p.1 ∧ p.1 ≤ 5321 := by decide
  have hkey := hkeys _ hmem
  rw [MAX_N_AXIS] at hlt
  dsimp only at hkey
  omega

theorem axis_param_eq_none (h : id < 5161 ∨ 5327 ≤ id) : axis_param id = none := by
  rw [Option.eq_none_iff_forall_ne_some]
  rintro ⟨coord_index, axis⟩ hsome
  have hrange := axis_param_range hsome
  omega

end Tables

section Reads

variable {factors} {s t : ParamState} {id other : Int} {value result : ℚ}

theorem to_inches_to_mm (s : ParamState) (axis : Nat) (value : ℚ) :
    s.to_inches factors axis (s.to_mm factors axis value) = value := by
  unfold to_inches to_mm
  split
  · have hexact := factors.exact
    rw [mul_assoc, mul_comm factors.MM_PER_INCH, hexact, mul_one]
  · rfl

/-- What a parameter is read from. -/
theorem get_numbered_param_congr (hinches : t.inches = s.inches)
    (hcoords : ∀ coord_index axis, axis_param id = some (coord_index, axis) →
      t.coords coord_index axis = s.coords coord_index axis)
    (hoffset : ∀ axis, axis_of id 5211 = some axis → t.coord_offset axis = s.coord_offset axis)
    (hselect : id = 5220 → t.coord_select = s.coord_select) (htool : id = 5400 → t.selected_tool = s.selected_tool)
    (hposition : ∀ axis, axis_of id 5420 = some axis → t.mpos_to_wpos axis = s.mpos_to_wpos axis)
    (hprobe : t.probe_position = s.probe_position) (hsucceeded : t.probe_succeeded = s.probe_succeeded)
    (hfloat : t.float_params id = s.float_params id) :
    t.get_numbered_param factors id result = s.get_numbered_param factors id result := by
  have hinch : t.to_inches factors = s.to_inches factors := by
    funext axis value
    rw [to_inches, to_inches, hinches]
  have hg92 : t.g92_result factors id result = s.g92_result factors id result := by
    unfold g92_result
    cases haxis : axis_of id 5211 with
    | none => rfl
    | some axis => simp only [hinch, hoffset axis haxis]
  unfold get_numbered_param
  rw [hg92, hinch, hprobe, hsucceeded, hfloat]
  cases hparam : axis_param id with
  | some p => simp only [hcoords p.1 p.2 hparam]
  | none =>
    dsimp only
    cases axis_of id 5061 with
    | some axis => rfl
    | none =>
      dsimp only
      by_cases hid : id = 5220
      · rw [if_pos hid, if_pos hid, hselect hid]
      · rw [if_neg hid, if_neg hid]
        by_cases hid : id = 5400
        · rw [if_pos hid, if_pos hid, htool hid]
        · rw [if_neg hid, if_neg hid]
          cases hrow : axis_of id 5420 with
          | some axis => simp only [hposition axis hrow]
          | none => rfl

/-- Away from all the rows and the parameters with a number of their own there are the numbers of
`float_params`. -/
theorem get_float_param (hparam : axis_param id = none) (hrows : id < 5061 ∨ id = 5399) :
    s.get_numbered_param factors id result =
      if can_read_float_param id then
        match s.float_params id with
        | some value => (true, value)
        | none => (false, result)
      else (false, result) := by
  have h5061 : axis_of id 5061 = none := axis_of_eq_none (by omega)
  have h5211 : axis_of id 5211 = none := axis_of_eq_none (by omega)
  have h5420 : axis_of id 5420 = none := axis_of_eq_none (by omega)
  unfold get_numbered_param g92_result
  simp only [hparam, h5061, h5211, h5420]
  rw [if_neg (by omega), if_neg (by omega), if_neg (by omega)]

end Reads

section Writes

variable {factors} {s t : ParamState} {id other : Int} {value : ℚ}

/-- What `set_numbered_param` writes: one place, and the same machine otherwise. -/
inductive Wrote (factors : UnitFactors) (s : ParamState) (id : Int) (value : ℚ) : ParamState → Prop where
  | coords (coord_index : CoordIndex) (axis : Nat) (h : axis_param id = some (coord_index, axis)) :
      Wrote factors s id value { s with
        coords := Function.update s.coords coord_index
          (Function.update (s.coords coord_index) axis (s.to_mm factors axis value)) }
  | offset (axis : Nat) (hid : id = 5211 + axis) (hlt : axis < MAX_N_AXIS) :
      Wrote factors s id value
        { s with coord_offset := Function.update s.coord_offset axis (s.to_mm factors axis value) }
  | coord_select (h : id = 5220) : Wrote factors s id value { s with coord_select := ⌊value⌋.toNat % 2 ^ 16 }
  | selected_tool (h : id = 5400) : Wrote factors s id value { s with selected_tool := uint32_of value }
  | float_param (h : can_write_float_param id = true) :
      Wrote factors s id value { s with float_params := Function.update s.float_params id (some value) }

theorem set_numbered_param_wrote (h : (s.set_numbered_param factors id value).1 = true) :
    Wrote factors s id value (s.set_numbered_param factors id value).2 := by
  unfold set_numbered_param at h ⊢
  cases hparam : axis_param id with
  | some p => exact .coords p.1 p.2 hparam
  | none =>
    rw [hparam] at h
    dsimp only at h ⊢
    cases hoffset : axis_of id 5211 with
    | some axis =>
      obtain ⟨hid, hlt⟩ := axis_of_eq_some.mp hoffset
      exact .offset axis hid hlt
    | none =>
      rw [hoffset] at h
      dsimp only at h ⊢
      split_ifs at h ⊢ with hselect htool hwrite
      · exact .coord_select hselect
      · exact .selected_tool htool
      · exact .float_param hwrite

theorem can_write_range (h : can_write_float_param id = true) : id = 5399 ∨ 1 ≤ id ∧ id ≤ 5000 := by
  simpa [can_write_float_param] using h

/-- The row of a number that one of `float_params` has. -/
theorem axis_param_of_can_write (h : can_write_float_param id = true) : axis_param id = none := by
  have hrange := can_write_range h
  exact axis_param_eq_none (by omega)

/-- No other parameter changes, but for the position that an offset is part of. -/
theorem Wrote.get_other (h : Wrote factors s id value t) (hne : other ≠ id)
    (hposition : 5211 ≤ id → id ≤ 5216 → other ≠ id + 209) (result : ℚ) :
    t.get_numbered_param factors other result = s.get_numbered_param factors other result := by
  cases h with
  | coords coord_index axis hparam =>
    refine get_numbered_param_congr rfl ?_ (fun _ _ => rfl) (fun _ => rfl) (fun _ => rfl) (fun _ _ => rfl) rfl rfl rfl
    intro index a hother
    by_cases hindex : index = coord_index
    · subst hindex
      have haxis : a ≠ axis := by
        rintro rfl
        exact hne (axis_param_inj hother hparam)
      simp only [Function.update_self, Function.update_of_ne haxis]
    · simp only [Function.update_of_ne hindex]
  | offset axis hid hlt =>
    rw [MAX_N_AXIS] at hlt
    refine get_numbered_param_congr rfl (fun _ _ _ => rfl) ?_ (fun _ => rfl) (fun _ => rfl) ?_ rfl rfl rfl
    · intro a hrow
      have hrow := (axis_of_eq_some.mp hrow).1
      exact Function.update_of_ne (by omega) _ _
    · intro a hrow
      have hrow := (axis_of_eq_some.mp hrow).1
      have hapart := hposition (by omega) (by omega)
      have haxis : a ≠ axis := by omega
      unfold mpos_to_wpos get_wco
      simp only [Function.update_of_ne haxis]
  | coord_select hid =>
    exact get_numbered_param_congr rfl (fun _ _ _ => rfl) (fun _ _ => rfl)
      (fun hother => absurd (hother.trans hid.symm) hne)
      (fun _ => rfl) (fun _ _ => rfl) rfl rfl rfl
  | selected_tool hid =>
    exact get_numbered_param_congr rfl (fun _ _ _ => rfl) (fun _ _ => rfl) (fun _ => rfl)
      (fun hother => absurd (hother.trans hid.symm) hne) (fun _ _ => rfl) rfl rfl rfl
  | float_param =>
    exact get_numbered_param_congr rfl (fun _ _ _ => rfl) (fun _ _ => rfl) (fun _ => rfl) (fun _ => rfl)
      (fun _ _ => rfl)
      rfl rfl (Function.update_of_ne hne _ _)

/-- How a parameter reads after it has been written. A G92 offset is found but not returned, and neither
are the first thirty of the user's own; the number of a coordinate system comes back as the next one. -/
theorem Wrote.get_same (h : Wrote factors s id value t) (result : ℚ) :
    t.get_numbered_param factors id result =
      if 5211 ≤ id ∧ id ≤ 5216 then (false, value)
      else if id = 5220 then (true, (⌊value⌋.toNat % 2 ^ 16 : Nat) + 1)
      else if id = 5400 then (true, uint32_of value)
      else if 1 ≤ id ∧ id ≤ 30 then (false, result)
      else (true, value) := by
  cases h with
  | coords coord_index axis hparam =>
    have hrange := axis_param_range hparam
    have hapart := axis_param_apart hparam
    rw [if_neg (by omega), if_neg (by omega), if_neg (by omega), if_neg (by omega)]
    unfold get_numbered_param
    simp only [hparam, Function.update_self]
    exact congrArg (Prod.mk true) (s.to_inches_to_mm axis value)
  | offset axis hid hlt =>
    rw [MAX_N_AXIS] at hlt
    have hparam : axis_param id = none := axis_param_of_between (by omega) (by omega)
    have hrow : axis_of id 5211 = some axis := axis_of_eq_some.mpr ⟨hid, hlt⟩
    have h5061 : axis_of id 5061 = none := axis_of_eq_none (by omega)
    have h5420 : axis_of id 5420 = none := axis_of_eq_none (by omega)
    have hunread : can_read_float_param id = false := by
      unfold can_read_float_param
      simp only [Bool.or_eq_false_iff, Bool.and_eq_false_iff, decide_eq_false_iff_not]
      omega
    rw [if_pos (by omega)]
    unfold get_numbered_param g92_result
    simp only [hparam, h5061, h5420, hrow, hunread, Function.update_self]
    rw [if_neg (by omega), if_neg (by omega), if_neg (by omega), if_neg Bool.false_ne_true]
    exact congrArg (Prod.mk false) (s.to_inches_to_mm axis value)
  | coord_select hid =>
    subst hid
    have hparam : axis_param 5220 = none := axis_param_of_between (by omega) (by omega)
    have h5061 : axis_of 5220 5061 = none := axis_of_eq_none (by omega)
    rw [if_neg (by omega), if_pos rfl]
    unfold get_numbered_param
    simp only [hparam, h5061, if_true]
  | selected_tool hid =>
    subst hid
    have hparam : axis_param 5400 = none := axis_param_eq_none (by omega)
    have h5061 : axis_of 5400 5061 = none := axis_of_eq_none (by omega)
    rw [if_neg (by omega), if_neg (by omega), if_pos rfl]
    unfold get_numbered_param
    simp only [hparam, h5061]
    rw [if_neg (by omega), if_true]
  | float_param hwrite =>
    have hrange := can_write_range hwrite
    rw [get_float_param (axis_param_of_can_write hwrite) (by omega)]
    have hread : can_read_float_param id = true ↔ ¬(1 ≤ id ∧ id ≤ 30) := by
      unfold can_read_float_param
      simp only [Bool.or_eq_true, Bool.and_eq_true, decide_eq_true_eq]
      omega
    have hoffset : ¬(5211 ≤ id ∧ id ≤ 5216) := by omega
    have hselect : id ≠ 5220 := by omega
    have htool : id ≠ 5400 := by omega
    simp only [Function.update_self, if_neg hoffset, if_neg hselect, if_neg htool]
    by_cases hfirst : 1 ≤ id ∧ id ≤ 30
    · rw [if_pos hfirst, if_neg (fun h => hread.mp h hfirst)]
    · rw [if_neg hfirst, if_pos (hread.mpr hfirst)]

/-- A parameter that can be written reads back as it was written, exactly if it is neither one of the
first thirty, nor a G92 offset or the number of the coordinate system, nor a tool number that is not
one. -/
theorem Wrote.reads_back_iff (h : Wrote factors s id value t) :
    (∀ result, t.get_numbered_param factors id result = (true, value)) ↔
      ¬(1 ≤ id ∧ id ≤ 30) ∧ ¬(5211 ≤ id ∧ id ≤ 5216) ∧ id ≠ 5220 ∧ (id = 5400 → (uint32_of value : ℚ) = value) := by
  simp only [h.get_same]
  by_cases hoffset : 5211 ≤ id ∧ id ≤ 5216
  · simp [hoffset]
  · by_cases hselect : id = 5220
    · refine iff_of_false (fun hall => ?_) fun hnot => hnot.2.2.1 hselect
      have hvalue := hall 0
      rw [if_neg hoffset, if_pos hselect, Prod.mk.injEq] at hvalue
      replace hvalue := hvalue.2
      have hfloor : ⌊value⌋ = ((⌊value⌋.toNat % 2 ^ 16 : Nat) : Int) + 1 := by
        nth_rewrite 1 [← hvalue]
        rw [Int.floor_add_one, Int.floor_natCast]
      omega
    · by_cases htool : id = 5400
      · simp [htool]
      · by_cases hfirst : 1 ≤ id ∧ id ≤ 30
        · simp [hoffset, hselect, htool, hfirst]
        · simp [hoffset, hselect, htool, hfirst]

end Writes

/-- A written parameter reads back as it was written, the selected tool without its fraction, and no
other parameter changes, except that a G92 offset moves the position of its axis. -/
theorem numbered_param_reads_back (factors : UnitFactors) (s : ParamState) (id : Int) (value : ℚ)
    (hset : (s.set_numbered_param factors id value).1 = true) :
    (¬(1 ≤ id ∧ id ≤ 30) → ¬(5211 ≤ id ∧ id ≤ 5216) → id ≠ 5220 →
      (id = 5400 → 0 ≤ value ∧ value < 2 ^ 32) → ∀ result,
      (s.set_numbered_param factors id value).2.get_numbered_param factors id result =
        (true, if id = 5400 then (⌊value⌋ : ℚ) else value)) ∧
    ∀ other result, other ≠ id → (5211 ≤ id → id ≤ 5216 → other ≠ id + 209) →
      (s.set_numbered_param factors id value).2.get_numbered_param factors other result =
        s.get_numbered_param factors other result := by
  have hwrote := set_numbered_param_wrote hset
  refine ⟨fun hfirst hoffset hselect htool result => ?_, fun other result hne hposition => ?_⟩
  · rw [hwrote.get_same, if_neg hoffset, if_neg hselect]
    by_cases hid : id = 5400
    · obtain ⟨hnonneg, hlt⟩ := htool hid
      have hfloor : 0 ≤ ⌊value⌋ := Int.floor_nonneg.mpr hnonneg
      have hfits : ⌊value⌋ < 2 ^ 32 := Int.floor_lt.mpr (by exact_mod_cast hlt)
      have hsame : ((uint32_of value : Nat) : Int) = ⌊value⌋ := by
        unfold uint32_of
        rw [Nat.mod_eq_of_lt (by omega), Int.toNat_of_nonneg hfloor]
      rw [if_pos hid, if_pos hid, ← hsame, Int.cast_natCast]
    · rw [if_neg hid, if_neg hid, if_neg hfirst]
  · exact hwrote.get_other hne hposition result

def inch : UnitFactors where
  INCH_PER_MM := 5 / 127
  MM_PER_INCH := 127 / 5
  exact := by norm_num

/-- A machine in inch mode with everything at 0. -/
def zeroed : ParamState where
  inches := true
  coords _ _ := 0
  coord_select := 0
  coord_system _ := 0
  coord_offset _ := 0
  tool_length_offset := 0
  selected_tool := 0
  n_axis := 3
  mpos _ := 0
  probe_position _ := 0
  probe_succeeded := false
  float_params _ := none

/-- An offset of G54 in inches. -/
theorem g54_offset_reads_back :
    (zeroed.set_numbered_param inch 5222 3).1 = true ∧
      (zeroed.set_numbered_param inch 5222 3).2.get_numbered_param inch 5222 0 = (true, 3) ∧
      (zeroed.set_numbered_param inch 5222 3).2.get_numbered_param inch 5221 0 =
        zeroed.get_numbered_param inch 5221 0 := by
  have hset : (zeroed.set_numbered_param inch 5222 3).1 = true := rfl
  obtain ⟨hsame, hother⟩ := numbered_param_reads_back inch zeroed 5222 3 hset
  exact ⟨hset, hsame (by omega) (by omega) (by omega) (by omega) 0, hother 5221 0 (by omega) (by omega)⟩

/-- The selected tool is a whole number. -/
theorem half_a_tool_is_lost :
    ¬∀ (factors : UnitFactors) (s : ParamState) (id : Int) (value : ℚ),
      (s.set_numbered_param factors id value).1 = true →
        (∀ result, (s.set_numbered_param factors id value).2.get_numbered_param factors id result = (true, value)) ∧
        ∀ other result, other ≠ id →
          (s.set_numbered_param factors id value).2.get_numbered_param factors other result =
            s.get_numbered_param factors other result := by
  intro hall
  have hwrote : Wrote inch zeroed 5400 (3 / 2) (zeroed.set_numbered_param inch 5400 (3 / 2)).2 :=
    set_numbered_param_wrote rfl
  have hread := (hall inch zeroed 5400 (3 / 2) rfl).1
  have hwhole := (hwrote.reads_back_iff.mp hread).2.2.2 rfl
  have hfloor : ⌊(3 / 2 : ℚ)⌋ = 1 := by norm_num
  rw [uint32_of, hfloor] at hwhole
  norm_num at hwhole

end ParamState

end DuneWeaver
