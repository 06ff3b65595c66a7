import DuneWeaver.FixedPoint.Slope
import Mathlib.Data.Rat.Floor
import Mathlib.Data.Rat.Cast.Order
import Mathlib.Tactic.FieldSimp
import Mathlib.Tactic.Linarith

namespace DuneWeaver.Spindles

/-- `Configuration::speedEntry`. -/
structure SpeedEntry where
  speed : UInt32
  percent : ℚ
  offset : UInt32 := 0
  scale : UInt32 := 0
  deriving DecidableEq

/-- The conversion of a number that is not negative to `uint32_t`. -/
def truncated (x : ℚ) : UInt32 := .ofNat ⌊x⌋₊

/-- What a percentage of the speed of the device comes to. -/
def deviceValue (max_dev_speed : UInt32) (percent : ℚ) : ℚ := percent / 100 * max_dev_speed.toNat

/-- The slope of a segment; a shelf has none. -/
def slope (max_dev_speed : UInt32) (e next : SpeedEntry) : ℚ :=
  let deltaPercent := (next.percent - e.percent) / 100
  let deltaRPM : ℚ := (next.speed - e.speed).toNat
  let scale := if deltaRPM = 0 then 0 else deltaPercent / deltaRPM
  scale * max_dev_speed.toNat

/-- The loop of `setupSpeeds`, and the final entry behind it. -/
def setupLoop (max_dev_speed : UInt32) : List SpeedEntry → List SpeedEntry
  | [] => []
  | [last] => [{ last with offset := truncated (deviceValue max_dev_speed last.percent), scale := 0 }]
  | e :: next :: rest =>
    { e with
      offset := truncated (deviceValue max_dev_speed e.percent)
      scale := truncated (slope max_dev_speed e next * 65536) } :: setupLoop max_dev_speed (next :: rest)

def setupSpeeds (max_dev_speed : UInt32) (speeds : List SpeedEntry) : List SpeedEntry :=
  if speeds.length < 2 then speeds else setupLoop max_dev_speed speeds

/-- The loop of `mapSpeed` over the segments, and what comes of the one it stops at. -/
def mapLoop (speed : UInt32) : List SpeedEntry → UInt32
  | [] => 0
  | [last] => last.offset
  | e :: next :: rest =>
    if speed < next.speed then
      e.offset + (((speed - e.speed).toUInt64 * e.scale.toUInt64) >>> 16).toUInt32
    else mapLoop speed (next :: rest)

/-- `speed * sys.spindle_speed_ovr / 100`. -/
def overridden (spindle_speed_ovr : UInt8) (speed : UInt32) : UInt32 := speed * spindle_speed_ovr.toUInt32 / 100

def mapSpeed (speeds : List SpeedEntry) (spindle_speed_ovr : UInt8) (speed : UInt32) : UInt32 :=
  match speeds with
  | [] => 0
  | first :: rest =>
    let speed := overridden spindle_speed_ovr speed
    if speed < first.speed then first.offset
    else if speed = 0 then first.offset
    else mapLoop speed (first :: rest)

/-- Two entries that follow each other. -/
structure Follows (e next : SpeedEntry) : Prop where
  speed_le : e.speed.toNat ≤ next.speed.toNat
  near : next.speed.toNat ≤ e.speed.toNat + 65536
  percent_le : e.percent ≤ next.percent

/-- A speed map of at least two entries. -/
structure SpeedMap where
  entries : List SpeedEntry
  two : 2 ≤ entries.length
  follows : entries.IsChain Follows
  percents : ∀ e ∈ entries, 0 ≤ e.percent ∧ e.percent ≤ 100

/-- The point of the straight line between two entries. -/
def interpolated (max_dev_speed : UInt32) (e next : SpeedEntry) (speed : ℕ) : ℚ :=
  deviceValue max_dev_speed
    (e.percent + (next.percent - e.percent) * (speed - e.speed.toNat) / (next.speed.toNat - e.speed.toNat))

/-- The loop of `mapSpeed` in numbers without bounds. -/
def wholeLoop (max_dev_speed : UInt32) (speed : ℕ) : List SpeedEntry → ℕ
  | [] => 0
  | [last] => ⌊deviceValue max_dev_speed last.percent⌋₊
  | e :: next :: rest =>
    if speed < next.speed.toNat then
      FixedPoint.line 65536 (deviceValue max_dev_speed e.percent) (slope max_dev_speed e next) (speed - e.speed.toNat)
    else wholeLoop max_dev_speed speed (next :: rest)

/-- `setupSpeeds` and `mapSpeed` in numbers without bounds. -/
def wholeSpeed (max_dev_speed : UInt32) (entries : List SpeedEntry) (speed : ℕ) : ℕ :=
  match entries with
  | [] => 0
  | first :: rest =>
    if speed < first.speed.toNat ∨ speed = 0 then ⌊deviceValue max_dev_speed first.percent⌋₊
    else wholeLoop max_dev_speed speed (first :: rest)

section Values

variable (max_dev_speed : UInt32) {e next : SpeedEntry}

theorem deviceValue_nonneg {percent : ℚ} (h : 0 ≤ percent) : 0 ≤ deviceValue max_dev_speed percent := by
  unfold deviceValue
  positivity

theorem deviceValue_mono {percent percent' : ℚ} (h : percent ≤ percent') :
    deviceValue max_dev_speed percent ≤ deviceValue max_dev_speed percent' := by
  unfold deviceValue
  have hdiv : percent / 100 ≤ percent' / 100 := div_le_div_of_nonneg_right h (by norm_num)
  exact mul_le_mul_of_nonneg_right hdiv (Nat.cast_nonneg _)

theorem deviceValue_le {percent : ℚ} (h : percent ≤ 100) : deviceValue max_dev_speed percent ≤ max_dev_speed.toNat := by
  have hfull : deviceValue max_dev_speed 100 = max_dev_speed.toNat := by
    unfold deviceValue
    norm_num
  rw [← hfull]
  exact deviceValue_mono max_dev_speed h

/-- The difference of two speeds, which the machine takes without a borrow. -/
theorem Follows.toNat_sub (h : Follows e next) : (next.speed - e.speed).toNat = next.speed.toNat - e.speed.toNat :=
  UInt32.toNat_sub_of_le next.speed e.speed (UInt32.le_iff_toNat_le.mpr h.speed_le)

/-- The slope, times the length of the segment, is what the value gains. -/
theorem Follows.slope_mul (h : Follows e next) (hne : e.speed.toNat < next.speed.toNat) :
    slope max_dev_speed e next * (next.speed.toNat - e.speed.toNat) =
      deviceValue max_dev_speed next.percent - deviceValue max_dev_speed e.percent := by
  have hdelta : ((next.speed - e.speed).toNat : ℚ) = next.speed.toNat - e.speed.toNat := by
    rw [h.toNat_sub, Nat.cast_sub h.speed_le]
  have hpos : (next.speed.toNat : ℚ) - e.speed.toNat ≠ 0 := by
    have : (e.speed.toNat : ℚ) < next.speed.toNat := Nat.cast_lt.mpr hne
    linarith
  unfold slope deviceValue
  simp only [hdelta, if_neg hpos]
  field_simp

theorem Follows.slope_nonneg (h : Follows e next) : 0 ≤ slope max_dev_speed e next := by
  have hgain := sub_nonneg.mpr h.percent_le
  unfold slope
  dsimp only
  split
  · simp
  · positivity

/-- Along a segment the line stays below the value it leads to. -/
theorem Follows.line_le_value (h : Follows e next) {k : ℕ} (hk : e.speed.toNat + k ≤ next.speed.toNat) :
    deviceValue max_dev_speed e.percent + k * slope max_dev_speed e next ≤ deviceValue max_dev_speed next.percent := by
  rcases Nat.eq_zero_or_pos k with rfl | hpos
  · have hmono := deviceValue_mono max_dev_speed h.percent_le
    simpa using hmono
  · have hmul := h.slope_mul max_dev_speed (by omega)
    have hlength : (k : ℚ) ≤ next.speed.toNat - e.speed.toNat := by
      have : ((e.speed.toNat + k : ℕ) : ℚ) ≤ next.speed.toNat := Nat.cast_le.mpr hk
      rw [Nat.cast_add] at this
      linarith
    have hle := mul_le_mul_of_nonneg_right hlength (h.slope_nonneg max_dev_speed)
    linarith

/-- A slope gains no more than the whole range of the device for each step. -/
theorem Follows.slope_le (h : Follows e next) (hfirst : 0 ≤ e.percent) (hlast : next.percent ≤ 100) :
    slope max_dev_speed e next ≤ max_dev_speed.toNat := by
  by_cases hne : e.speed.toNat < next.speed.toNat
  · have hone := h.line_le_value max_dev_speed (k := 1) hne
    have hstart := deviceValue_nonneg max_dev_speed hfirst
    have hend := deviceValue_le max_dev_speed hlast
    rw [Nat.cast_one] at hone
    linarith
  · have hzero : slope max_dev_speed e next = 0 := by
      have hdelta : (next.speed - e.speed).toNat = 0 := by
        have := h.speed_le
        rw [h.toNat_sub]
        omega
      unfold slope
      simp [hdelta]
    rw [hzero]
    exact Nat.cast_nonneg _

end Values

section Words

theorem truncated_toNat {x : ℚ} (h : x < 4294967296) : (truncated x).toNat = ⌊x⌋₊ := by
  have hlt : ⌊x⌋₊ < 4294967296 := by
    rw [Nat.floor_lt' (by norm_num)]
    exact_mod_cast h
  rw [truncated, UInt32.toNat_ofNat']
  exact Nat.mod_eq_of_lt hlt

variable {max_dev_speed : UInt32} (hmax : max_dev_speed.toNat < 65536)
include hmax

theorem deviceValue_lt {percent : ℚ} (h : percent ≤ 100) : deviceValue max_dev_speed percent < 65536 := by
  have hle := deviceValue_le max_dev_speed h
  have hcast : (max_dev_speed.toNat : ℚ) < 65536 := by exact_mod_cast hmax
  linarith

theorem offset_toNat {percent : ℚ} (h : percent ≤ 100) :
    (truncated (deviceValue max_dev_speed percent)).toNat = ⌊deviceValue max_dev_speed percent⌋₊ := by
  have hlt := deviceValue_lt hmax h
  exact truncated_toNat (by linarith)

variable {e next : SpeedEntry} (h : Follows e next) (hfirst : 0 ≤ e.percent) (hlast : next.percent ≤ 100)
include h hfirst hlast

theorem scale_lt : slope max_dev_speed e next * 65536 < 4294967296 := by
  have hle := h.slope_le max_dev_speed hfirst hlast
  have hcast : (max_dev_speed.toNat : ℚ) + 1 ≤ 65536 := by exact_mod_cast hmax
  linarith

/-- The interpolation in words of 32 and 64 bits does not overflow. -/
theorem interpolation_toNat {speed : UInt32} (hfrom : e.speed.toNat ≤ speed.toNat)
    (hto : speed.toNat < next.speed.toNat) :
    (truncated (deviceValue max_dev_speed e.percent) +
        (((speed - e.speed).toUInt64 * (truncated (slope max_dev_speed e next * 65536)).toUInt64) >>>
          16).toUInt32).toNat =
      FixedPoint.line 65536 (deviceValue max_dev_speed e.percent) (slope max_dev_speed e next)
        (speed.toNat - e.speed.toNat) := by
  have hscale := truncated_toNat (scale_lt hmax h hfirst hlast)
  have hoffset := offset_toNat hmax (h.percent_le.trans hlast)
  have hdelta : (speed - e.speed).toNat = speed.toNat - e.speed.toNat :=
    UInt32.toNat_sub_of_le speed e.speed (UInt32.le_iff_toNat_le.mpr hfrom)
  have hend : FixedPoint.line 65536 (deviceValue max_dev_speed e.percent) (slope max_dev_speed e next)
      (speed.toNat - e.speed.toNat) ≤ ⌊deviceValue max_dev_speed next.percent⌋₊ :=
    FixedPoint.line_le_floor (by norm_num) (deviceValue_nonneg max_dev_speed hfirst) (h.slope_nonneg max_dev_speed)
      (h.line_le_value max_dev_speed (by omega))
  have hfloor : ⌊deviceValue max_dev_speed next.percent⌋₊ < 65536 := by
    rw [Nat.floor_lt' (by norm_num)]
    exact_mod_cast deviceValue_lt hmax hlast
  unfold FixedPoint.line at hend ⊢
  rw [Nat.cast_ofNat] at hend ⊢
  have hword : ⌊slope max_dev_speed e next * 65536⌋₊ < 4294967296 := by
    rw [← hscale]
    exact UInt32.toNat_lt _
  have hnear := h.near
  have hproduct : (speed.toNat - e.speed.toNat) * ⌊slope max_dev_speed e next * 65536⌋₊ < 18446744073709551616 := by
    calc (speed.toNat - e.speed.toNat) * ⌊slope max_dev_speed e next * 65536⌋₊
        ≤ 65536 * 4294967296 := Nat.mul_le_mul (by omega) hword.le
      _ < 18446744073709551616 := by norm_num
  rw [UInt32.toNat_add, UInt64.toNat_toUInt32, UInt64.toNat_shiftRight, UInt64.toNat_mul, UInt32.toNat_toUInt64,
    UInt32.toNat_toUInt64, hdelta, hscale, hoffset]
  have hshift : ∀ n : ℕ, n >>> ((16 : UInt64).toNat % 64) = n / 65536 := by
    intro n
    rw [Nat.shiftRight_eq_div_pow]
    rfl
  rw [hshift]
  generalize hproducts : (speed.toNat - e.speed.toNat) * ⌊slope max_dev_speed e next * 65536⌋₊ = product at *
  omega

end Words

section Loops

variable {max_dev_speed : UInt32}

/-- What is left of a map behind its first entry. -/
structure Rising (entries : List SpeedEntry) : Prop where
  follows : entries.IsChain Follows
  percents : ∀ e ∈ entries, 0 ≤ e.percent ∧ e.percent ≤ 100

theorem Rising.tail {e : SpeedEntry} {rest : List SpeedEntry} (h : Rising (e :: rest)) : Rising rest :=
  ⟨h.follows.tail, fun e he => h.percents e (List.mem_cons_of_mem _ he)⟩

theorem Rising.head {e next : SpeedEntry} {rest : List SpeedEntry} (h : Rising (e :: next :: rest)) : Follows e next :=
  (List.isChain_cons_cons.mp h.follows).1

theorem setupLoop_cons (max_dev_speed : UInt32) (e : SpeedEntry) (rest : List SpeedEntry) :
    ∃ scale more, setupLoop max_dev_speed (e :: rest) =
      { e with offset := truncated (deviceValue max_dev_speed e.percent), scale } :: more := by
  cases rest with
  | nil => exact ⟨0, [], rfl⟩
  | cons next rest => exact ⟨_, _, rfl⟩

theorem mapLoop_toNat (hmax : max_dev_speed.toNat < 65536) (speed : UInt32) {first : SpeedEntry}
    {rest : List SpeedEntry}
    (h : Rising (first :: rest)) (hfrom : first.speed.toNat ≤ speed.toNat) :
    (mapLoop speed (setupLoop max_dev_speed (first :: rest))).toNat =
      wholeLoop max_dev_speed speed.toNat (first :: rest) := by
  induction rest generalizing first with
  | nil => exact offset_toNat hmax (h.percents first List.mem_cons_self).2
  | cons next rest ih =>
    have hpercents := h.percents next (List.mem_cons_of_mem _ List.mem_cons_self)
    have hrest := ih h.tail
    obtain ⟨scale, more, hsetup⟩ := setupLoop_cons max_dev_speed next rest
    rw [hsetup] at hrest
    rw [setupLoop, hsetup, mapLoop, wholeLoop]
    simp only [UInt32.lt_iff_toNat_lt]
    by_cases hto : speed.toNat < next.speed.toNat
    · rw [if_pos hto, if_pos hto]
      exact interpolation_toNat hmax h.head (h.percents first List.mem_cons_self).1 hpercents.2 hfrom hto
    · rw [if_neg hto, if_neg hto]
      exact hrest (not_lt.mp hto)

/-- From the first entry of a map on the value does not get below that of the entry. -/
theorem floor_le_wholeLoop {first : SpeedEntry} {rest : List SpeedEntry} (h : Rising (first :: rest)) (speed : ℕ) :
    ⌊deviceValue max_dev_speed first.percent⌋₊ ≤ wholeLoop max_dev_speed speed (first :: rest) := by
  induction rest generalizing first with
  | nil => exact Nat.le_refl _
  | cons next rest ih =>
    rw [wholeLoop]
    split
    · exact FixedPoint.floor_le_line _ _ _ _
    · exact (Nat.floor_mono (deviceValue_mono max_dev_speed h.head.percent_le)).trans (ih h.tail)

/-- Within a segment the value does not get past that of the next entry. -/
theorem line_le_next (max_dev_speed : UInt32) {e next : SpeedEntry} (h : Follows e next) (hfirst : 0 ≤ e.percent)
    {speed : ℕ}
    (hto : speed < next.speed.toNat) :
    FixedPoint.line 65536 (deviceValue max_dev_speed e.percent) (slope max_dev_speed e next) (speed - e.speed.toNat) ≤
      ⌊deviceValue max_dev_speed next.percent⌋₊ := by
  have hle := h.speed_le
  exact FixedPoint.line_le_floor (by norm_num) (deviceValue_nonneg max_dev_speed hfirst) (h.slope_nonneg max_dev_speed)
    (h.line_le_value max_dev_speed (by omega))

theorem wholeLoop_mono {first : SpeedEntry} {rest : List SpeedEntry} (h : Rising (first :: rest)) {speed speed' : ℕ}
    (hle : speed ≤ speed') :
    wholeLoop max_dev_speed speed (first :: rest) ≤ wholeLoop max_dev_speed speed' (first :: rest) := by
  induction rest generalizing first with
  | nil => exact Nat.le_refl _
  | cons next rest ih =>
    have hfirst := (h.percents first List.mem_cons_self).1
    rw [wholeLoop, wholeLoop]
    by_cases hto' : speed' < next.speed.toNat
    · have hto : speed < next.speed.toNat := by omega
      rw [if_pos hto, if_pos hto']
      exact FixedPoint.line_mono _ _ _ (by omega)
    · rw [if_neg hto']
      by_cases hto : speed < next.speed.toNat
      · rw [if_pos hto]
        exact (line_le_next max_dev_speed h.head hfirst hto).trans (floor_le_wholeLoop h.tail speed')
      · rw [if_neg hto]
        exact ih h.tail

theorem wholeLoop_le_last {first : SpeedEntry} {rest : List SpeedEntry} (h : Rising (first :: rest)) (speed : ℕ)
    {last : SpeedEntry} (hlast : (first :: rest).getLast? = some last) :
    wholeLoop max_dev_speed speed (first :: rest) ≤ ⌊deviceValue max_dev_speed last.percent⌋₊ := by
  -- from the last entry on the value stays what it is
  induction rest generalizing first with
  | nil =>
    rw [List.getLast?_singleton, Option.some.injEq] at hlast
    rw [wholeLoop, hlast]
  | cons next rest ih =>
    rw [List.getLast?_cons_cons] at hlast
    rw [wholeLoop]
    split
    · next hto =>
      exact (line_le_next max_dev_speed h.head (h.percents first List.mem_cons_self).1 hto).trans
        ((floor_le_wholeLoop h.tail speed).trans (ih h.tail hlast))
    · exact ih h.tail hlast

/-- The speeds of a map do not decrease. -/
theorem Rising.speed_le {e next : SpeedEntry} {rest : List SpeedEntry} (h : Rising (e :: rest)) (hnext : next ∈ rest) :
    e.speed.toNat ≤ next.speed.toNat := by
  induction rest generalizing e with
  | nil => exact absurd hnext List.not_mem_nil
  | cons other rest ih =>
    rcases List.mem_cons.mp hnext with rfl | hmem
    · exact h.head.speed_le
    · exact h.head.speed_le.trans (ih h.tail hmem)

/-- The loop stops at the segment that the speed is in. -/
theorem wholeLoop_segment {front back : List SpeedEntry} {e next : SpeedEntry} {speed : ℕ}
    (h : Rising (front ++ e :: next :: back)) (hfrom : e.speed.toNat ≤ speed) (hto : speed < next.speed.toNat) :
    wholeLoop max_dev_speed speed (front ++ e :: next :: back) =
      FixedPoint.line 65536 (deviceValue max_dev_speed e.percent) (slope max_dev_speed e next)
        (speed - e.speed.toNat) := by
  induction front with
  | nil => rw [List.nil_append, wholeLoop, if_pos hto]
  | cons first front ih =>
    obtain ⟨second, rest, hrest⟩ := List.exists_cons_of_ne_nil (show front ++ e :: next :: back ≠ [] by simp)
    rw [List.cons_append] at h ⊢
    have hih := ih h.tail
    rw [hrest] at h hih ⊢
    have hsecond : second.speed.toNat ≤ e.speed.toNat := by
      have hmem : e ∈ second :: rest := by simp [← hrest]
      rcases List.mem_cons.mp hmem with rfl | hlater
      · exact Nat.le_refl _
      · exact h.tail.speed_le hlater
    rw [wholeLoop, if_neg (by omega), hih]

/-- The rounding of a segment. -/
theorem line_near {e next : SpeedEntry} (h : Follows e next) (hfirst : 0 ≤ e.percent) {speed : ℕ}
    (hfrom : e.speed.toNat < speed) (hto : speed < next.speed.toNat) :
    |(FixedPoint.line 65536 (deviceValue max_dev_speed e.percent) (slope max_dev_speed e next)
        (speed - e.speed.toNat) : ℚ) - interpolated max_dev_speed e next speed| < 3 := by
  have hbelow := FixedPoint.line_le (k := speed - e.speed.toNat) (show 0 < 65536 by norm_num)
    (deviceValue_nonneg max_dev_speed hfirst) (h.slope_nonneg max_dev_speed)
  have hnear := h.near
  have habove := FixedPoint.lt_line_add (deviceValue max_dev_speed e.percent) (slope max_dev_speed e next)
    (show 0 < 65536 by norm_num) (show speed - e.speed.toNat ≤ 65536 by omega)
  have hexact : deviceValue max_dev_speed e.percent + (speed - e.speed.toNat : ℕ) * slope max_dev_speed e next =
      interpolated max_dev_speed e next speed := by
    have hmul := h.slope_mul max_dev_speed (by omega)
    have hpos : (next.speed.toNat : ℚ) - e.speed.toNat ≠ 0 := by
      have : (e.speed.toNat : ℚ) < next.speed.toNat := Nat.cast_lt.mpr (by omega)
      linarith
    have hslope : slope max_dev_speed e next =
        (deviceValue max_dev_speed next.percent - deviceValue max_dev_speed e.percent) /
          (next.speed.toNat - e.speed.toNat) := eq_div_of_mul_eq hpos hmul
    rw [hslope, Nat.cast_sub hfrom.le]
    unfold interpolated deviceValue
    field_simp
  rw [hexact] at hbelow habove
  rw [abs_lt]
  constructor
  · linarith
  · linarith

end Loops

theorem SpeedMap.rising (map : SpeedMap) : Rising map.entries := ⟨map.follows, map.percents⟩

theorem overridden_toNat {spindle_speed_ovr : UInt8} {speed : UInt32}
    (h : speed.toNat * spindle_speed_ovr.toNat < 4294967296) :
    (overridden spindle_speed_ovr speed).toNat = speed.toNat * spindle_speed_ovr.toNat / 100 := by
  rw [overridden, UInt32.toNat_div, UInt32.toNat_mul, UInt8.toNat_toUInt32]
  rw [Nat.mod_eq_of_lt h]
  rfl

/-- The words of the two functions hold what the numbers without bounds are. -/
theorem mapSpeed_toNat (map : SpeedMap) {max_dev_speed : UInt32} (hmax : max_dev_speed.toNat < 65536)
    (spindle_speed_ovr : UInt8) (speed : UInt32) :
    (mapSpeed (setupSpeeds max_dev_speed map.entries) spindle_speed_ovr speed).toNat =
      wholeSpeed max_dev_speed map.entries (overridden spindle_speed_ovr speed).toNat := by
  have htwo : ¬map.entries.length < 2 := not_lt.mpr map.two
  rw [setupSpeeds, if_neg htwo]
  have hrising := map.rising
  cases hentries : map.entries with
  | nil => rfl
  | cons first rest =>
    rw [hentries] at hrising
    have hoffset := offset_toNat hmax (hrising.percents first List.mem_cons_self).2
    have hloop := mapLoop_toNat hmax (overridden spindle_speed_ovr speed) hrising
    obtain ⟨scale, more, hsetup⟩ := setupLoop_cons max_dev_speed first rest
    rw [hsetup] at hloop ⊢
    simp only [mapSpeed, wholeSpeed, UInt32.lt_iff_toNat_lt]
    by_cases hbelow : (overridden spindle_speed_ovr speed).toNat < first.speed.toNat
    · rw [if_pos hbelow, if_pos (.inl hbelow), hoffset]
    · by_cases hzero : overridden spindle_speed_ovr speed = 0
      · have hnat : (overridden spindle_speed_ovr speed).toNat = 0 := by rw [hzero]; rfl
        rw [if_neg hbelow, if_pos hzero, if_pos (.inr hnat), hoffset]
      · have hnat : (overridden spindle_speed_ovr speed).toNat ≠ 0 :=
          fun h => hzero (UInt32.toNat_inj.mp h)
        rw [if_neg hbelow, if_neg hzero, if_neg (not_or.mpr ⟨hbelow, hnat⟩)]
        exact hloop (not_lt.mp hbelow)

section Whole

variable (map : SpeedMap) (max_dev_speed : UInt32)

theorem wholeSpeed_mono {speed speed' : ℕ} (hle : speed ≤ speed') :
    wholeSpeed max_dev_speed map.entries speed ≤ wholeSpeed max_dev_speed map.entries speed' := by
  have hrising := map.rising
  unfold wholeSpeed
  cases hentries : map.entries with
  | nil => exact Nat.le_refl _
  | cons first rest =>
    rw [hentries] at hrising
    dsimp only
    by_cases hstart' : speed' < first.speed.toNat ∨ speed' = 0
    · have hstart : speed < first.speed.toNat ∨ speed = 0 := by omega
      rw [if_pos hstart, if_pos hstart']
    · rw [if_neg hstart']
      split
      · exact floor_le_wholeLoop hrising speed'
      · exact wholeLoop_mono hrising hle

theorem wholeSpeed_le_last {last : SpeedEntry} (hlast : map.entries.getLast? = some last) (speed : ℕ) :
    wholeSpeed max_dev_speed map.entries speed ≤ ⌊deviceValue max_dev_speed last.percent⌋₊ := by
  have hrising := map.rising
  unfold wholeSpeed
  cases hentries : map.entries with
  | nil => exact Nat.zero_le _
  | cons first rest =>
    rw [hentries] at hrising hlast
    dsimp only
    split
    · exact (floor_le_wholeLoop hrising speed).trans (wholeLoop_le_last hrising speed hlast)
    · exact wholeLoop_le_last hrising speed hlast

theorem wholeSpeed_near {front back : List SpeedEntry} {e next : SpeedEntry}
    (hentries : map.entries = front ++ e :: next :: back) {speed : ℕ} (hfrom : e.speed.toNat < speed)
    (hto : speed < next.speed.toNat) :
    |(wholeSpeed max_dev_speed map.entries speed : ℚ) - interpolated max_dev_speed e next speed| < 3 := by
  have hrising := map.rising
  rw [hentries] at hrising
  have hfollows : Follows e next := (List.isChain_append.mp hrising.follows).2.1 |> List.isChain_cons_cons.mp |>.1
  have hpercent := (hrising.percents e (by simp)).1
  have hwhole : wholeSpeed max_dev_speed map.entries speed =
      wholeLoop max_dev_speed speed (front ++ e :: next :: back) := by
    rw [hentries]
    cases front with
    | nil => exact if_neg (by omega)
    | cons first front =>
      have hle : first.speed.toNat ≤ e.speed.toNat := hrising.speed_le (by simp)
      exact if_neg (by omega)
  rw [hwhole, wholeLoop_segment hrising hfrom.le hto]
  exact line_near hfollows hpercent hfrom hto

end Whole

/-- The numbers that a speed and a map lead to fit their words: the overridden speed, the
value of each entry, and for each segment the differences, the slope, the product and the
sum of the interpolation, at every speed in it. -/
structure InRange (map : SpeedMap) (max_dev_speed : UInt32) (spindle_speed_ovr : UInt8) (speed : UInt32) : Prop where
  override : speed.toNat * spindle_speed_ovr.toNat < 4294967296
  value : ∀ e ∈ map.entries,
    0 ≤ deviceValue max_dev_speed e.percent ∧ deviceValue max_dev_speed e.percent < 4294967296
  slope : ∀ front e next back, map.entries = front ++ e :: next :: back →
    e.speed.toNat ≤ next.speed.toNat ∧ 0 ≤ slope max_dev_speed e next * 65536 ∧
      slope max_dev_speed e next * 65536 < 4294967296
  interpolation : ∀ front e next back, map.entries = front ++ e :: next :: back →
    ∀ n, e.speed.toNat ≤ n → n < next.speed.toNat →
      (n - e.speed.toNat) * ⌊Spindles.slope max_dev_speed e next * 65536⌋₊ < 18446744073709551616 ∧
        FixedPoint.line 65536 (deviceValue max_dev_speed e.percent) (Spindles.slope max_dev_speed e next)
          (n - e.speed.toNat) < 4294967296

theorem inRange (map : SpeedMap) {max_dev_speed : UInt32} (hmax : max_dev_speed.toNat < 65536)
    {spindle_speed_ovr : UInt8} {speed : UInt32} (hproduct : speed.toNat * spindle_speed_ovr.toNat < 4294967296) :
    InRange map max_dev_speed spindle_speed_ovr speed := by
  have hpair : ∀ front e next back, map.entries = front ++ e :: next :: back →
      Follows e next ∧ 0 ≤ e.percent ∧ next.percent ≤ 100 := by
    intro front e next back hentries
    have hfollows := map.follows
    have hpercents := map.percents
    rw [hentries] at hfollows hpercents
    exact ⟨(List.isChain_cons_cons.mp (List.isChain_append.mp hfollows).2.1).1, (hpercents e (by simp)).1,
      (hpercents next (by simp)).2⟩
  refine ⟨hproduct, fun e he => ?_, fun front e next back hentries => ?_,
    fun front e next back hentries n hfrom hto => ?_⟩
  · have hlt := deviceValue_lt hmax (map.percents e he).2
    exact ⟨deviceValue_nonneg max_dev_speed (map.percents e he).1, by linarith⟩
  · obtain ⟨hfollows, hfirst, hlast⟩ := hpair front e next back hentries
    have hslope := hfollows.slope_nonneg max_dev_speed
    exact ⟨hfollows.speed_le, by positivity, scale_lt hmax hfollows hfirst hlast⟩
  · obtain ⟨hfollows, hfirst, hlast⟩ := hpair front e next back hentries
    have hscale := truncated_toNat (scale_lt hmax hfollows hfirst hlast)
    have hword : ⌊slope max_dev_speed e next * 65536⌋₊ < 4294967296 := by
      rw [← hscale]
      exact UInt32.toNat_lt _
    have hnear := hfollows.near
    constructor
    · calc (n - e.speed.toNat) * ⌊slope max_dev_speed e next * 65536⌋₊
          ≤ 65536 * 4294967296 := Nat.mul_le_mul (by omega) hword.le
        _ < 18446744073709551616 := by norm_num
    · have hfloor : ⌊deviceValue max_dev_speed next.percent⌋₊ < 65536 := by
        rw [Nat.floor_lt' (by norm_num)]
        exact_mod_cast deviceValue_lt hmax hlast
      have hline := line_le_next max_dev_speed hfollows hfirst hto
      omega

/-- The speeds that a map gives the device rise with the requested speed, end at the value
of the last entry, are within three units of the straight lines between the entries, and
come of numbers that fit their words. -/
theorem mapSpeed_follows_map (map : SpeedMap) (max_dev_speed : UInt32) (hmax : max_dev_speed.toNat < 65536)
    (spindle_speed_ovr : UInt8) (hovr : 10 ≤ spindle_speed_ovr.toNat ∧ spindle_speed_ovr.toNat ≤ 200) :
    (∀ speed speed' : UInt32, speed ≤ speed' → speed'.toNat ≤ 2 ^ 24 →
      mapSpeed (setupSpeeds max_dev_speed map.entries) spindle_speed_ovr speed ≤
        mapSpeed (setupSpeeds max_dev_speed map.entries) spindle_speed_ovr speed') ∧
    (∀ speed : UInt32, ∀ last ∈ map.entries.getLast?,
      (mapSpeed (setupSpeeds max_dev_speed map.entries) spindle_speed_ovr speed).toNat ≤
        ⌊deviceValue max_dev_speed last.percent⌋₊) ∧
    (∀ speed : UInt32, ∀ front e next back, map.entries = front ++ e :: next :: back →
      e.speed < overridden spindle_speed_ovr speed → overridden spindle_speed_ovr speed < next.speed →
        |((mapSpeed (setupSpeeds max_dev_speed map.entries) spindle_speed_ovr speed).toNat : ℚ) -
          interpolated max_dev_speed e next (overridden spindle_speed_ovr speed).toNat| < 3) ∧
    ∀ speed : UInt32, speed.toNat ≤ 2 ^ 24 → InRange map max_dev_speed spindle_speed_ovr speed ∧
      (overridden spindle_speed_ovr speed).toNat = speed.toNat * spindle_speed_ovr.toNat / 100 ∧
      (mapSpeed (setupSpeeds max_dev_speed map.entries) spindle_speed_ovr speed).toNat =
        wholeSpeed max_dev_speed map.entries (overridden spindle_speed_ovr speed).toNat := by
  have hproduct : ∀ speed : UInt32, speed.toNat ≤ 2 ^ 24 → speed.toNat * spindle_speed_ovr.toNat < 4294967296 := by
    intro speed hspeed
    calc speed.toNat * spindle_speed_ovr.toNat ≤ 2 ^ 24 * 200 := Nat.mul_le_mul hspeed hovr.2
      _ < 4294967296 := by norm_num
  refine ⟨fun speed speed' hle hspeed' => ?_, fun speed last hlast => ?_,
    fun speed front e next back hentries hfrom hto => ?_,
    fun speed hspeed => ⟨inRange map hmax (hproduct speed hspeed), overridden_toNat (hproduct speed hspeed),
      mapSpeed_toNat map hmax spindle_speed_ovr speed⟩⟩
  · have hnat : speed.toNat ≤ speed'.toNat := UInt32.le_iff_toNat_le.mp hle
    rw [UInt32.le_iff_toNat_le, mapSpeed_toNat map hmax, mapSpeed_toNat map hmax,
      overridden_toNat (hproduct speed (hnat.trans hspeed')), overridden_toNat (hproduct speed' hspeed')]
    exact wholeSpeed_mono map max_dev_speed (Nat.div_le_div_right (Nat.mul_le_mul_right _ hnat))
  · rw [mapSpeed_toNat map hmax]
    exact wholeSpeed_le_last map max_dev_speed hlast _
  · rw [mapSpeed_toNat map hmax]
    exact wholeSpeed_near map max_dev_speed hentries (UInt32.lt_iff_toNat_lt.mp hfrom) (UInt32.lt_iff_toNat_lt.mp hto)

/-- A shelf at a fifth of the range up to 1000, and a line to the full range at 4000. -/
def shelf : SpeedMap where
  entries := [⟨0, 0, 0, 0⟩, ⟨0, 20, 0, 0⟩, ⟨1000, 20, 0, 0⟩, ⟨4000, 100, 0, 0⟩]
  two := by decide
  follows := by
    simp only [List.isChain_cons_cons, List.isChain_singleton, and_true]
    exact ⟨⟨by decide, by decide, by norm_num⟩, ⟨by decide, by decide, by norm_num⟩,
      ⟨by decide, by decide, by norm_num⟩⟩
  percents := by
    simp only [List.forall_mem_cons]
    norm_num

/-- From the shelf up the line, below its end, near it halfway, and with nothing that overflows. -/
theorem shelf_follows_map :
    mapSpeed (setupSpeeds 1023 shelf.entries) 100 500 ≤ mapSpeed (setupSpeeds 1023 shelf.entries) 100 2500 ∧
      (mapSpeed (setupSpeeds 1023 shelf.entries) 100 2500).toNat ≤ ⌊deviceValue 1023 100⌋₊ ∧
      |((mapSpeed (setupSpeeds 1023 shelf.entries) 100 2500).toNat : ℚ) -
        interpolated 1023 ⟨1000, 20, 0, 0⟩ ⟨4000, 100, 0, 0⟩ (overridden 100 2500).toNat| < 3 ∧
      InRange shelf 1023 100 2500 := by
  obtain ⟨hrises, hends, hnear, hrange⟩ := mapSpeed_follows_map shelf 1023 (by decide) 100 (by decide)
  refine ⟨hrises 500 2500 (by decide) (by decide), ?_, ?_, (hrange 2500 (by decide)).1⟩
  · exact hends 2500 ⟨4000, 100, 0, 0⟩ rfl
  · exact hnear 2500 [⟨0, 0, 0, 0⟩, ⟨0, 20, 0, 0⟩] ⟨1000, 20, 0, 0⟩ ⟨4000, 100, 0, 0⟩ [] rfl (by decide) (by decide)

end DuneWeaver.Spindles
