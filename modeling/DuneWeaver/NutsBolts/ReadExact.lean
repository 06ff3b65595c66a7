import DuneWeaver.Decimal.Numeral
import DuneWeaver.NutsBolts.ReadFloat

open Decimal

namespace DuneWeaver

section Exact

/-- The loop of `uint_to_float` below zero, in exact arithmetic. -/
def scaleDownExact (fval : ℚ) : Nat → ℚ
  | 0 => fval
  | 1 => fval * (1 / 10)
  | places + 2 => scaleDownExact (fval * (1 / 100)) places

/-- The loop of `uint_to_float` above zero, in exact arithmetic. -/
def scaleUpExact (fval : ℚ) : Nat → ℚ
  | 0 => fval
  | places + 1 => scaleUpExact (fval * 10) places

def uint_to_exact (intval : UInt32) (exp : Int) : ℚ :=
  let fval : ℚ := intval.toNat
  if fval = 0 then fval
  else if exp < 0 then scaleDownExact fval exp.natAbs
  else scaleUpExact fval exp.natAbs

/-- `read_float` on a line, from a position on, in exact arithmetic: whether it succeeds, and
what it leaves in `pos` and in `result`. -/
def read_float_exact (line : Bytes) (pos : Nat) (result : ℚ) : Bool × Nat × ℚ :=
  let text := (c_str line).drop pos
  let isnegative := text.head? = some 45
  let (d, rest) := Digits.read {} (skipSign text)
  if d.ndigit = 0 then (false, pos, result)
  else
    let fval := uint_to_exact d.intval d.exp.toInt
    (true, pos + (text.length - rest.length), if isnegative then -fval else fval)

example : read_float_exact (bytes "X-12.5Y") 1 0 = (true, 6, -25 / 2) := by decide +kernel

/-- The same texts are numbers to both readers, and end in the same place. -/
theorem read_float_exact_accepts (line : Bytes) (pos : Nat) (result : ℚ) :
    (read_float_exact line pos result).1 = (read_float ((c_str line).drop pos)).isSome ∧
      ∀ value rest, read_float ((c_str line).drop pos) = some (value, rest) →
        (read_float_exact line pos result).2.1 = pos + (((c_str line).drop pos).length - rest.length) := by
  unfold read_float_exact read_float
  dsimp only
  split
  · exact ⟨rfl, nofun⟩
  · refine ⟨rfl, fun value rest h => ?_⟩
    rw [← (Prod.mk.inj (Option.some.inj h)).2]

theorem scaleDownExact_eq (fval : ℚ) (places : Nat) : scaleDownExact fval places = fval / 10 ^ places := by
  induction fval, places using scaleDownExact.induct with
  | case1 fval => simp [scaleDownExact]
  | case2 fval => simp [scaleDownExact, div_eq_mul_inv]
  | case3 fval places ih =>
    rw [scaleDownExact, ih, pow_succ, pow_succ]
    ring

theorem scaleUpExact_eq (fval : ℚ) (places : Nat) : scaleUpExact fval places = fval * 10 ^ places := by
  induction fval, places using scaleUpExact.induct with
  | case1 fval => simp [scaleUpExact]
  | case2 fval places ih => rw [scaleUpExact, ih, pow_succ]; ring

/-- The loops move the point. -/
theorem uint_to_exact_eq (intval : UInt32) (exp : Int) : uint_to_exact intval exp = intval.toNat * (10 : ℚ) ^ exp := by
  unfold uint_to_exact
  dsimp only
  split
  case isTrue hzero => rw [hzero, zero_mul]
  split
  case isTrue hneg =>
    have habs : exp = -(exp.natAbs : Int) := by omega
    rw [scaleDownExact_eq]
    conv_rhs => rw [habs, zpow_neg, zpow_natCast]
    rw [div_eq_mul_inv]
  case isFalse hpos =>
    have habs : exp = (exp.natAbs : Int) := by omega
    rw [scaleUpExact_eq]
    conv_rhs => rw [habs, zpow_natCast]

end Exact

/-- A number as it is written: a sign or none, digits, and perhaps a point and more digits,
with one digit at least. -/
structure Written where
  sign : Option Bool
  whole : Bytes
  point : Bool
  frac : Bytes
  whole_digits : ∀ c ∈ whole, isdigit c = true
  frac_digits : ∀ c ∈ frac, isdigit c = true
  frac_nil : point = false → frac = []
  some_digit : whole ++ frac ≠ []

namespace Written

/-- A minus is `some true`. -/
def signText : Option Bool → Bytes
  | none => []
  | some true => [45]
  | some false => [43]

def body (w : Written) : Bytes := w.whole ++ if w.point then 46 :: w.frac else []

def text (w : Written) : Bytes := signText w.sign ++ w.body

def digits (w : Written) : Bytes := w.whole ++ w.frac

/-- How many zeros are in front of the first significant digit. -/
def zeros (w : Written) : Nat := (w.digits.takeWhile (· = 48)).length

/-- The number that is written, with all digits beyond the first `n` dropped. -/
def keep (n : Nat) (w : Written) : ℚ :=
  let magnitude : ℚ := number (w.digits.take n ++ List.replicate (w.digits.length - n) 48) / 10 ^ w.frac.length
  if w.sign = some true then -magnitude else magnitude

end Written

namespace Digits

/-- What the loop has made of the digits in front of the point and behind it. -/
structure Reads (d : Digits) (whole : Bytes) (point : Bool) (frac : Bytes) : Prop where
  intval : d.intval.toNat = number ((whole ++ frac).take MAX_INT_DIGITS)
  exp : d.exp = Int8.ofInt (((whole ++ frac).length - MAX_INT_DIGITS : Nat) - frac.length)
  ndigit : d.ndigit = (whole ++ frac).length
  isdecimal : d.isdecimal = point

variable {d : Digits} {whole frac : Bytes} {point : Bool} {c : UInt8}

theorem number_concat (digits : Bytes) (c : UInt8) : number (digits ++ [c]) = number digits * 10 + (c.toNat - 48) := by
  rw [number, List.foldl_append]
  rfl

theorem Reads.start : Reads {} [] false [] := ⟨rfl, rfl, rfl, rfl⟩

/-- One more digit, whichever side of the point it is on: the number grows while there is
room for it. -/
theorem digit_intval {digits : Bytes} (hdigits : ∀ e ∈ digits, isdigit e = true) (hc : isdigit c = true)
    (hintval : d.intval.toNat = number (digits.take MAX_INT_DIGITS)) (hcount : d.ndigit = digits.length) :
    (d.digit c).intval.toNat = number ((digits ++ [c]).take MAX_INT_DIGITS) := by
  unfold digit
  dsimp only
  rw [hcount]
  split
  case isTrue hroom =>
    have hshort : digits.length < MAX_INT_DIGITS := hroom
    have hall : digits.take MAX_INT_DIGITS = digits := List.take_of_length_le (by omega)
    rw [hall] at hintval
    have hbound : number digits < 10 ^ 7 :=
      (number_lt hdigits).trans_le (Nat.pow_le_pow_right (by decide) (by unfold MAX_INT_DIGITS at hshort; omega))
    have hrange := isdigit_iff.mp hc
    rw [List.take_of_length_le (by rw [List.length_append, List.length_singleton]; exact hroom), number_concat]
    have hten : (10 : UInt32).toNat = 10 := rfl
    have hzero : (48 : UInt32).toNat = 48 := rfl
    have hprod : (d.intval * 10).toNat = number digits * 10 := by
      rw [UInt32.toNat_mul, hintval, hten]
      omega
    have hsum : (d.intval * 10 + c.toUInt32).toNat = number digits * 10 + c.toNat := by
      rw [UInt32.toNat_add, hprod, UInt8.toNat_toUInt32]
      omega
    rw [UInt32.toNat_sub_of_le _ _ (by rw [UInt32.le_iff_toNat_le, hsum, hzero]; omega), hsum, hzero]
    omega
  case isFalse hfull =>
    have hlong : MAX_INT_DIGITS ≤ digits.length := by omega
    rw [List.take_append_of_le_length hlong]
    exact hintval

private theorem int8_one : (1 : Int8) = Int8.ofInt 1 := rfl

theorem digit_exp_whole (h : Reads d whole false []) (c : UInt8) :
    (d.digit c).exp = Int8.ofInt (((whole ++ [c]).length - MAX_INT_DIGITS : Nat) - (0 : Nat)) := by
  have hcount := h.ndigit
  have hexp := h.exp
  simp only [List.append_nil, List.length_nil] at hcount hexp
  unfold digit
  dsimp only
  rw [hcount, List.length_append, List.length_singleton]
  split
  case isTrue hroom =>
    rw [if_neg (by simp [h.isdecimal]), hexp]
    congr 1
    omega
  case isFalse hfull =>
    rw [if_neg (by simp [h.isdecimal]), hexp, int8_one, ← Int8.ofInt_add]
    dsimp only
    congr 1
    omega

theorem digit_exp_frac (h : Reads d whole true frac) (c : UInt8) :
    (d.digit c).exp = Int8.ofInt (((whole ++ (frac ++ [c])).length - MAX_INT_DIGITS : Nat) - (frac ++ [c]).length) := by
  have hcount := h.ndigit
  unfold digit
  dsimp only
  rw [hcount, h.exp]
  simp only [List.length_append, List.length_singleton]
  split
  case isTrue hroom =>
    rw [if_pos h.isdecimal, int8_one, ← Int8.ofInt_sub]
    dsimp only
    congr 1
    omega
  case isFalse hfull =>
    rw [if_pos h.isdecimal]
    dsimp only
    congr 1
    omega

theorem Reads.digit_whole (h : Reads d whole false []) (hwhole : ∀ e ∈ whole, isdigit e = true)
    (hc : isdigit c = true) : Reads (d.digit c) (whole ++ [c]) false [] where
  intval := by
    have hintval := h.intval
    have hcount := h.ndigit
    rw [List.append_nil] at hintval hcount ⊢
    exact digit_intval hwhole hc hintval hcount
  exp := by
    rw [List.append_nil]
    exact digit_exp_whole h c
  ndigit := by
    rw [digit_ndigit, h.ndigit]
    simp
  isdecimal := by rw [digit_isdecimal, h.isdecimal]

theorem Reads.digit_frac (h : Reads d whole true frac) (hwhole : ∀ e ∈ whole ++ frac, isdigit e = true)
    (hc : isdigit c = true) : Reads (d.digit c) whole true (frac ++ [c]) where
  intval := by
    rw [← List.append_assoc]
    exact digit_intval hwhole hc h.intval h.ndigit
  exp := digit_exp_frac h c
  ndigit := by
    rw [digit_ndigit, h.ndigit]
    simp
    omega
  isdecimal := by rw [digit_isdecimal, h.isdecimal]

end Digits

section Cut

/-- The parts that the loop takes from a text without a sign, and the text behind them. -/
def wholePart (body : Bytes) : Bytes := body.takeWhile isdigit

def hasPoint (body : Bytes) : Bool := (body.dropWhile isdigit).head? = some 46

def fracPart (body : Bytes) : Bytes := if hasPoint body then (body.dropWhile isdigit).tail.takeWhile isdigit else []

def behind (body : Bytes) : Bytes :=
  if hasPoint body then (body.dropWhile isdigit).tail.dropWhile isdigit else body.dropWhile isdigit

theorem Digits.Reads.read_frac {d : Digits} {whole frac : Bytes} (h : d.Reads whole true frac)
    (hdigits : ∀ e ∈ whole ++ frac, isdigit e = true) (text : Bytes) :
    ∃ d', d.read text = (d', text.dropWhile isdigit) ∧ Digits.Reads d' whole true (frac ++ text.takeWhile isdigit) := by
  induction text generalizing d frac with
  | nil => exact ⟨d, rfl, by simpa using h⟩
  | cons c text ih =>
    rw [Digits.read]
    by_cases hc : isdigit c = true
    · obtain ⟨d', hread, hreads⟩ := ih (h.digit_frac hdigits hc) (by
        rw [← List.append_assoc]
        intro e he
        obtain hfront | hlast := List.mem_append.mp he
        · exact hdigits e hfront
        · rwa [List.mem_singleton.mp hlast])
      rw [if_pos hc, List.dropWhile_cons_of_pos hc, List.takeWhile_cons_of_pos hc]
      exact ⟨d', hread, by simpa using hreads⟩
    · rw [if_neg hc, if_neg (by simp [h.isdecimal]), List.dropWhile_cons_of_neg hc, List.takeWhile_cons_of_neg hc]
      exact ⟨d, rfl, by simpa using h⟩

/-- The point is taken once. -/
theorem Digits.Reads.point {d : Digits} {whole : Bytes} (h : d.Reads whole false []) :
    Digits.Reads { d with isdecimal := true } whole true [] :=
  ⟨h.intval, h.exp, h.ndigit, rfl⟩

theorem Digits.Reads.read_whole {d : Digits} {whole : Bytes} (h : d.Reads whole false [])
    (hdigits : ∀ e ∈ whole, isdigit e = true) (text : Bytes) :
    ∃ d', d.read text = (d', behind text) ∧
      Digits.Reads d' (whole ++ wholePart text) (hasPoint text) (fracPart text) := by
  induction text generalizing d whole with
  | nil => exact ⟨d, rfl, by simpa [wholePart, hasPoint, fracPart] using h⟩
  | cons c text ih =>
    rw [Digits.read]
    by_cases hc : isdigit c = true
    · obtain ⟨d', hread, hreads⟩ := ih (h.digit_whole hdigits hc) (by
        intro e he
        obtain hfront | hlast := List.mem_append.mp he
        · exact hdigits e hfront
        · rwa [List.mem_singleton.mp hlast])
      unfold behind hasPoint fracPart wholePart at *
      unfold hasPoint at *
      rw [if_pos hc, List.dropWhile_cons_of_pos hc, List.takeWhile_cons_of_pos hc]
      exact ⟨d', hread, by simpa using hreads⟩
    · unfold behind hasPoint fracPart wholePart
      unfold hasPoint
      rw [if_neg hc, List.dropWhile_cons_of_neg hc, List.takeWhile_cons_of_neg hc]
      by_cases hpoint : c = 46
      · obtain ⟨d', hread, hreads⟩ := h.point.read_frac (by simpa using hdigits) text
        rw [if_pos ⟨hpoint, by simp [h.isdecimal]⟩]
        simp only [List.head?_cons, hpoint, decide_true, if_true, List.tail_cons, List.append_nil]
        exact ⟨d', hread, by simpa using hreads⟩
      · rw [if_neg (by simp [hpoint])]
        have hother : decide ((c :: text).head? = some 46) = false := by simp [hpoint]
        simp only [hother, List.append_nil]
        exact ⟨d, rfl, h⟩

/-- What the loop does with a text. -/
theorem Digits.read_spec (body : Bytes) : ∃ d, Digits.read {} body = (d, behind body) ∧
    Digits.Reads d (wholePart body) (hasPoint body) (fracPart body) :=
  Digits.Reads.start.read_whole (by simp) body

theorem body_split (body : Bytes) :
    body = wholePart body ++ ((if hasPoint body then 46 :: fracPart body else []) ++ behind body) := by
  unfold fracPart behind
  by_cases hpoint : hasPoint body = true
  · have hhead : (body.dropWhile isdigit).head? = some 46 := by simpa [hasPoint] using hpoint
    have hrest : body.dropWhile isdigit = 46 :: (body.dropWhile isdigit).tail :=
      (List.cons_head?_tail hhead).symm
    rw [if_pos hpoint, if_pos hpoint, if_pos hpoint, List.cons_append, List.takeWhile_append_dropWhile, ← hrest]
    exact List.takeWhile_append_dropWhile.symm
  · rw [if_neg hpoint, if_neg hpoint, List.nil_append]
    exact List.takeWhile_append_dropWhile.symm

theorem wholePart_digits {body : Bytes} : ∀ c ∈ wholePart body, isdigit c = true :=
  fun _ hc => List.mem_takeWhile_imp hc

theorem fracPart_digits {body : Bytes} : ∀ c ∈ fracPart body, isdigit c = true := by
  intro c hc
  unfold fracPart at hc
  split at hc
  · exact List.mem_takeWhile_imp hc
  · cases hc

/-- However a number is written at the front of a text, the loop takes at least as much. -/
theorem Written.body_le {w : Written} {body : Bytes} (h : w.body <+: body) :
    w.body.length + (behind body).length ≤ body.length ∧ wholePart body ++ fracPart body ≠ [] := by
  obtain ⟨t, rfl⟩ := h
  have hlength := congrArg List.length (body_split (w.body ++ t))
  simp only [List.length_append] at hlength ⊢
  cases hpoint : w.point with
  | false =>
    have hbody : w.body = w.whole := by simp [Written.body, hpoint]
    have hwhole : wholePart (w.body ++ t) = w.whole ++ t.takeWhile isdigit := by
      rw [hbody, wholePart, List.takeWhile_append_of_pos w.whole_digits]
    have hne : w.whole ≠ [] := by simpa [w.frac_nil hpoint] using w.some_digit
    rw [hwhole, List.length_append] at hlength
    refine ⟨by rw [hbody] at hlength ⊢; omega, ?_⟩
    rw [hwhole]
    simp [hne]
  | true =>
    have hbody : w.body ++ t = w.whole ++ 46 :: (w.frac ++ t) := by simp [Written.body, hpoint]
    have hstop : Stops (46 :: (w.frac ++ t)) := stops_cons (by decide)
    have hwhole : wholePart (w.body ++ t) = w.whole := by
      rw [hbody, wholePart, takeWhile_digits w.whole_digits hstop]
    have hrest : (w.body ++ t).dropWhile isdigit = 46 :: (w.frac ++ t) := by
      rw [hbody, dropWhile_digits w.whole_digits hstop]
    have hpointed : hasPoint (w.body ++ t) = true := by simp [hasPoint, hrest]
    have hfrac : fracPart (w.body ++ t) = w.frac ++ t.takeWhile isdigit := by
      rw [fracPart, if_pos hpointed, hrest, List.tail_cons, List.takeWhile_append_of_pos w.frac_digits]
    have hown : w.body.length = w.whole.length + (1 + w.frac.length) := by
      simp [Written.body, hpoint]
      omega
    rw [hwhole, hfrac, if_pos hpointed, List.length_cons, List.length_append] at hlength
    refine ⟨by omega, ?_⟩
    rw [hwhole, hfrac]
    intro hnone
    have hwholeNil := (List.append_eq_nil_iff.mp hnone).1
    have hfracNil := (List.append_eq_nil_iff.mp (List.append_eq_nil_iff.mp hnone).2).1
    exact w.some_digit (by rw [hwholeNil, hfracNil]; rfl)

/-- Without its sign a number starts with a digit or the point. -/
theorem Written.body_head (w : Written) : ∃ c rest, w.body = c :: rest ∧ c ≠ 45 ∧ c ≠ 43 := by
  unfold Written.body
  cases hwhole : w.whole with
  | nil =>
    have hpoint : w.point = true := by
      by_contra hno
      have hnil := w.frac_nil (by simpa using hno)
      exact w.some_digit (by rw [hwhole, hnil]; rfl)
    exact ⟨46, w.frac, by simp [hpoint], by decide, by decide⟩
  | cons c whole =>
    have hdigit := isdigit_iff.mp (w.whole_digits c (by rw [hwhole]; exact List.mem_cons_self))
    refine ⟨c, _, List.cons_append, ?_, ?_⟩
    · rintro rfl
      exact absurd hdigit (by decide)
    · rintro rfl
      exact absurd hdigit (by decide)

/-- The sign in front of a text, if there is one. -/
def signOf (text : Bytes) : Option Bool :=
  if text.head? = some 45 then some true else if text.head? = some 43 then some false else none

theorem signText_skipSign (text : Bytes) : Written.signText (signOf text) ++ skipSign text = text := by
  cases text with
  | nil => rfl
  | cons c text =>
    unfold signOf skipSign
    by_cases hminus : c = 45
    · simp [hminus, Written.signText]
    · by_cases hplus : c = 43
      · simp [hplus, Written.signText]
      · simp [hminus, hplus, Written.signText]

/-- A number at the front of a text has the sign of the text, and the rest of it is at the
front of the text behind the sign. -/
theorem Written.split_sign {w : Written} {text : Bytes} (h : w.text <+: text) :
    w.sign = signOf text ∧ w.body <+: skipSign text := by
  obtain ⟨t, rfl⟩ := h
  obtain ⟨c, rest, hbody, hminus, hplus⟩ := w.body_head
  unfold Written.text
  cases hsign : w.sign with
  | none =>
    have hhead : (Written.signText none ++ w.body ++ t) = c :: (rest ++ t) := by simp [Written.signText, hbody]
    rw [hhead]
    refine ⟨by simp [signOf, hminus, hplus], ?_⟩
    rw [skipSign, if_neg (by simp [hminus, hplus]), hbody]
    exact ⟨t, rfl⟩
  | some minus =>
    cases minus with
    | true => exact ⟨rfl, ⟨t, rfl⟩⟩
    | false => exact ⟨rfl, ⟨t, rfl⟩⟩

theorem number_zeros (n : Nat) : number (List.replicate n 48) = 0 := by
  induction n with
  | zero => rfl
  | succ n ih =>
    rw [List.replicate_succ', Digits.number_concat, ih]
    rfl

/-- What the loop has read, given back as a number, is the one that is written with its
first eight digits; the exponent is an `int8_t` and holds for 135 digits before the
point. -/
theorem Digits.Reads.value {d : Digits} {whole frac : Bytes} {point : Bool} (h : d.Reads whole point frac)
    (hwhole : whole.length ≤ 135) :
    uint_to_exact d.intval d.exp.toInt =
      number ((whole ++ frac).take MAX_INT_DIGITS ++ List.replicate ((whole ++ frac).length - MAX_INT_DIGITS) 48) /
        10 ^ frac.length := by
  have hexp : d.exp.toInt = ((whole ++ frac).length - MAX_INT_DIGITS : Nat) - (frac.length : Int) := by
    rw [h.exp]
    apply Int8.toInt_ofInt_of_le
    · rw [List.length_append]
      unfold MAX_INT_DIGITS
      omega
    · rw [List.length_append]
      unfold MAX_INT_DIGITS
      omega
  rw [uint_to_exact_eq, h.intval, hexp, number_append, number_zeros, List.length_replicate, Nat.add_zero,
    zpow_sub₀ (by norm_num), zpow_natCast, zpow_natCast]
  push_cast
  ring

/-- The number that the loop takes, where it takes a digit. -/
def taken (text : Bytes) (hdigit : wholePart (skipSign text) ++ fracPart (skipSign text) ≠ []) : Written where
  sign := signOf text
  whole := wholePart (skipSign text)
  point := hasPoint (skipSign text)
  frac := fracPart (skipSign text)
  whole_digits := wholePart_digits
  frac_digits := fracPart_digits
  frac_nil hpoint := by simp [fracPart, hpoint]
  some_digit := hdigit

theorem taken_append_behind (text : Bytes) (hdigit : wholePart (skipSign text) ++ fracPart (skipSign text) ≠ []) :
    (taken text hdigit).text ++ behind (skipSign text) = text := by
  have hbody : (taken text hdigit).body ++ behind (skipSign text) = skipSign text := by
    change (wholePart (skipSign text) ++ if hasPoint (skipSign text) then 46 :: fracPart (skipSign text) else []) ++
      behind (skipSign text) = skipSign text
    rw [List.append_assoc]
    exact (body_split (skipSign text)).symm
  rw [Written.text, List.append_assoc, hbody]
  exact signText_skipSign text

/-- `w` is the longest number that the text starts with. -/
def Longest (w : Written) (text : Bytes) : Prop :=
  w.text <+: text ∧ ∀ w' : Written, w'.text <+: text → w'.text.length ≤ w.text.length

end Cut

/-- From any position on a line, the longest number there is consumed, and nothing where
there is none. In exact arithmetic the result is that number without any of its digits
beyond the eighth, leading zeros included. -/
theorem read_float_exact_spec (line : Bytes) (pos : Nat) (result : ℚ) :
    ((∀ w : Written, ¬ w.text <+: (c_str line).drop pos) ∧ read_float_exact line pos result = (false, pos, result)) ∨
    ∃ w : Written, Longest w ((c_str line).drop pos) ∧
      (read_float_exact line pos result).1 = true ∧
      (read_float_exact line pos result).2.1 = pos + w.text.length ∧
      (w.whole.length ≤ 135 → (read_float_exact line pos result).2.2 = w.keep MAX_INT_DIGITS) := by
  unfold read_float_exact
  generalize (c_str line).drop pos = text
  obtain ⟨d, hread, hreads⟩ := Digits.read_spec (skipSign text)
  dsimp only
  rw [hread]
  dsimp only
  by_cases hdigit : wholePart (skipSign text) ++ fracPart (skipSign text) = []
  · left
    rw [if_pos (by rw [hreads.ndigit, hdigit]; rfl)]
    exact ⟨fun w hw => (Written.body_le (Written.split_sign hw).2).2 hdigit, rfl⟩
  · right
    have hsplit := taken_append_behind text hdigit
    have hlength := congrArg List.length hsplit
    rw [List.length_append] at hlength
    rw [if_neg (by rw [hreads.ndigit]; exact fun h => hdigit (List.eq_nil_of_length_eq_zero h))]
    refine ⟨taken text hdigit, ⟨⟨_, hsplit⟩, fun w' hw' => ?_⟩, rfl, ?_, fun hwhole => ?_⟩
    · obtain ⟨hsign, hbody⟩ := Written.split_sign hw'
      have hle := (Written.body_le hbody).1
      have htext := congrArg List.length (signText_skipSign text)
      rw [List.length_append, ← hsign] at htext
      rw [Written.text, List.length_append]
      omega
    · dsimp only
      omega
    · dsimp only
      rw [hreads.value hwhole, Written.keep]
      have hsign : (taken text hdigit).sign = some true ↔ text.head? = some 45 := by
        change signOf text = some true ↔ _
        unfold signOf
        split
        · simp_all
        split
        · simp_all
        · simp_all
      simp only [hsign]
      rfl

/-- Zeros in front of the first significant digit count against the eight that are kept. -/
theorem leading_zeros_are_counted :
    ¬ ∀ (line : Bytes) (pos : Nat) (result : ℚ) (w : Written), Longest w ((c_str line).drop pos) →
      (read_float_exact line pos result).2.2 = w.keep (w.zeros + MAX_INT_DIGITS) := by
  intro h
  let w : Written := { sign := none, whole := bytes "0", point := true, frac := bytes "00000001",
                       whole_digits := by decide +kernel, frac_digits := by decide +kernel,
                       frac_nil := nofun, some_digit := by decide +kernel }
  have hlongest : Longest w ((c_str (bytes "0.00000001")).drop 0) := by
    refine ⟨by decide +kernel, fun w' hw' => hw'.length_le.trans (by decide +kernel)⟩
  have hvalue := h (bytes "0.00000001") 0 0 w hlongest
  exact absurd hvalue (by decide +kernel)

end DuneWeaver
