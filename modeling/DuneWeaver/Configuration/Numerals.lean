import DuneWeaver.Binary32.Literal
import DuneWeaver.Configuration.RuntimeSetting

open Binary32 (Value Integer Denotes Literal Number)
open Reading (Lawful GoesOn)

namespace DuneWeaver.Configuration

namespace string_util

section Recognisers

-- what stands behind the text in memory is read as well
variable (s behind : Bytes)

def is_int : Option Int32 :=
  let (value, rest) := strtol (s ++ behind)
  if rest.length = behind.length then some value else none

def is_uint : Option UInt32 :=
  let (value, rest) := strtoul (s ++ behind)
  if rest.length = behind.length then some value else none

def is_float : Option Value :=
  match Binary32.strtof (s ++ behind) with
  | some (value, rest) => if rest.length = behind.length then some value else none
  | none => if s.length = 0 then some (Binary32.round false 0) else none

end Recognisers

/-- A text that is followed by nothing of a number is recognised as it is alone. -/
theorem is_int_alone (s : Bytes) : is_int s [] = Configuration.is_int s := by
  unfold is_int Configuration.is_int
  simp only [List.append_nil, List.length_nil, List.length_eq_zero_iff]

theorem is_uint_alone (s : Bytes) : is_uint s [] = Configuration.is_uint s := by
  unfold is_uint Configuration.is_uint
  simp only [List.append_nil, List.length_nil, List.length_eq_zero_iff]

theorem is_float_alone (s : Bytes) : is_float s [] = Parser.is_float s := by
  unfold is_float Parser.is_float
  rw [List.append_nil]
  cases Binary32.strtof s with
  | none => simp
  | some result => simp

end string_util

/-- A whole number behind white space. -/
def WholeNumber (text : Bytes) (n : Int) : Prop :=
  ∃ gap body, text = gap ++ body ∧ (∀ c ∈ gap, isspace c = true) ∧ Integer body n

def readWhole (text : Bytes) : Option (Int × Bytes) := Binary32.integer (text.dropWhile isspace)

theorem lawful_readWhole : Lawful WholeNumber readWhole := by
  apply Binary32.lawful_integer.skipping
  intro text n hinteger c hc
  have hchar := Binary32.integer_chars hinteger c (List.mem_of_mem_head? hc)
  rcases hchar with hdigit | rfl | rfl
  · exact (Binary32.numeric_plain (Binary32.numeric_of_isdigit hdigit)).1
  · decide
  · decide

theorem foldl_digits (text : Bytes) :
    (text.takeWhile isdigit).foldl (fun (n : Int) c => 10 * n + (c.toNat - 48)) 0 =
      (Decimal.number (text.takeWhile isdigit) : Int) := by
  have hdigits : ∀ c ∈ text.takeWhile isdigit, isdigit c = true := fun c hc => List.mem_takeWhile_imp hc
  have hfold := Decimal.foldl_int hdigits 0
  rw [Decimal.number, ← hfold]
  congr 1
  funext n c
  rw [mul_comm]

/-- `strtol` and `strtoul` read a whole number, or leave all of the text. -/
theorem strto_eq (s : Bytes) : strto s = (readWhole s).getD (0, s) := by
  have hsigned : (Binary32.signed (s.dropWhile isspace)) =
      (decide ((s.dropWhile isspace).head? = some 0x2d),
        if (s.dropWhile isspace).head? = some 0x2d ∨ (s.dropWhile isspace).head? = some 0x2b
        then (s.dropWhile isspace).tail else s.dropWhile isspace) := by
    unfold Binary32.signed
    by_cases hminus : (s.dropWhile isspace).head? = some 45
    · simp [hminus]
    · by_cases hplus : (s.dropWhile isspace).head? = some 43
      · simp [hplus]
      · simp [hminus, hplus]
  unfold strto readWhole Binary32.integer Binary32.whole
  rw [hsigned, show isdigit = isdigit from rfl]
  dsimp only
  simp only [foldl_digits, decide_eq_true_eq]
  generalize (if (s.dropWhile isspace).head? = some 45 ∨ (s.dropWhile isspace).head? = some 43
    then (s.dropWhile isspace).tail else s.dropWhile isspace) = unsigned
  by_cases hdigits : unsigned.takeWhile isdigit = []
  · rw [if_pos hdigits, if_pos hdigits]
    rfl
  · rw [if_neg hdigits, if_neg hdigits]
    rfl

section Whole

variable {s behind : Bytes} {n : Int}

theorem readWhole_strto : Reading.ends readWhole 0 s behind =
    if (strto (s ++ behind)).2.length = behind.length then some (strto (s ++ behind)).1 else none := by
  rw [strto_eq, Reading.ends]
  cases hread : readWhole (s ++ behind) with
  | some result => rfl
  | none =>
    rw [Option.getD_none, List.length_append]
    by_cases hempty : s.length = 0
    · rw [if_pos hempty, if_pos (by omega)]
    · rw [if_neg hempty, if_neg (by omega)]

/-- What `strtol` makes of a whole number. -/
def clamp (n : Int) : Int32 := n |> max Int32.minValue.toInt |> min Int32.maxValue.toInt |> Int32.ofInt

/-- What `strtoul` makes of a whole number. -/
def wrap (n : Int) : UInt32 := if n.natAbs < 2 ^ 32 then UInt32.ofInt n else 0xffffffff

theorem is_int_eq : string_util.is_int s behind = (Reading.ends readWhole 0 s behind).map clamp := by
  rw [readWhole_strto, apply_ite (Option.map clamp)]
  rfl

theorem is_uint_eq : string_util.is_uint s behind = (Reading.ends readWhole 0 s behind).map wrap := by
  rw [readWhole_strto, apply_ite (Option.map wrap)]
  rfl

theorem is_float_eq :
    string_util.is_float s behind = Reading.ends Binary32.strtof (Binary32.round false 0) s behind := by
  unfold string_util.is_float Reading.ends
  cases Binary32.strtof (s ++ behind) with
  | none => rfl
  | some result => rfl

theorem clamp_of_fits (hlow : -2 ^ 31 ≤ n) (hhigh : n < 2 ^ 31) : clamp n = Int32.ofInt n := by
  have hmin : Int32.minValue.toInt = -2 ^ 31 := rfl
  have hmax : Int32.maxValue.toInt = 2 ^ 31 - 1 := rfl
  unfold clamp
  rw [hmin, hmax]
  congr 1
  omega

theorem clamp_toInt (v : Int32) : clamp v.toInt = v := by
  rw [clamp_of_fits v.le_toInt v.toInt_lt, Int32.ofInt_toInt]

theorem clamp_fits (hlow : -2 ^ 31 ≤ n) (hhigh : n < 2 ^ 31) : (clamp n).toInt = n := by
  rw [clamp_of_fits hlow hhigh, Int32.toInt_ofInt_of_le hlow hhigh]

theorem wrap_fits (hlow : 0 ≤ n) (hhigh : n < 2 ^ 32) : ((wrap n).toNat : Int) = n := by
  have hmod : (n % 2 ^ 32).toNat = n.toNat := by omega
  unfold wrap
  rw [if_pos (by omega), UInt32.ofInt, hmod, UInt32.toNat_ofNat_of_lt' (by rw [UInt32.size]; omega)]
  omega

theorem wrap_toNat (v : UInt32) : wrap v.toNat = v := by
  have hhigh := v.toNat_lt
  have hback := wrap_fits (Int.natCast_nonneg v.toNat) (by exact_mod_cast hhigh)
  exact UInt32.toNat_inj.mp (by exact_mod_cast hback)

/-- The empty text has a whole number behind it. Any other text that is a whole number behind white space has none in
front of it and is within the bounds exactly where the digits do not go on. -/
def Recognised (low high : Int) (s behind : Bytes) : Prop :=
  (s = [] → GoesOn WholeNumber [] behind) ∧
    ∀ n, WholeNumber s n → ((Integer s n ∧ low ≤ n ∧ n < high) ↔ ¬GoesOn WholeNumber s behind)

theorem wholeNumber_of_integer (h : Integer s n) : WholeNumber s n :=
  ⟨[], s, rfl, fun _ hc => absurd hc List.not_mem_nil, h⟩

/-- What a recogniser accepts, with the value that it makes of it, against the whole numbers that the type holds. -/
theorem recognised_iff {γ : Type} {low high : Int} {value : Int → γ} {toInt : γ → Int}
    (hbounds : ∀ g, low ≤ toInt g ∧ toInt g < high) (hback : ∀ g, value (toInt g) = g)
    (hvalue : ∀ n, low ≤ n → n < high → toInt (value n) = n) :
    (∀ g, (Reading.ends readWhole 0 s behind).map value = some g ↔ Integer s (toInt g)) ↔
      Recognised low high s behind := by
  have hexact := lawful_readWhole.ends_exact_iff 0 s behind value (fun text g => Integer text (toInt g))
    (fun {text g} hg => ⟨toInt g, wholeNumber_of_integer hg, hback g⟩)
  have hgood : ∀ n, WholeNumber s n → (Integer s (toInt (value n)) ↔ Integer s n ∧ low ≤ n ∧ n < high) := by
    intro n hnumber
    constructor
    · intro hinteger
      have hsame := lawful_readWhole.unique hnumber (wholeNumber_of_integer hinteger)
      have hfits := hbounds (value n)
      rw [← hsame] at hinteger hfits
      exact ⟨hinteger, hfits⟩
    · rintro ⟨hinteger, hlow, hhigh⟩
      rw [hvalue n hlow hhigh]
      exact hinteger
  rw [hexact, Recognised]
  apply and_congr_right
  intro _
  exact forall₂_congr fun n hnumber => by rw [hgood n hnumber]

/-- The empty text has a number behind it. Any other text that `strtof` knows, behind white space or not, is a literal
with a finite value exactly where it does not go on. -/
def RecognisedFloat (s behind : Bytes) : Prop :=
  (s = [] → GoesOn Number [] behind) ∧
    ∀ v, Number s v → ((Literal s v ∧ v.isfinite = true) ↔ ¬GoesOn Number s behind)

theorem is_int_exact : (∀ v : Int32, string_util.is_int s behind = some v ↔ Integer s v.toInt) ↔
    Recognised (-2 ^ 31) (2 ^ 31) s behind := by
  rw [is_int_eq]
  exact recognised_iff (fun v => ⟨v.le_toInt, v.toInt_lt⟩) clamp_toInt fun _ hlow hhigh => clamp_fits hlow hhigh

theorem is_uint_exact : (∀ v : UInt32, string_util.is_uint s behind = some v ↔ Integer s v.toNat) ↔
    Recognised 0 (2 ^ 32) s behind := by
  rw [is_uint_eq]
  exact recognised_iff (fun v => ⟨Int.natCast_nonneg _, by exact_mod_cast v.toNat_lt⟩) wrap_toNat
    fun _ hlow hhigh => wrap_fits hlow hhigh

theorem is_float_exact : (∀ v : Value, string_util.is_float s behind = some v ↔ Literal s v ∧ v.isfinite = true) ↔
    RecognisedFloat s behind := by
  have hexact := Binary32.lawful_strtof.ends_exact_iff (Binary32.round false 0) s behind id
    (fun text v => Literal text v ∧ v.isfinite = true)
    (fun {text g} hg => ⟨g, hg.1.number, rfl⟩)
  rw [is_float_eq, RecognisedFloat]
  simpa only [Option.map_id, id] using hexact

end Whole

section Parser

variable {text : Bytes} {low high : ℚ}

/-- A text that should be turned down: there is nothing in it, or it is a literal whose value is not within bounds. -/
def Unfit (low high : ℚ) (text : Bytes) : Prop :=
  text = [] ∨ ∃ neg q, Denotes text neg q ∧ ¬(low ≤ (if neg then -q else q) ∧ (if neg then -q else q) ≤ high)

/-- A text that should be turned down as a float: nothing is in it, or it is a literal that rounds to infinity. -/
def UnfitFloat (text : Bytes) : Prop :=
  text = [] ∨ ∃ neg q, Denotes text neg q ∧ (Binary32.round neg q).isfinite = false

theorem is_float_of_denotes {neg : Bool} {q : ℚ} (h : Denotes text neg q) : ∃ v, Parser.is_float text = some v := by
  have hliteral : Literal text (Binary32.round neg q) := ⟨neg, q, h, rfl⟩
  refine ⟨Binary32.round neg q, ?_⟩
  unfold Parser.is_float
  rw [Binary32.lawful_strtof.whole.mpr hliteral.number]
  exact if_pos rfl

/-- Every literal is a float, and so is the empty text. -/
theorem is_float_of_unfit (h : Unfit low high text) : ∃ v, Parser.is_float text = some v := by
  rcases h with rfl | ⟨neg, q, hdenotes, _⟩
  · exact ⟨Binary32.round false 0, rfl⟩
  · exact is_float_of_denotes hdenotes

theorem is_float_of_unfitFloat (h : UnfitFloat text) : ∃ v, Parser.is_float text = some v := by
  rcases h with rfl | ⟨neg, q, hdenotes, _⟩
  · exact ⟨Binary32.round false 0, rfl⟩
  · exact is_float_of_denotes hdenotes

variable {unspecified : Value → Int32} {_value : Bytes}

/-- What is a float is a number to the parser, whatever it asks for. -/
theorem intValue_of_float (h : ∃ v, Parser.is_float (trim _value) = some v) :
    ∃ n, intValue (rounded unspecified) _value = .ok n := by
  obtain ⟨v, hfloat⟩ := h
  unfold intValue rounded
  cases is_int (trim _value) with
  | some n => exact ⟨n, rfl⟩
  | none =>
    rw [hfloat]
    exact ⟨_, rfl⟩

theorem uintValue_of_float (h : ∃ v, Parser.is_float (trim _value) = some v) :
    ∃ n, uintValue (rounded unspecified) _value = .ok n := by
  obtain ⟨v, hfloat⟩ := h
  unfold uintValue rounded
  cases is_uint (trim _value) with
  | some n => exact ⟨n, rfl⟩
  | none =>
    rw [hfloat]
    exact ⟨_, rfl⟩

theorem floatValue_of_float (h : ∃ v, Parser.is_float (trim _value) = some v) : ∃ v, floatValue _value = .ok v := by
  obtain ⟨v, hfloat⟩ := h
  unfold floatValue
  rw [hfloat]
  exact ⟨v, rfl⟩

/-- Where what should be turned down is a number, it is turned down only where there is nothing to turn down. -/
theorem refuses_iff {α : Type} {read : Except Bytes α} {bad : Prop} (hread : bad → ∃ n, read = .ok n) :
    (bad → ∃ err, read = .error err) ↔ ¬bad := by
  constructor
  · intro hrefuses hbad
    obtain ⟨n, hok⟩ := hread hbad
    obtain ⟨err, herr⟩ := hrefuses hbad
    rw [hok] at herr
    cases herr
  · exact fun hgood hbad => absurd hbad hgood

end Parser

/-- What each of the recognisers and of the parser's values does right, and for which texts. -/
theorem recognisers_iff (s behind _value : Bytes) (unspecified : Value → Int32) :
    ((∀ v : Int32, string_util.is_int s behind = some v ↔ Integer s v.toInt) ↔
      Recognised (-2 ^ 31) (2 ^ 31) s behind) ∧
    ((∀ v : UInt32, string_util.is_uint s behind = some v ↔ Integer s v.toNat) ↔ Recognised 0 (2 ^ 32) s behind) ∧
    ((∀ v : Value, string_util.is_float s behind = some v ↔ Literal s v ∧ v.isfinite = true) ↔
      RecognisedFloat s behind) ∧
    ((Unfit (-2 ^ 31) (2 ^ 31 - 1) (trim _value) → ∃ err, intValue (rounded unspecified) _value = .error err) ↔
      ¬Unfit (-2 ^ 31) (2 ^ 31 - 1) (trim _value)) ∧
    ((Unfit 0 (2 ^ 32 - 1) (trim _value) → ∃ err, uintValue (rounded unspecified) _value = .error err) ↔
      ¬Unfit 0 (2 ^ 32 - 1) (trim _value)) ∧
    ((UnfitFloat (trim _value) → ∃ err, floatValue _value = .error err) ↔ ¬UnfitFloat (trim _value)) :=
  ⟨is_int_exact, is_uint_exact, is_float_exact, refuses_iff fun h => intValue_of_float (is_float_of_unfit h),
    refuses_iff fun h => uintValue_of_float (is_float_of_unfit h),
    refuses_iff fun h => floatValue_of_float (is_float_of_unfitFloat h)⟩

theorem not_integer_nil (n : Int) : ¬Integer [] n := by
  rintro ⟨sign, digits, heq, hdigits, _⟩
  exact hdigits.1 (List.append_eq_nil_iff.mp heq.symm).2

/-- The empty text and a negative number are numbers of other values, and so is what the parser makes of them. -/
theorem recognisers_too_wide :
    ¬(∀ v : Int32, string_util.is_int [] [] = some v ↔ Integer [] v.toInt) ∧
      ¬(∀ v : UInt32, string_util.is_uint (bytes "-1") [] = some v ↔ Integer (bytes "-1") v.toNat) ∧
      string_util.is_float (bytes "nan") [] = some .nan ∧ floatValue [] = .ok (Binary32.round false 0) ∧
      uintValue (rounded fun _ => 0) (bytes " -1 ") = .ok 4294967295 := by
  refine ⟨fun h => not_integer_nil 0 ((h 0).mp (by decide)), fun h => ?_, by decide, rfl, by decide⟩
  have hwrapped : Integer (bytes "-1") (4294967295 : UInt32).toNat := (h 4294967295).mp (by decide)
  have hminus : Integer (bytes "-1") (-1) :=
    ⟨.minus, [0x31], by decide, ⟨List.cons_ne_nil _ _, List.all_eq_true.mp (by decide)⟩, by decide⟩
  have hsame := lawful_readWhole.unique (wholeNumber_of_integer hwrapped) (wholeNumber_of_integer hminus)
  exact absurd hsame (by decide)

end DuneWeaver.Configuration
