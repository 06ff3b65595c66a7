import DuneWeaver.Binary32.Behind
import DuneWeaver.Configuration.SpeedMap

open Binary32 (Value)

namespace DuneWeaver.Configuration

instance : LT Value := ⟨fun x y => x.lt y = true⟩

instance : LE Value := ⟨fun x y => x.lt y = true ∨ x.eq y = true⟩

instance : DecidableLT Value := fun x y => inferInstanceAs (Decidable (x.lt y = true))

/-- A number of the configuration, as it is declared to a handler with its range. -/
inductive RangedItem where
  | int32 (minValue maxValue value : Int32)
  | uint32 (minValue maxValue value : UInt32)
  | float (minValue maxValue value : Value)

section Conversions

/-- `atoi`, where a `long` is an `int`. -/
def atoi (s : Bytes) : Int32 := (strtol s).1

/-- `atoll` stays within a `long long`. -/
def atoll (s : Bytes) : Int64 := (strto s).1 |> max Int64.minValue.toInt |> min Int64.maxValue.toInt |> Int64.ofInt

/-- The value of `strtof`, which is zero where no number stands in front. -/
def strtof (s : Bytes) : Value := ((Binary32.strtof s).map Prod.fst).getD (Binary32.round false 0)

/-- `lroundf`: halves are rounded away from zero, and what a `long` cannot hold to a number that is not specified. -/
def lroundf (unspecified : Value → Int32) : Value → Int32
  | .finite neg mag =>
    let magnitude : Int := ⌊mag.value + 1 / 2⌋₊
    let value := if neg then -magnitude else magnitude
    if Int32.minValue.toInt ≤ value ∧ value ≤ Int32.maxValue.toInt then .ofInt value
    else unspecified (.finite neg mag)
  | value => unspecified value

variable {α : Type} [LT α] [DecidableLT α]

def myConstrain (value min max : α) : α := if value < min then min else if max < value then max else value

/-- The value that `constrain_with_message` leaves. -/
def constrain_with_message (value min max : α) : α :=
  if value < min ∨ max < value then myConstrain value min max else value

end Conversions

/-- `RuntimeSetting::item` with a new value, for an item of its name. Nothing in it throws. -/
def RuntimeSetting.item (newValue_ : Bytes) : RangedItem → Except Bytes RangedItem
  | .int32 minValue maxValue _ => .ok (.int32 minValue maxValue (atoi newValue_))
  | .uint32 minValue maxValue _ =>
    -- negative values are constrained to zero
    let value := if newValue_.head? = some 0x2d then 0 else .ofInt (atoll newValue_).toInt
    .ok (.uint32 minValue maxValue (constrain_with_message value minValue maxValue))
  | .float minValue maxValue _ => .ok (.float minValue maxValue (strtof newValue_))

section Handler

variable (unspecified : Value → Int32) (_value : Bytes)

/-- What the integers make of a text that is a float. -/
def rounded (s : Bytes) : Option Int := (Parser.is_float s).map fun value => (lroundf unspecified value).toInt

def floatValue : Except Bytes Value :=
  match Parser.is_float (trim _value) with
  | some float_value => .ok float_value
  | none => .error (bytes "Expected a float value like 123.456")

/-- `ParserHandler::item` for the item that the token names. -/
def ParserHandler.item : RangedItem → Except Bytes RangedItem
  | .int32 minValue maxValue _ => do
    let value ← intValue (rounded unspecified) _value
    return .int32 minValue maxValue (constrain_with_message value minValue maxValue)
  | .uint32 minValue maxValue _ => do
    let value ← uintValue (rounded unspecified) _value
    return .uint32 minValue maxValue (constrain_with_message value minValue maxValue)
  | .float minValue maxValue _ => do
    let value ← floatValue _value
    return .float minValue maxValue (constrain_with_message value minValue maxValue)

end Handler

/-- The value lies within the declared range. -/
def RangedItem.InRange : RangedItem → Prop
  | .int32 minValue maxValue value => minValue ≤ value ∧ value ≤ maxValue
  | .uint32 minValue maxValue value => minValue ≤ value ∧ value ≤ maxValue
  | .float minValue maxValue value => minValue ≤ value ∧ value ≤ maxValue

/-- Both setters turn a text down, or both leave the item with one value within its range. -/
def SettersAgree (unspecified : Value → Int32) (text : Bytes) (item : RangedItem) : Prop :=
  (∃ err err', ParserHandler.item unspecified text item = .error err ∧
    RuntimeSetting.item (c_str text) item = .error err') ∨
  ∃ after : RangedItem, ParserHandler.item unspecified text item = .ok after ∧
    RuntimeSetting.item (c_str text) item = .ok after ∧ after.InRange

/-- Two numbers are the same as far as a range tells them apart: they lie on one side of it, or it holds one number. -/
def SameSide {α : Type} [LE α] (minValue maxValue x y : α) : Prop :=
  x = y ∨ minValue = maxValue ∨ (x ≤ minValue ∧ y ≤ minValue) ∨ (maxValue ≤ x ∧ maxValue ≤ y)

/-- A number with a minus at the very front of its text is zero at run time. In the file it is zero as well, or wraps
to no more than the smallest number of the range. -/
def MinusAlike (minValue maxValue : UInt32) (n : Int) : Prop :=
  n = 0 ∨ minValue = maxValue ∨ n.natAbs < 2 ^ 32 ∧ n % 2 ^ 32 ≤ minValue.toNat

/-- Any other whole number is one of 32 bits, or what is left of it at run time reaches the end of the range, as the
greatest number does in the file. -/
def WholeAlike (minValue maxValue : UInt32) (n : Int) : Prop :=
  n.natAbs < 2 ^ 32 ∨ minValue = maxValue ∨ 2 ^ 63 ≤ n ∨ -2 ^ 63 ≤ n ∧ maxValue.toNat ≤ n % 2 ^ 32

/-- A text that the setters read alike. A whole number is within the range of a signed item, and a float within that of
a float. Where an integer is written as a float, what is rounded lies on the same side of the range as the integer in
front of the text. For an unsigned item the sign and the size of the number decide. -/
def RangedItem.ReadAlike (unspecified : Value → Int32) (text : Bytes) : RangedItem → Prop
  | .int32 minValue maxValue _ => ∃ v, minValue ≤ v ∧ v ≤ maxValue ∧
      (is_int (trim text) = some v ∨ is_int (trim text) = none ∧ atoi (c_str text) = v ∧
        ∃ f, Parser.is_float (trim text) = some f ∧ SameSide minValue maxValue (lroundf unspecified f) v)
  | .uint32 minValue maxValue _ => minValue ≤ maxValue ∧
      ((strto (trim text)).2 = [] ∧
          (if text.head? = some 0x2d then MinusAlike minValue maxValue (strto (trim text)).1
          else WholeAlike minValue maxValue (strto (trim text)).1) ∨
        (strto (trim text)).2 ≠ [] ∧ ∃ f, Parser.is_float (trim text) = some f ∧
          if text.head? = some 0x2d then MinusAlike minValue maxValue (lroundf unspecified f).toInt
          else SameSide minValue maxValue (.ofInt (lroundf unspecified f).toInt) (.ofInt (atoll (c_str text)).toInt))
  | .float minValue maxValue _ => ∃ v, Parser.is_float (trim text) = some v ∧ minValue ≤ v ∧ v ≤ maxValue

section Readings

variable {text lead num trail : Bytes}

/-- A whole number is a sign, if any, and digits. -/
theorem strto_whole (hsolid : Spacing.Solid isspace num) (hwhole : (strto num).2 = []) :
    Parser.unsigned num ≠ [] ∧ ∀ c ∈ Parser.unsigned num, isdigit c = true := by
  have hbody := hsolid.dropWhile []
  rw [List.append_nil] at hbody
  rw [Parser.strto_rest hbody] at hwhole
  split_ifs at hwhole with hnone
  · exact absurd hwhole hsolid.ne_nil
  · refine ⟨fun hempty => hnone ?_, List.dropWhile_eq_nil_iff.mp hwhole⟩
    rw [hempty, List.takeWhile_nil]

theorem unsigned_append (hne : num ≠ []) (rest : Bytes) :
    Parser.unsigned (num ++ rest) = Parser.unsigned num ++ rest := by
  obtain ⟨c, tail, rfl⟩ := List.exists_cons_of_ne_nil hne
  unfold Parser.unsigned
  rw [List.cons_append, List.head?_cons, List.head?_cons]
  split_ifs
  · rfl
  · rfl

/-- The number that `strto` reads behind the white space. -/
theorem strto_value {body : Bytes} (hbody : text.dropWhile isspace = body) :
    (strto text).1 =
      let magnitude : Int := ((Parser.unsigned body).takeWhile isdigit).foldl (fun n c => 10 * n + (c.toNat - 48)) 0
      if body.head? = some 0x2d then -magnitude else magnitude := by
  unfold strto
  rw [hbody]
  change (if (Parser.unsigned body).takeWhile isdigit = [] then _ else _ : Int × Bytes).1 = _
  by_cases hempty : (Parser.unsigned body).takeWhile isdigit = []
  · rw [if_pos hempty, hempty]
    simp
  · rw [if_neg hempty]
    rfl

/-- A whole number is read with white space around it as it is without. -/
theorem strto_around (hlead : Spacing.Blank isspace lead) (hsolid : Spacing.Solid isspace num)
    (htrail : Spacing.Blank isspace trail) (hwhole : (strto num).2 = []) :
    (strto (lead ++ (num ++ trail))).1 = (strto num).1 := by
  obtain ⟨hne, hdigits⟩ := strto_whole hsolid hwhole
  have hblank : (lead ++ (num ++ trail)).dropWhile isspace = num ++ trail := by
    rw [Spacing.dropWhile_blank hlead, hsolid.dropWhile]
  have hnum := hsolid.dropWhile []
  rw [List.append_nil] at hnum
  have hstops : Decimal.Stops trail := by
    intro c hc
    have hspace := htrail c (List.mem_of_mem_head? hc)
    rw [← Bool.not_eq_true]
    intro hdigit
    have hplain := (Binary32.numeric_plain (Binary32.numeric_of_isdigit hdigit)).1
    rw [hspace] at hplain
    exact Bool.noConfusion hplain
  have htake : (Parser.unsigned num ++ trail).takeWhile isdigit = Parser.unsigned num :=
    Decimal.takeWhile_digits hdigits hstops
  have hself : (Parser.unsigned num).takeWhile isdigit = Parser.unsigned num := List.takeWhile_eq_self_iff.mpr hdigits
  have hhead : (num ++ trail).head? = num.head? := List.head?_append_of_ne_nil num hsolid.ne_nil
  rw [strto_value hblank, strto_value hnum, unsigned_append hsolid.ne_nil, htake, hself, hhead]

/-- Nothing of a whole number is a NUL. -/
theorem zero_notMem_strto (hsolid : Spacing.Solid isspace num) (hwhole : (strto num).2 = []) : 0 ∉ num := by
  obtain ⟨-, hdigits⟩ := strto_whole hsolid hwhole
  have hnone : 0 ∉ Parser.unsigned num := fun h => absurd (hdigits 0 h) (by decide)
  unfold Parser.unsigned at hnone
  split_ifs at hnone with hsign
  · obtain ⟨c, tail, rfl⟩ := List.exists_cons_of_ne_nil hsolid.ne_nil
    rw [List.head?_cons, Option.some.injEq, Option.some.injEq] at hsign
    rw [List.mem_cons, not_or]
    refine ⟨?_, hnone⟩
    rcases hsign with rfl | rfl
    · decide
    · decide
  · exact hnone

theorem zero_notMem_blank (hblank : Spacing.Blank isspace lead) : 0 ∉ lead :=
  fun h => absurd (hblank 0 h) (by decide)

/-- Where the text between the white space is a whole number, it is what a C string reads, too. -/
theorem strto_c_str (hwhole : (strto (trim text)).2 = []) : (strto (c_str text)).1 = (strto (trim text)).1 := by
  rcases Spacing.blank_or_solid isspace text with hblank | ⟨lead, num, trail, rfl, hlead, hsolid, htrail⟩
  · have htrim : trim text = [] := Spacing.trimmed_blank hblank
    rw [c_str_eq_self (zero_notMem_blank hblank), htrim,
      strto_value (List.dropWhile_eq_nil_iff.mpr hblank), strto_value (List.dropWhile_nil)]
  · have htrim : trim (lead ++ (num ++ trail)) = num := Spacing.trimmed_solid hlead hsolid htrail
    rw [htrim] at hwhole ⊢
    have hnul : 0 ∉ lead ++ (num ++ trail) := by
      rw [List.mem_append, List.mem_append, not_or, not_or]
      exact ⟨zero_notMem_blank hlead, zero_notMem_strto hsolid hwhole, zero_notMem_blank htrail⟩
    rw [c_str_eq_self hnul, strto_around hlead hsolid htrail hwhole]

/-- Where the text between the white space is a float, it is what a C string reads, too. -/
theorem strtof_c_str {v : Value} (hreads : Parser.is_float (trim text) = some v) : strtof (c_str text) = v := by
  rcases Spacing.blank_or_solid isspace text with hblank | ⟨lead, num, trail, rfl, hlead, hsolid, htrail⟩
  · have htrim : trim text = [] := Spacing.trimmed_blank hblank
    have hnone : Binary32.strtof [] = none := by decide
    have htext : Binary32.strtof (text ++ []) = Binary32.strtof [] := Binary32.strtof_ahead hblank
    rw [List.append_nil, hnone] at htext
    rw [htrim, Parser.is_float, hnone] at hreads
    rw [c_str_eq_self (zero_notMem_blank hblank), strtof, htext]
    exact Option.some.inj hreads
  · have htrim : trim (lead ++ (num ++ trail)) = num := Spacing.trimmed_solid hlead hsolid htrail
    rw [htrim, Parser.is_float] at hreads
    split at hreads
    case h_2 =>
      rw [if_neg hsolid.ne_nil] at hreads
      cases hreads
    case h_1 value rest hread =>
      split_ifs at hreads with hend
      cases hreads
      subst hend
      have hdrop := hsolid.dropWhile []
      rw [List.append_nil] at hdrop
      have hnum : 0 ∉ num := by
        intro hzero
        have hchars := Binary32.strtof_whole hread
        rw [hdrop] at hchars
        exact absurd (hchars 0 hzero) (by decide)
      have hnul : 0 ∉ lead ++ (num ++ trail) := by
        rw [List.mem_append, List.mem_append, not_or, not_or]
        exact ⟨zero_notMem_blank hlead, hnum, zero_notMem_blank htrail⟩
      have hbegins (c : UInt8) (hc : num.head? = some c) : isspace c = false := by
        obtain ⟨d, tail, rfl, hd⟩ := hsolid.begins
        cases hc
        exact hd
      rw [c_str_eq_self hnul, strtof, Binary32.strtof_ahead hlead, Binary32.strtof_behind htrail hsolid.ne_nil hbegins,
        hread]
      rfl

end Readings

section Ranges

theorem constrain_eq {α : Type} [LT α] [DecidableLT α] (value min max : α) :
    constrain_with_message value min max = if value < min then min else if max < value then max else value := by
  unfold constrain_with_message myConstrain
  split_ifs with hout hlow hhigh hlow hhigh
  · rfl
  · rfl
  · exact absurd hout (not_or.mpr ⟨hlow, hhigh⟩)
  · exact absurd (.inl hlow) hout
  · exact absurd (.inr hhigh) hout
  · rfl

/-- What is constrained to a number of the range lies on its side of it. -/
theorem constrain_int_iff {x y lo hi : Int32} (hlo : lo ≤ y) (hhi : y ≤ hi) :
    constrain_with_message x lo hi = y ↔ SameSide lo hi x y := by
  rw [constrain_eq, SameSide]
  simp only [Int32.le_iff_toInt_le, Int32.lt_iff_toInt_lt, ← Int32.toInt_inj] at hlo hhi ⊢
  split_ifs with hlow hhigh
  all_goals omega

/-- Two numbers are constrained to the same number if they lie on the same side of the range. -/
theorem constrain_uint_iff {x y lo hi : UInt32} :
    (constrain_with_message x lo hi = constrain_with_message y lo hi ∧ lo ≤ constrain_with_message y lo hi ∧
      constrain_with_message y lo hi ≤ hi) ↔ lo ≤ hi ∧ SameSide lo hi x y := by
  rw [constrain_eq, constrain_eq, SameSide]
  simp only [UInt32.le_iff_toNat_le, UInt32.lt_iff_toNat_lt, ← UInt32.toNat_inj]
  split_ifs
  all_goals omega

theorem toNat_uint32 (n : Int) : (UInt32.ofInt n).toNat = (n % 2 ^ 32).toNat := by
  rw [UInt32.ofInt, UInt32.toNat_ofNat', Nat.mod_eq_of_lt]
  omega

theorem sameSide_zero_iff {n : Int} {lo hi : UInt32} (hrange : lo ≤ hi) :
    SameSide lo hi (if n.natAbs < 2 ^ 32 then .ofInt n else 0xffffffff) 0 ↔ MinusAlike lo hi n := by
  have hzero : (0 : UInt32).toNat = 0 := rfl
  have hgreatest : (0xffffffff : UInt32).toNat = 4294967295 := rfl
  have hbound : lo.toNat < 2 ^ 32 := lo.toNat_lt
  have hbound' : hi.toNat < 2 ^ 32 := hi.toNat_lt
  unfold SameSide MinusAlike
  simp only [UInt32.le_iff_toNat_le, ← UInt32.toNat_inj, hzero] at hrange ⊢
  split_ifs with hfits
  · rw [toNat_uint32]
    omega
  · rw [hgreatest]
    omega

theorem sameSide_atoll_iff {n : Int} {s : Bytes} {lo hi : UInt32} (hrange : lo ≤ hi) (hn : (strto s).1 = n) :
    SameSide lo hi (if n.natAbs < 2 ^ 32 then .ofInt n else 0xffffffff) (.ofInt (atoll s).toInt) ↔
      WholeAlike lo hi n := by
  have hlong : (atoll s).toInt = min (2 ^ 63 - 1) (max (-2 ^ 63) n) := by
    rw [← hn]
    have hmin : Int64.minValue.toInt = -2 ^ 63 := rfl
    have hmax : Int64.maxValue.toInt = 2 ^ 63 - 1 := rfl
    unfold atoll
    rw [hmin, hmax]
    exact Int64.toInt_ofInt_of_le (by omega) (by omega)
  have hgreatest : (0xffffffff : UInt32).toNat = 4294967295 := rfl
  have hbound : lo.toNat < 2 ^ 32 := lo.toNat_lt
  have hbound' : hi.toNat < 2 ^ 32 := hi.toNat_lt
  unfold SameSide WholeAlike
  simp only [UInt32.le_iff_toNat_le, ← UInt32.toNat_inj, toNat_uint32, hlong] at hrange ⊢
  split_ifs with hfits
  · rw [toNat_uint32]
    omega
  · rw [hgreatest]
    omega

theorem not_lt_of_le {x y : Value} (h : x ≤ y) : ¬ y < x := by
  change x.lt y = true ∨ x.eq y = true at h
  change ¬ y.lt x = true
  cases x with
  | nan => simp [Value.lt, Value.eq] at h
  | inf s =>
    cases y with
    | nan => simp [Value.lt, Value.eq] at h
    | inf t => cases s <;> cases t <;> simp [Value.lt, Value.eq] at h ⊢
    | finite t b => cases s <;> simp [Value.lt, Value.eq] at h ⊢
  | finite s a =>
    cases y with
    | nan => simp [Value.lt, Value.eq] at h
    | inf t => cases t <;> simp [Value.lt, Value.eq] at h ⊢
    | finite t b =>
      simp only [Value.lt, Value.eq, decide_eq_true_eq, not_lt] at h ⊢
      exact h.elim le_of_lt le_of_eq

/-- A float within the range is left as it is. -/
theorem constrain_float {x lo hi : Value} (hlo : lo ≤ x) (hhi : x ≤ hi) : constrain_with_message x lo hi = x := by
  rw [constrain_eq, if_neg (not_lt_of_le hlo), if_neg (not_lt_of_le hhi)]

end Ranges

section Agreement

variable {unspecified : Value → Int32} {text : Bytes}

theorem intValue_ok_iff {v : Int32} :
    intValue (rounded unspecified) text = .ok v ↔ is_int (trim text) = some v ∨
      is_int (trim text) = none ∧ ∃ f, Parser.is_float (trim text) = some f ∧ lroundf unspecified f = v := by
  unfold intValue rounded
  cases is_int (trim text) with
  | some n => simp
  | none => cases Parser.is_float (trim text) <;> simp [Int32.ofInt_toInt]

theorem uintValue_ok_iff {v : UInt32} :
    uintValue (rounded unspecified) text = .ok v ↔ is_uint (trim text) = some v ∨
      is_uint (trim text) = none ∧
        ∃ f, Parser.is_float (trim text) = some f ∧ .ofInt (lroundf unspecified f).toInt = v := by
  unfold uintValue rounded
  cases is_uint (trim text) with
  | some n => simp
  | none => cases Parser.is_float (trim text) <;> simp

/-- Nothing is turned down at run time, so the setters agree on one value within the range. -/
theorem settersAgree_iff_value {item after : RangedItem}
    (hruntime : RuntimeSetting.item (c_str text) item = .ok after) :
    SettersAgree unspecified text item ↔ ParserHandler.item unspecified text item = .ok after ∧ after.InRange := by
  unfold SettersAgree
  constructor
  · rintro (⟨err, err', -, hrefused⟩ | ⟨after', hparsed, hset, hrange⟩)
    · rw [hruntime] at hrefused
      cases hrefused
    · rw [hruntime] at hset
      cases hset
      exact ⟨hparsed, hrange⟩
  · rintro ⟨hparsed, hrange⟩
    exact .inr ⟨after, hparsed, hruntime, hrange⟩

theorem int32_setters_agree_iff {minValue maxValue value : Int32} :
    SettersAgree unspecified text (.int32 minValue maxValue value) ↔
      (RangedItem.int32 minValue maxValue value).ReadAlike unspecified text := by
  rw [settersAgree_iff_value rfl]
  have hparse : ParserHandler.item unspecified text (.int32 minValue maxValue value) =
      .ok (.int32 minValue maxValue (atoi (c_str text))) ↔
      ∃ v, intValue (rounded unspecified) text = .ok v ∧
        constrain_with_message v minValue maxValue = atoi (c_str text) := by
    unfold ParserHandler.item
    cases intValue (rounded unspecified) text with
    | error err => exact iff_of_false (fun h => by cases h) (by simp)
    | ok v =>
      constructor
      · intro h
        have hsame := Except.ok.inj h
        rw [RangedItem.int32.injEq] at hsame
        exact ⟨v, rfl, hsame.2.2⟩
      · rintro ⟨_, hv, hsame⟩
        cases hv
        rw [← hsame]
        rfl
  rw [hparse]
  have hwhole {v : Int32} (h : is_int (trim text) = some v) : atoi (c_str text) = v := by
    unfold is_int at h
    split_ifs at h with hend
    rw [← Option.some.inj h, atoi, strtol, strtol, strto_c_str hend]
  constructor
  · rintro ⟨⟨v, hv, hsame⟩, hlo, hhi⟩
    refine ⟨atoi (c_str text), hlo, hhi, ?_⟩
    rcases intValue_ok_iff.mp hv with hint | ⟨hnone, f, hf, rfl⟩
    · exact .inl (hint.trans (congrArg some (hwhole hint).symm))
    · exact .inr ⟨hnone, rfl, f, hf, (constrain_int_iff hlo hhi).mp hsame⟩
  · rintro ⟨v, hlo, hhi, hint | ⟨hnone, rfl, f, hf, hside⟩⟩
    · have hv := hwhole hint
      refine ⟨⟨v, intValue_ok_iff.mpr (.inl hint), ?_⟩, hv ▸ hlo, hv ▸ hhi⟩
      rw [hv]
      exact (constrain_int_iff hlo hhi).mpr (.inl rfl)
    · exact ⟨⟨lroundf unspecified f, intValue_ok_iff.mpr (.inr ⟨hnone, f, hf, rfl⟩),
        (constrain_int_iff hlo hhi).mpr hside⟩, hlo, hhi⟩

/-- The two readings of an unsigned number lie on one side of its range. -/
theorem uint32_setters_agree_side {minValue maxValue value : UInt32} :
    SettersAgree unspecified text (.uint32 minValue maxValue value) ↔ minValue ≤ maxValue ∧ ∃ v,
      uintValue (rounded unspecified) text = .ok v ∧ SameSide minValue maxValue v
        (if (c_str text).head? = some 0x2d then 0 else .ofInt (atoll (c_str text)).toInt) := by
  rw [settersAgree_iff_value rfl]
  generalize (if (c_str text).head? = some 0x2d then 0 else UInt32.ofInt (atoll (c_str text)).toInt) = w
  have hparse : ParserHandler.item unspecified text (.uint32 minValue maxValue value) =
      .ok (.uint32 minValue maxValue (constrain_with_message w minValue maxValue)) ↔
      ∃ v, uintValue (rounded unspecified) text = .ok v ∧
        constrain_with_message v minValue maxValue = constrain_with_message w minValue maxValue := by
    unfold ParserHandler.item
    cases uintValue (rounded unspecified) text with
    | error err => exact iff_of_false (fun h => by cases h) (by simp)
    | ok v =>
      constructor
      · intro h
        have hsame := Except.ok.inj h
        rw [RangedItem.uint32.injEq] at hsame
        exact ⟨v, rfl, hsame.2.2⟩
      · rintro ⟨_, hv, hsame⟩
        cases hv
        rw [← hsame]
        rfl
  rw [hparse]
  constructor
  · rintro ⟨⟨v, hv, hsame⟩, hlo, hhi⟩
    obtain ⟨hrange, hside⟩ := constrain_uint_iff.mp ⟨hsame, hlo, hhi⟩
    exact ⟨hrange, v, hv, hside⟩
  · rintro ⟨hrange, v, hv, hside⟩
    obtain ⟨hsame, hlo, hhi⟩ := constrain_uint_iff.mpr ⟨hrange, hside⟩
    exact ⟨⟨v, hv, hsame⟩, hlo, hhi⟩

theorem head?_c_str : (c_str text).head? = some 0x2d ↔ text.head? = some 0x2d := by
  rw [c_str, List.head?_takeWhile, Option.filter_eq_some_iff]
  simp

theorem uint32_setters_agree_iff {minValue maxValue value : UInt32} :
    SettersAgree unspecified text (.uint32 minValue maxValue value) ↔
      (RangedItem.uint32 minValue maxValue value).ReadAlike unspecified text := by
  rw [uint32_setters_agree_side]
  refine and_congr_right fun hrange => ?_
  simp only [head?_c_str]
  by_cases hwhole : (strto (trim text)).2 = []
  · have hread : is_uint (trim text) = some (strtoul (trim text)).1 := if_pos hwhole
    have hfile (v : UInt32) : uintValue (rounded unspecified) text = .ok v ↔ (strtoul (trim text)).1 = v := by
      rw [uintValue_ok_iff, hread, Option.some.injEq]
      simp
    simp only [hfile, exists_eq_left', hwhole, true_and, ne_eq, not_true_eq_false, false_and, or_false]
    split_ifs
    · exact sameSide_zero_iff hrange
    · exact sameSide_atoll_iff hrange (strto_c_str hwhole)
  · have hread : is_uint (trim text) = none := if_neg hwhole
    simp only [uintValue_ok_iff, hread, hwhole, reduceCtorEq, false_or, false_and, true_and, ne_eq, not_false_eq_true]
    have hfits (f : Value) : (lroundf unspecified f).toInt.natAbs < 2 ^ 32 := by
      have hlt := (lroundf unspecified f).toInt_lt
      have hge := (lroundf unspecified f).le_toInt
      omega
    constructor
    · rintro ⟨_, ⟨f, hf, rfl⟩, hside⟩
      refine ⟨f, hf, ?_⟩
      split_ifs at hside ⊢
      · rw [← sameSide_zero_iff hrange, if_pos (hfits f)]
        exact hside
      · exact hside
    · rintro ⟨f, hf, hside⟩
      refine ⟨_, ⟨f, hf, rfl⟩, ?_⟩
      split_ifs at hside ⊢
      · rw [← sameSide_zero_iff hrange, if_pos (hfits f)] at hside
        exact hside
      · exact hside

theorem float_setters_agree_iff {minValue maxValue value : Value} :
    SettersAgree unspecified text (.float minValue maxValue value) ↔
      (RangedItem.float minValue maxValue value).ReadAlike unspecified text := by
  rw [settersAgree_iff_value rfl]
  unfold ParserHandler.item floatValue
  cases hread : Parser.is_float (trim text) with
  | none => exact iff_of_false (fun h => by cases h.1) (by simp [RangedItem.ReadAlike, hread])
  | some v =>
    rw [strtof_c_str hread]
    constructor
    · rintro ⟨-, hlo, hhi⟩
      exact ⟨v, hread, hlo, hhi⟩
    · rintro ⟨w, hw, hlo, hhi⟩
      rw [hread, Option.some.injEq] at hw
      subst hw
      refine ⟨?_, hlo, hhi⟩
      change Except.ok (RangedItem.float minValue maxValue (constrain_with_message v minValue maxValue)) = _
      rw [constrain_float hlo hhi]

/-- A text sets an item to the same value within its range by both ways exactly if it is read alike. -/
theorem setters_agree_iff (unspecified : Value → Int32) (text : Bytes) (item : RangedItem) :
    SettersAgree unspecified text item ↔ item.ReadAlike unspecified text := by
  cases item with
  | int32 minValue maxValue value => exact int32_setters_agree_iff
  | uint32 minValue maxValue value => exact uint32_setters_agree_iff
  | float minValue maxValue value => exact float_setters_agree_iff

/-- At run time `500` is stored where the range ends at 100. -/
theorem setters_disagree :
    ¬ ∀ (unspecified : Value → Int32) (text : Bytes) (item : RangedItem), SettersAgree unspecified text item := by
  intro h
  have hread : is_int (trim (bytes "500")) = some 500 := by decide
  obtain ⟨v, -, hhi, hint | ⟨hnone, -⟩⟩ := int32_setters_agree_iff.mp (h (fun _ => 0) (bytes "500") (.int32 0 100 0))
  · rw [hread, Option.some.injEq] at hint
    subst hint
    exact absurd hhi (by decide)
  · rw [hread] at hnone
    cases hnone

end Agreement

end DuneWeaver.Configuration
