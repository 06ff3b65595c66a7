import DuneWeaver.Decimal.Fixed
import DuneWeaver.Settings.Reload

namespace DuneWeaver

open Decimal (Integer Stops)

/-- The text is the name, with letters of any case. -/
def Named (name text : Bytes) : Prop := (c_str name).map tolower = text.map tolower

namespace Setting

/-- What has to be so for a setting to be written. -/
def Writable (env : WriteEnv) : Setting → Prop
  | int s => check_state env s.allow_hold = .Ok
  | string s => check_state env s.allow_hold = .Ok
  | enum s => check_state env s.allow_hold = .Ok
  | ipaddr s => check_state env s.allow_hold = .Ok

/-- The lengths that a string setting declares are of type `int`, and the maximum is
positive. -/
def Declared : Setting → Prop
  | string s => -2 ^ 31 ≤ s.minLength ∧ s.minLength < 2 ^ 31 ∧ 0 < s.maxLength ∧ s.maxLength < 2 ^ 31
  | _ => True

variable (fromString : Bytes → Option UInt32) (text : Bytes)

/-- The text stands for the value, as a whole. -/
def Denotes : Setting → SettingValue → Prop
  | int s, value => ∃ n : Int32, value = .int n ∧ Integer (trim text) n.toInt ∧ s.minValue ≤ n ∧ n ≤ s.maxValue
  | string s, value => value = .string text ∧ s.minLength ≤ text.length ∧ text.length ≤ s.maxLength
  | enum s, value => ∃ option ∈ s.options, value = .enum option.2 ∧
      (Named option.1 (trim text) ∨
        (∀ other ∈ s.options, ¬ Named other.1 (trim text)) ∧ Integer (trim text) option.2.toInt)
  | ipaddr _, value => ∃ ipaddr, fromString (c_str text) = some ipaddr ∧ value = .ipaddr ipaddr

/-- More text stands behind the front of it. -/
def GoesOn (front : Bytes) : Prop := ∃ rest, trim text = front ++ rest ∧ rest ≠ [] ∧ Stops rest

/-- None of the texts that a setting takes for something else. A number is taken with
anything behind it, and a name with anything behind a NUL. With a minimum of zero no length
is too long, and with a negative one every length is too short. A setting that keeps its
value in the store does not take back a default, nor the number that marks an empty
store. -/
def TakesAsMeant : Setting → Prop
  | int s =>
    (¬ ∃ front, ∃ n : Int32, Integer front n.toInt ∧ GoesOn text front ∧ s.minValue ≤ n ∧ n ≤ s.maxValue) ∧
      (s.currentIsNvm = true → ∀ n : Int32, Integer (trim text) n.toInt → s.minValue ≤ n → n ≤ s.maxValue →
        if n = s.defaultValue then s.storedValue = n ∨ s.storedValue = Int32.minValue else n ≠ Int32.minValue)
  | string s =>
    (s.minLength = 0 → text.length ≤ s.maxLength) ∧ (s.minLength < 0 → s.maxLength < text.length) ∧
      (s.minLength ≤ text.length → text.length ≤ s.maxLength → 0 ∉ text)
  | enum s =>
    ¬ (0 ∈ trim text ∧ ∃ option ∈ s.options, sameLetters option.1 (trim text) = true) ∧
      ¬ ∃ front, ∃ option ∈ s.options, Integer front option.2.toInt ∧ GoesOn text front ∧
        ∀ other ∈ s.options, sameLetters other.1 (trim text) = false
  | ipaddr _ => True

end Setting

/-- A text is accepted exactly when it stands for a value, and then the setting has that
value. -/
def Stored.SetsDenoted (fromString : Bytes → Option UInt32) (env : WriteEnv) (text : Bytes) (w : Stored) : Prop :=
  ((w.call fromString (.setStringValue env text)).1 = .Ok ↔ ∃ value, w.setting.Denotes fromString text value) ∧
    ((w.call fromString (.setStringValue env text)).1 = .Ok →
      w.setting.Denotes fromString text (w.call fromString (.setStringValue env text)).2.setting.value)

section Numbers

variable {text front rest : Bytes} {n : Int}

/-- What `from_chars` makes of the sign and of what stands behind it. -/
private theorem from_chars_sign {neg : Bool} {body : Bytes} (hsign : neg = false → body.head? ≠ some 45) :
    from_chars (Decimal.sign neg ++ body) =
      let digits := body.takeWhile isdigit
      let magnitude : Int := digits.foldl (fun n c => n * 10 + (c.toNat - 48 : Int)) 0
      let value := if neg then -magnitude else magnitude
      if digits = [] then none
      else if Int32.minValue.toInt ≤ value ∧ value ≤ Int32.maxValue.toInt then some (.ofInt value)
      else none := by
  cases neg with
  | false =>
    rw [from_chars, Decimal.sign, if_neg Bool.false_ne_true, List.nil_append]
    simp only [hsign rfl, if_neg Bool.false_ne_true]
    rfl
  | true => rfl

/-- `from_chars` reads the number in front of a text, if it fits. -/
theorem from_chars_append (h : Integer front n) (hrest : Stops rest) :
    from_chars (front ++ rest) =
      if Int32.minValue.toInt ≤ n ∧ n ≤ Int32.maxValue.toInt then some (.ofInt n) else none := by
  obtain ⟨neg, hdigits⟩ := h
  have hvalue := Decimal.foldl_int hdigits.digits 0
  rw [List.append_assoc, from_chars_sign fun _ => hdigits.head_ne rest,
    Decimal.takeWhile_digits hdigits.digits hrest]
  dsimp only
  rw [if_neg hdigits.ne_nil, ← Nat.cast_zero, hvalue]
  rfl

/-- `from_chars` reads a number from the front of a text, and nothing else. -/
theorem from_chars_eq_some_iff {value : Int32} :
    from_chars text = some value ↔ ∃ front rest, text = front ++ rest ∧ Integer front value.toInt ∧ Stops rest := by
  constructor
  · intro hread
    rcases Decimal.exists_integer_cut text with ⟨front, rest, n, rfl, hfront, hrest⟩ | ⟨neg, body, rfl, hstops, hsign⟩
    · rw [from_chars_append hfront hrest] at hread
      obtain ⟨hfits, hvalue⟩ := Option.ite_none_right_eq_some.mp hread
      rw [← Option.some.inj hvalue, Int32.toInt_ofInt_of_le hfits.1 (Int.lt_add_one_of_le hfits.2)]
      exact ⟨front, rest, rfl, hfront, hrest⟩
    · have hnone : body.takeWhile isdigit = [] := Decimal.takeWhile_digits (a := []) (by simp) hstops
      rw [from_chars_sign fun hneg => by simpa [hneg, Decimal.sign] using hsign hneg] at hread
      simp only [hnone, if_true] at hread
      cases hread
  · rintro ⟨front, rest, rfl, hfront, hrest⟩
    rw [from_chars_append hfront hrest, if_pos ⟨value.minValue_le_toInt, value.toInt_le⟩, Int32.ofInt_toInt]

theorem zero_notMem_integer (h : Integer text n) : 0 ∉ text := by
  obtain ⟨neg, hdigits⟩ := h
  intro hzero
  rcases List.mem_append.mp hzero with hsign | hdigit
  · cases neg <;> simp [Decimal.sign] at hsign
  · exact absurd (hdigits.digits 0 hdigit) (by decide)

/-- A text that is a number as a whole has nothing behind the number. -/
theorem integer_whole {m : Int} (hwhole : Integer text m) (htext : text = front ++ rest) (hfront : Integer front n)
    (hrest : Stops rest) : m = n ∧ rest = [] := by
  obtain ⟨-, hsame, hnil⟩ :=
    hwhole.cut_unique hfront Decimal.stops_nil hrest ((List.append_nil text).trans htext)
  exact ⟨hsame, hnil.symm⟩

/-- Without more text behind it, the number in front is the text. -/
theorem integer_of_not_goesOn (hrest : Stops rest) (htext : trim text = front ++ rest) (hfront : Integer front n)
    (hend : ¬ Setting.GoesOn text front) : Integer (trim text) n := by
  have hnil : rest = [] := by
    by_contra hmore
    exact hend ⟨rest, htext, hmore, hrest⟩
  rwa [htext, hnil, List.append_nil]

end Numbers

section Named

variable {name text : Bytes}

/-- `strcasecmp` stops at a NUL. -/
theorem sameLetters_iff : sameLetters name text = true ↔ Named name (c_str text) := by
  simp [sameLetters, Named]

theorem tolower_ne_zero {c : UInt8} (hc : c ≠ 0) : tolower c ≠ 0 := by
  rw [tolower]
  split
  case isTrue hupper =>
    have hlow : 65 ≤ c.toNat := hupper.1
    have hhigh : c.toNat ≤ 90 := hupper.2
    intro hzero
    have hsum : (c.toNat + 32) % 256 = 0 := congrArg UInt8.toNat hzero
    omega
  case isFalse => exact hc

/-- A name is written without a NUL. -/
theorem Named.zero_notMem (h : Named name text) : 0 ∉ text := by
  intro hzero
  have hmem : tolower 0 ∈ text.map tolower := List.mem_map_of_mem hzero
  rw [← h] at hmem
  obtain ⟨c, hc, hlower⟩ := List.mem_map.mp hmem
  refine tolower_ne_zero (c := c) ?_ hlower
  rintro rfl
  exact zero_notMem_c_str name hc

theorem named_iff : Named name text ↔ sameLetters name text = true ∧ 0 ∉ text := by
  rw [sameLetters_iff]
  constructor
  · intro h
    rw [c_str_eq_self h.zero_notMem]
    exact ⟨h, h.zero_notMem⟩
  · rintro ⟨h, hzero⟩
    rwa [c_str_eq_self hzero] at h

end Named

section Converters

variable {env : WriteEnv} {text : Bytes}

theorem IntSetting.convert_eq_ok_iff {s : IntSetting} (hwritable : check_state env s.allow_hold = .Ok) {n : Int32} :
    s.convert env text = .ok n ↔ from_chars (trim text) = some n ∧ s.minValue ≤ n ∧ n ≤ s.maxValue := by
  rw [IntSetting.convert, hwritable]
  cases hread : from_chars (trim text) with
  | none => simp
  | some m =>
    dsimp only
    constructor
    · intro h
      split at h
      case isTrue => cases h
      case isFalse hrange =>
        cases h
        rw [not_or, Int32.not_lt, gt_iff_lt, Int32.not_lt] at hrange
        exact ⟨rfl, hrange⟩
    · rintro ⟨heq, hlow, hhigh⟩
      cases heq
      rw [if_neg]
      rw [not_or, Int32.not_lt, gt_iff_lt, Int32.not_lt]
      exact ⟨hlow, hhigh⟩

theorem StringSetting.convert_eq_ok_iff {s : StringSetting} (hwritable : check_state env s.allow_hold = .Ok)
    {value : Bytes} :
    s.convert env text = .ok value ↔ value = text ∧
      (s.minLength = 0 ∨ s.maxLength = 0 ∨ size_t s.minLength ≤ text.length ∧ text.length ≤ size_t s.maxLength) := by
  rw [StringSetting.convert, hwritable]
  dsimp only
  split
  case isTrue hrange =>
    refine ⟨(fun h => by cases h), fun h => ?_⟩
    omega
  case isFalse hrange =>
    refine ⟨fun h => ⟨(Except.ok.inj h).symm, by omega⟩, fun h => by rw [h.1]⟩

/-- An option is found by its name, and without a name by the number in front. -/
theorem EnumSetting.convert_eq_ok_iff {s : EnumSetting} (hwritable : check_state env s.allow_hold = .Ok)
    {value : Int8} :
    s.convert env text = .ok value ↔
      (s.options.find? fun option => sameLetters option.1 (trim text)).map Prod.snd = some value ∨
        (∀ option ∈ s.options, sameLetters option.1 (trim text) = false) ∧
          from_chars (trim text) = some value.toInt32 ∧ value ∈ s.options.map Prod.snd := by
  rw [EnumSetting.convert, hwritable]
  dsimp only
  cases hname : s.options.find? fun option => sameLetters option.1 (trim text) with
  | some option =>
    have hsome := List.find?_some hname
    constructor
    · intro h
      exact .inl (by rw [Option.map_some, Except.ok.inj h])
    · rintro (h | ⟨hnone, -, -⟩)
      · rw [Option.map_some, Option.some.injEq] at h
        rw [← h]
      · exact absurd hsome (by simp [hnone option (List.mem_of_find?_eq_some hname)])
  | none =>
    have hnone : ∀ option ∈ s.options, sameLetters option.1 (trim text) = false := by
      simpa using List.find?_eq_none.mp hname
    dsimp only
    rw [Option.map_none]
    constructor
    · intro h
      split at h
      case isTrue => cases h
      case isFalse =>
        split at h
        case h_1 => cases h
        case h_2 num hread =>
          split at h
          case h_1 => cases h
          case h_2 option hnumber =>
            cases h
            have hsame : option.2.toInt32 = num := by simpa using List.find?_some hnumber
            exact .inr ⟨hnone, hread.trans (congrArg some hsame.symm),
              List.mem_map_of_mem (List.mem_of_find?_eq_some hnumber)⟩
    · rintro (h | ⟨-, hread, hvalue⟩)
      · cases h
      · have hsolid : trim text ≠ [] := by
          intro hempty
          rw [hempty] at hread
          cases hread
        rw [if_neg hsolid, hread]
        dsimp only
        cases hnumber : s.options.find? fun option => option.2.toInt32 = value.toInt32 with
        | none =>
          obtain ⟨option, hmem, hoption⟩ := List.mem_map.mp hvalue
          have hdiffers := List.find?_eq_none.mp hnumber option hmem
          rw [hoption] at hdiffers
          exact absurd (decide_eq_true rfl) hdiffers
        | some option =>
          have hsame : option.2.toInt32 = value.toInt32 := by simpa using List.find?_some hnumber
          rw [← value.toInt8_toInt32, ← hsame, option.2.toInt8_toInt32]

/-- No check turns a text down without an error. -/
theorem IntSetting.convert_ne_ok (s : IntSetting) : s.convert env text ≠ .error .Ok := by
  rw [IntSetting.convert]
  split
  · split
    · simp
    · split <;> simp
  case h_2 hcheck => simpa only [ne_eq, Except.error.injEq] using hcheck

theorem StringSetting.convert_ne_ok (s : StringSetting) : s.convert env text ≠ .error .Ok := by
  rw [StringSetting.convert]
  split
  · split <;> simp
  case h_2 hcheck => simpa only [ne_eq, Except.error.injEq] using hcheck

theorem EnumSetting.convert_ne_ok (s : EnumSetting) : s.convert env text ≠ .error .Ok := by
  unfold EnumSetting.convert
  cases hcheck : check_state env s.allow_hold
  case Ok =>
    dsimp only
    split
    · simp
    · split
      · simp
      · split
        · simp
        · split <;> simp
  all_goals simp

theorem IPaddrSetting.convert_ne_ok (fromString : Bytes → Option UInt32) (s : IPaddrSetting) :
    s.convert fromString env text ≠ .error .Ok := by
  rw [IPaddrSetting.convert]
  split
  · split <;> simp
  case h_2 hcheck => simpa only [ne_eq, Except.error.injEq] using hcheck

end Converters

/-- With its value in the store, a setting shows the number unless it was believed to be
stored already, or marks an empty store. -/
theorem IntSetting.value_assign_iff {s : IntSetting} {n : Int32} {nvs : Nvs} :
    (s.assign n nvs).1.value = n ↔
      (s.currentIsNvm = true →
        if n = s.defaultValue then s.storedValue = n ∨ s.storedValue = Int32.minValue else n ≠ Int32.minValue) := by
  cases hnvm : s.currentIsNvm with
  | false =>
    refine iff_of_true ?_ (by simp)
    unfold IntSetting.assign IntSetting.value
    simp only [hnvm, Bool.false_eq_true, not_false_eq_true, if_true]
    split_ifs <;> first | rfl | simp_all
  | true =>
    unfold IntSetting.assign IntSetting.value
    simp only [hnvm, not_true_eq_false, if_false, forall_const]
    by_cases hstored : s.storedValue = n
    · by_cases hdefault : n = s.defaultValue
      · simp [hnvm, hstored, ← hdefault]
      · by_cases hmark : n = Int32.minValue
        · subst hmark
          simp [hnvm, hstored, hdefault, Ne.symm hdefault]
        · simp [hnvm, hstored, hdefault, hmark]
    · by_cases hdefault : n = s.defaultValue
      · simp [hnvm, hstored, ← hdefault]
      · by_cases hmark : n = Int32.minValue
        · subst hmark
          simp [hstored, hdefault, Ne.symm hdefault]
        · simp [hstored, hdefault, hmark]

section Settings

variable {env : WriteEnv} {text : Bytes} {nvs : Nvs} (fromString : Bytes → Option UInt32)

/-- What is to be shown of a call that goes by what the checks let through. -/
private theorem setsDenoted_of {α : Type} {w : Stored} {converted : Except Error α} (value : α → SettingValue)
    (hne : converted ≠ .error .Ok)
    (herror : ∀ err, converted = .error err → (w.call fromString (.setStringValue env text)).1 = err)
    (hok : ∀ v, converted = .ok v → (w.call fromString (.setStringValue env text)).1 = .Ok ∧
      (w.call fromString (.setStringValue env text)).2.setting.value = value v) :
    w.SetsDenoted fromString env text ↔
      ((∃ v, converted = .ok v) ↔ ∃ v, w.setting.Denotes fromString text v) ∧
        ∀ v, converted = .ok v → w.setting.Denotes fromString text (value v) := by
  have hcall : (w.call fromString (.setStringValue env text)).1 = .Ok ↔ ∃ v, converted = .ok v := by
    constructor
    · intro hfine
      cases hconverted : converted with
      | error err =>
        rw [herror err hconverted] at hfine
        exact absurd (hconverted.trans (congrArg Except.error hfine)) hne
      | ok v => exact ⟨v, rfl⟩
    · rintro ⟨v, hv⟩
      exact (hok v hv).1
  rw [Stored.SetsDenoted, hcall]
  refine and_congr_right fun _ => ⟨fun h v hv => ?_, fun h ⟨v, hv⟩ => ?_⟩
  · rw [← (hok v hv).2]
    exact h ⟨v, hv⟩
  · rw [(hok v hv).2]
    exact h v hv

/-- A number is taken with anything behind it. -/
theorem IntSetting.setsDenoted_iff {s : IntSetting} (hwritable : check_state env s.allow_hold = .Ok) :
    Stored.SetsDenoted fromString env text ⟨.int s, nvs⟩ ↔ (Setting.int s).TakesAsMeant text := by
  have hconvert {n : Int32} : s.convert env text = .ok n ↔ (∃ front rest, trim text = front ++ rest ∧
      Integer front n.toInt ∧ Stops rest) ∧ s.minValue ≤ n ∧ n ≤ s.maxValue := by
    rw [IntSetting.convert_eq_ok_iff hwritable, from_chars_eq_some_iff]
  rw [setsDenoted_of fromString (fun n => .int (s.assign n nvs).1.value) s.convert_ne_ok
    (fun err herr => by rw [Stored.call]; dsimp only; rw [IntSetting.setStringValue, herr])
    (fun n hn => by rw [Stored.call]; dsimp only; rw [IntSetting.setStringValue, hn]; exact ⟨rfl, rfl⟩)]
  constructor
  · rintro ⟨-, hvalue⟩
    constructor
    · rintro ⟨front, n, hfront, ⟨rest, htext, hmore, hrest⟩, hrange⟩
      obtain ⟨m, -, hwhole, -⟩ := hvalue n (hconvert.mpr ⟨⟨front, rest, htext, hfront, hrest⟩, hrange⟩)
      exact hmore (integer_whole hwhole htext hfront hrest).2
    · intro hnvm n hwhole hlow hhigh
      obtain ⟨m, hm, hshown, -⟩ :=
        hvalue n (hconvert.mpr ⟨⟨trim text, [], (List.append_nil _).symm, hwhole, Decimal.stops_nil⟩, hlow, hhigh⟩)
      have hsame : (s.assign n nvs).1.value = n :=
        (SettingValue.int.inj hm).trans (Int32.toInt_inj.mp (hshown.unique hwhole))
      exact IntSetting.value_assign_iff.mp hsame hnvm
  · rintro ⟨hend, hnvm⟩
    have hwhole {n : Int32} (hn : s.convert env text = .ok n) :
        Integer (trim text) n.toInt ∧ s.minValue ≤ n ∧ n ≤ s.maxValue := by
      obtain ⟨⟨front, rest, htext, hfront, hrest⟩, hrange⟩ := hconvert.mp hn
      exact ⟨integer_of_not_goesOn hrest htext hfront fun hmore => hend ⟨front, n, hfront, hmore, hrange⟩, hrange⟩
    refine ⟨⟨fun ⟨n, hn⟩ => ⟨.int n, n, rfl, hwhole hn⟩, ?_⟩, fun n hn => ?_⟩
    · rintro ⟨_, n, -, hn, hrange⟩
      exact ⟨n, hconvert.mpr ⟨⟨trim text, [], (List.append_nil _).symm, hn, Decimal.stops_nil⟩, hrange⟩⟩
    · obtain ⟨hn, hlow, hhigh⟩ := hwhole hn
      have hvalue : (s.assign n nvs).1.value = n :=
        IntSetting.value_assign_iff.mpr fun hstored => hnvm hstored n hn hlow hhigh
      exact ⟨n, congrArg SettingValue.int hvalue, hn, hlow, hhigh⟩

/-- Which lengths a string setting takes, and which of them it should take. -/
private theorem lengths_iff {s : StringSetting} (hdeclared : (Setting.string s).Declared) (text : Bytes) :
    ((s.minLength = 0 ∨ s.maxLength = 0 ∨ size_t s.minLength ≤ text.length ∧ text.length ≤ size_t s.maxLength) ↔
        s.minLength ≤ text.length ∧ text.length ≤ s.maxLength) ↔
      (s.minLength = 0 → text.length ≤ s.maxLength) ∧ (s.minLength < 0 → s.maxLength < text.length) := by
  obtain ⟨hminlow, hminhigh, hmaxlow, hmaxhigh⟩ := hdeclared
  have hmax : (size_t s.maxLength : Int) = s.maxLength := by
    rw [size_t]
    omega
  by_cases hnegative : s.minLength < 0
  · have hmin : (size_t s.minLength : Int) = s.minLength + 2 ^ 32 := by
      rw [size_t]
      omega
    omega
  · have hmin : (size_t s.minLength : Int) = s.minLength := by
      rw [size_t]
      omega
    omega

/-- The length is looked at only where a minimum is declared. -/
theorem StringSetting.setsDenoted_iff {s : StringSetting} (hdeclared : (Setting.string s).Declared)
    (hwritable : check_state env s.allow_hold = .Ok) :
    Stored.SetsDenoted fromString env text ⟨.string s, nvs⟩ ↔ (Setting.string s).TakesAsMeant text := by
  have hconvert {value : Bytes} : s.convert env text = .ok value ↔ _ := StringSetting.convert_eq_ok_iff hwritable
  have hlengths := lengths_iff hdeclared text
  have hshown (value : Bytes) : (s.assign value nvs).1.value = c_str value := by
    unfold StringSetting.assign StringSetting.value
    dsimp only
    split_ifs <;> rfl
  rw [setsDenoted_of fromString (fun value => .string (s.assign value nvs).1.value) s.convert_ne_ok
    (fun err herr => by rw [Stored.call]; dsimp only; rw [StringSetting.setStringValue, herr])
    (fun v hv => by rw [Stored.call]; dsimp only; rw [StringSetting.setStringValue, hv]; exact ⟨rfl, rfl⟩)]
  have hsets : (∃ value, s.convert env text = .ok value) ↔
      s.minLength = 0 ∨ s.maxLength = 0 ∨ size_t s.minLength ≤ text.length ∧ text.length ≤ size_t s.maxLength :=
    ⟨fun ⟨_, hv⟩ => (hconvert.mp hv).2, fun h => ⟨text, hconvert.mpr ⟨rfl, h⟩⟩⟩
  have hdenotes : (∃ value, (Setting.string s).Denotes fromString text value) ↔
      s.minLength ≤ text.length ∧ text.length ≤ s.maxLength :=
    ⟨fun ⟨_, _, h⟩ => h, fun h => ⟨_, rfl, h⟩⟩
  rw [hsets, hdenotes, hlengths, Setting.TakesAsMeant, and_assoc.symm]
  refine and_congr_right fun hlong => ?_
  have htakes := hlengths.mpr hlong
  constructor
  · intro h hlow hhigh
    obtain ⟨hsame, -⟩ := h text (hconvert.mpr ⟨rfl, htakes.mpr ⟨hlow, hhigh⟩⟩)
    rw [SettingValue.string.injEq, hshown] at hsame
    rw [← hsame]
    exact zero_notMem_c_str text
  · intro h value hvalue
    obtain ⟨rfl, hlength⟩ := hconvert.mp hvalue
    obtain ⟨hlow, hhigh⟩ := htakes.mp hlength
    rw [hshown, c_str_eq_self (h hlow hhigh)]
    exact ⟨rfl, hlow, hhigh⟩

/-- An option is taken with anything behind its number, or behind a NUL after its name. -/
theorem EnumSetting.setsDenoted_iff {s : EnumSetting} (hwritable : check_state env s.allow_hold = .Ok) :
    Stored.SetsDenoted fromString env text ⟨.enum s, nvs⟩ ↔ (Setting.enum s).TakesAsMeant text := by
  have hshown (value : Int8) : (s.assign value nvs).1.value = value := by
    unfold EnumSetting.assign EnumSetting.value
    dsimp only
    split_ifs <;> rfl
  rw [setsDenoted_of fromString (fun value => .enum (s.assign value nvs).1.value) s.convert_ne_ok
    (fun err herr => by rw [Stored.call]; dsimp only; rw [EnumSetting.setStringValue, herr])
    (fun v hv => by rw [Stored.call]; dsimp only; rw [EnumSetting.setStringValue, hv]; exact ⟨rfl, rfl⟩)]
  have hconvert {value : Int8} : s.convert env text = .ok value ↔ _ := EnumSetting.convert_eq_ok_iff hwritable
  have hnamed {option : Bytes × Int8} (hmem : option ∈ s.options) (hname : sameLetters option.1 (trim text) = true) :
      ∃ value, s.convert env text = .ok value := by
    cases hfind : s.options.find? fun option => sameLetters option.1 (trim text) with
    | none => exact absurd hname (List.find?_eq_none.mp hfind option hmem)
    | some found => exact ⟨found.2, hconvert.mpr (.inl (by rw [hfind, Option.map_some]))⟩
  have hnumber {option : Bytes × Int8} {front rest : Bytes} (hmem : option ∈ s.options)
      (hnone : ∀ other ∈ s.options, sameLetters other.1 (trim text) = false) (htext : trim text = front ++ rest)
      (hfront : Integer front option.2.toInt) (hrest : Stops rest) : s.convert env text = .ok option.2 := by
    refine hconvert.mpr (.inr ⟨hnone, from_chars_eq_some_iff.mpr ⟨front, rest, htext, ?_, hrest⟩,
      List.mem_map_of_mem hmem⟩)
    rwa [Int8.toInt_toInt32]
  constructor
  · rintro ⟨-, hvalue⟩
    constructor
    · rintro ⟨hzero, option, hmem, hname⟩
      obtain ⟨value, hok⟩ := hnamed hmem hname
      obtain ⟨other, -, -, hother | ⟨-, hother⟩⟩ := hvalue value hok
      · exact hother.zero_notMem hzero
      · exact zero_notMem_integer hother hzero
    · rintro ⟨front, option, hmem, hfront, ⟨rest, htext, hmore, hrest⟩, hnone⟩
      obtain ⟨other, hin, -, hother | ⟨-, hother⟩⟩ := hvalue option.2 (hnumber hmem hnone htext hfront hrest)
      · exact absurd (named_iff.mp hother).1 (by simp [hnone other hin])
      · exact hmore (integer_whole hother htext hfront hrest).2
  · rintro ⟨hnul, hend⟩
    have hdenotes (value : Int8) (hok : s.convert env text = .ok value) :
        (Setting.enum s).Denotes fromString text (.enum value) := by
      rcases hconvert.mp hok with hfound | ⟨hnone, hread, hin⟩
      · obtain ⟨option, hfind, rfl⟩ := Option.map_eq_some_iff.mp hfound
        have hmem := List.mem_of_find?_eq_some hfind
        have hname : sameLetters option.1 (trim text) = true := by simpa using List.find?_some hfind
        exact ⟨option, hmem, rfl, .inl (named_iff.mpr ⟨hname, fun hzero => hnul ⟨hzero, option, hmem, hname⟩⟩)⟩
      · obtain ⟨option, hmem, rfl⟩ := List.mem_map.mp hin
        obtain ⟨front, rest, htext, hfront, hrest⟩ := from_chars_eq_some_iff.mp hread
        rw [Int8.toInt_toInt32] at hfront
        refine ⟨option, hmem, rfl, .inr ⟨fun other hother hname => ?_, ?_⟩⟩
        · exact absurd (named_iff.mp hname).1 (by simp [hnone other hother])
        · exact integer_of_not_goesOn hrest htext hfront fun hmore => hend ⟨front, option, hmem, hfront, hmore, hnone⟩
    refine ⟨⟨fun ⟨value, hok⟩ => ⟨_, hdenotes value hok⟩, ?_⟩, fun value hok => ?_⟩
    · rintro ⟨_, option, hmem, -, hname | ⟨hnone, hwhole⟩⟩
      · exact hnamed hmem (named_iff.mp hname).1
      · have hclean := zero_notMem_integer hwhole
        refine ⟨_, hnumber hmem (fun other hother => ?_) (List.append_nil _).symm hwhole Decimal.stops_nil⟩
        by_contra hname
        exact hnone other hother (named_iff.mpr ⟨by simpa using hname, hclean⟩)
    · rw [hshown]
      exact hdenotes value hok

/-- The library decides what an address is. -/
theorem IPaddrSetting.setsDenoted {s : IPaddrSetting} (hwritable : check_state env s.allow_hold = .Ok) :
    Stored.SetsDenoted fromString env text ⟨.ipaddr s, nvs⟩ := by
  have hshown (value : UInt32) : (s.assign value nvs).1.value = value := by
    unfold IPaddrSetting.assign IPaddrSetting.value
    dsimp only
    split_ifs <;> rfl
  rw [setsDenoted_of fromString (fun value => .ipaddr (s.assign value nvs).1.value) (s.convert_ne_ok fromString)
    (fun err herr => by rw [Stored.call]; dsimp only; rw [IPaddrSetting.setStringValue, herr])
    (fun v hv => by rw [Stored.call]; dsimp only; rw [IPaddrSetting.setStringValue, hv]; exact ⟨rfl, rfl⟩)]
  have hconvert {value : UInt32} :
      s.convert fromString env text = .ok value ↔ fromString (c_str text) = some value := by
    rw [IPaddrSetting.convert, hwritable]
    cases fromString (c_str text) with
    | none => simp
    | some ipaddr => simp
  refine ⟨⟨fun ⟨value, hok⟩ => ⟨_, value, hconvert.mp hok, rfl⟩, ?_⟩, fun value hok => ?_⟩
  · rintro ⟨_, value, hread, -⟩
    exact ⟨value, hconvert.mpr hread⟩
  · exact ⟨value, hconvert.mp hok, congrArg SettingValue.ipaddr (hshown value)⟩

/-- Every text is accepted exactly when it stands for a value, which is then the value of
the setting, as long as it is none that is taken for something else. -/
theorem Stored.sets_denoted_iff (w : Stored) (hdeclared : w.setting.Declared) (hwritable : w.setting.Writable env) :
    w.SetsDenoted fromString env text ↔ w.setting.TakesAsMeant text := by
  obtain ⟨setting, nvs⟩ := w
  cases setting with
  | int s => exact IntSetting.setsDenoted_iff fromString hwritable
  | string s => exact StringSetting.setsDenoted_iff fromString hdeclared hwritable
  | enum s => exact EnumSetting.setsDenoted_iff fromString hwritable
  | ipaddr s => exact iff_of_true (IPaddrSetting.setsDenoted fromString hwritable) trivial

/-- The switch of a playlist. -/
private def shuffle : Setting :=
  .enum { keyName := bytes "a", defaultValue := 0, currentValue := 0, storedValue := -1,
          options := [(bytes "OFF", 0), (bytes "ON", 1)], allow_hold := true }

theorem sets_denoted_iff_shuffle :
    ((shuffle.Declared ∧ shuffle.Writable ⟨.Idle, false⟩) ∧
      (Stored.SetsDenoted (fun _ => none) ⟨.Idle, false⟩ (bytes "on") ⟨shuffle, fun _ => none⟩ ↔
        shuffle.TakesAsMeant (bytes "on"))) :=
  ⟨⟨trivial, rfl⟩, Stored.sets_denoted_iff (fun _ => none) ⟨shuffle, fun _ => none⟩ trivial rfl⟩

/-- `1x` turns the switch on. -/
theorem number_with_tail_is_accepted :
    ¬ ∀ (fromString : Bytes → Option UInt32) (env : WriteEnv) (text : Bytes) (w : Stored),
      w.setting.Declared → w.setting.Writable env → w.SetsDenoted fromString env text := by
  intro h
  have hdenoted := (h (fun _ => none) ⟨.Idle, false⟩ (bytes "1x") ⟨shuffle, fun _ => none⟩ trivial rfl).1
  obtain ⟨_, option, hmem, -, hname | ⟨-, hnumber⟩⟩ := hdenoted.mp (by decide)
  · have hoptions : option = (bytes "OFF", 0) ∨ option = (bytes "ON", 1) := by simpa [shuffle] using hmem
    rw [Named] at hname
    rcases hoptions with rfl | rfl
    · exact absurd hname (by decide)
    · exact absurd hname (by decide)
  · have hone : Integer (bytes "1") 1 := .mk false ⟨by decide, by decide +kernel⟩
    have hstops : Stops (bytes "x") := Decimal.stops_cons (by decide)
    have htext : trim (bytes "1x") = bytes "1" ++ bytes "x" := by decide
    exact absurd (integer_whole hnumber htext hone hstops).2 (by decide)

end Settings

end DuneWeaver
