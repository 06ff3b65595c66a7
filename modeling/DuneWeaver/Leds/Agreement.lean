import DuneWeaver.Configuration.ItemText
import DuneWeaver.Leds.Live
import DuneWeaver.Settings.AcceptedText
import DuneWeaver.Stores

open DuneWeaver.Configuration (atoi)

namespace DuneWeaver.Leds

section Readings

variable {text : Bytes}

open DuneWeaver.Configuration (strto strto_value strtol not_isspace_of_isdigit)

theorem isdigit_of_isspace {c : UInt8} (hspace : isspace c = true) : isdigit c = false := by
  rw [← Bool.not_eq_true]
  intro hdigit
  have hplain := (not_isspace_of_isdigit hdigit).1
  rw [hspace] at hplain
  exact Bool.noConfusion hplain

/-- An integer in front of a text is what `strto` reads, behind white space. -/
theorem strto_integer {lead front rest : Bytes} {n : Int} (hlead : Spacing.Blank isspace lead)
    (hfront : Decimal.Integer front n) (hrest : Decimal.Stops rest) : (strto (lead ++ (front ++ rest))).1 = n := by
  obtain @⟨neg, digits, hdigits⟩ := hfront
  obtain ⟨c, tail, hcons⟩ := List.exists_cons_of_ne_nil hdigits.ne_nil
  obtain ⟨hspace, hminus, hplus⟩ := not_isspace_of_isdigit (hdigits.digits c (hcons ▸ List.mem_cons_self))
  have hnumber : ((digits ++ rest).takeWhile isdigit).foldl (fun (n : Int) c => 10 * n + (c.toNat - 48)) 0 =
      Decimal.number digits := by
    have htake : (digits ++ rest).takeWhile isdigit = digits := Decimal.takeWhile_digits hdigits.digits hrest
    rw [htake, ← Nat.cast_zero, Decimal.number, ← Decimal.foldl_int hdigits.digits 0]
    congr 1
    funext n c
    rw [Int.mul_comm]
  cases neg with
  | false =>
    have hunsigned : Configuration.Parser.unsigned (digits ++ rest) = digits ++ rest := by
      rw [Configuration.Parser.unsigned, hcons]
      exact if_neg (by simp [hminus, hplus])
    have hbody : (lead ++ (digits ++ rest)).dropWhile isspace = digits ++ rest := by
      rw [Spacing.dropWhile_blank hlead, hcons]
      exact List.dropWhile_cons_of_neg (by simp [hspace])
    have hhead : (digits ++ rest).head? ≠ some 0x2d := hdigits.head_ne rest
    change (strto (lead ++ (digits ++ rest))).1 = (Decimal.number digits : Int)
    rw [strto_value hbody, hunsigned, hnumber]
    exact if_neg hhead
  | true =>
    have hbody : (lead ++ (0x2d :: (digits ++ rest))).dropWhile isspace = 0x2d :: (digits ++ rest) := by
      rw [Spacing.dropWhile_blank hlead]
      rfl
    change (strto (lead ++ (0x2d :: (digits ++ rest)))).1 = -(Decimal.number digits : Int)
    rw [strto_value hbody, show Configuration.Parser.unsigned (0x2d :: (digits ++ rest)) = digits ++ rest from rfl,
      hnumber]
    rfl

/-- The number that `from_chars` reads between white space is the one `atoi` reads. -/
theorem atoi_of_from_chars {m : Int32} (h : from_chars (trim text) = some m) : atoi (c_str text) = m := by
  rcases Spacing.blank_or_solid isspace text with hblank | ⟨lead, mid, trail, rfl, hlead, hmid, htrail⟩
  · have htrim : trim text = [] := Spacing.trimmed_blank hblank
    rw [htrim] at h
    cases h
  · have htrim : trim (lead ++ (mid ++ trail)) = mid := Spacing.trimmed_solid hlead hmid htrail
    rw [htrim] at h
    obtain ⟨front, rest, rfl, hfront, hrest⟩ := from_chars_eq_some_iff.mp h
    have hnul : ∀ c ∈ lead ++ front, decide (c ≠ 0) = true := by
      intro c hc
      rw [decide_eq_true_iff]
      rintro rfl
      rcases List.mem_append.mp hc with hc | hc
      · exact Configuration.zero_notMem_blank hlead hc
      · exact zero_notMem_integer hfront hc
    have hsplit : c_str (lead ++ (front ++ rest ++ trail)) = lead ++ (front ++ c_str (rest ++ trail)) := by
      rw [List.append_assoc, ← List.append_assoc, c_str, List.takeWhile_append_of_pos hnul, List.append_assoc]
      rfl
    have hstops : Decimal.Stops (c_str (rest ++ trail)) := by
      intro c hc
      have hfirst : (rest ++ trail).head? = some c := by
        unfold c_str at hc
        cases hbehind : rest ++ trail with
        | nil =>
          rw [hbehind] at hc
          cases hc
        | cons d behind =>
          rw [hbehind, List.takeWhile_cons] at hc
          split_ifs at hc
          · exact hc
          · cases hc
      cases rest with
      | nil => exact isdigit_of_isspace (htrail c (List.mem_of_mem_head? hfirst))
      | cons d rest => exact hrest c hfirst
    rw [hsplit, atoi, strtol, strto_integer hlead hfront hstops]
    change Int32.ofInt (min Int32.maxValue.toInt (max Int32.minValue.toInt m.toInt)) = m
    rw [max_eq_right m.minValue_le_toInt, min_eq_right m.toInt_le, Int32.ofInt_toInt]

/-- What stands in front of a NUL stays when the white space at the ends is taken away. -/
theorem c_str_trim (hsolid : Spacing.Solid isspace (c_str text)) : c_str (trim text) = c_str text := by
  have hsplit : c_str text ++ text.dropWhile (· ≠ 0) = text := List.takeWhile_append_dropWhile
  cases hbehind : text.dropWhile (· ≠ 0) with
  | nil =>
    rw [hbehind, List.append_nil] at hsplit
    rw [hsplit] at hsolid
    rw [show trim text = text from Spacing.trimmed_self hsolid]
  | cons d behind =>
    have hd : d = 0 := by
      have hne : text.dropWhile (fun c => decide (c ≠ 0)) ≠ [] := by
        rw [hbehind]
        exact List.cons_ne_nil d behind
      have hnot := List.head_dropWhile_not (fun c : UInt8 => decide (c ≠ 0)) hne
      have hhead : (text.dropWhile fun c => decide (c ≠ 0)).head hne = d := by
        simp only [hbehind, List.head_cons]
      rw [hhead, decide_eq_false_iff_not, not_not] at hnot
      exact hnot
    rw [hbehind, hd] at hsplit
    have hnul : Spacing.Solid isspace (c_str text ++ [0]) := ⟨by
      obtain ⟨c, rest, hcons, hc⟩ := hsolid.begins
      exact ⟨c, rest ++ [0], by rw [hcons, List.cons_append], hc⟩, ⟨c_str text, 0, rfl, rfl⟩⟩
    obtain ⟨left, hleft⟩ := Spacing.trimmed_begins hnul behind
    rw [List.append_assoc, List.singleton_append, hsplit] at hleft
    rw [show trim text = c_str text ++ [0] ++ left from hleft, List.append_assoc, List.singleton_append,
      c_str_before_nul, c_str_c_str]

theorem isspace_tolower (c : UInt8) : isspace (tolower c) = isspace c := by
  have hall : ∀ n : Fin 256, isspace (tolower (.ofNat n)) = isspace (.ofNat n) := by decide +kernel
  have hc := hall ⟨c.toNat, c.toNat_lt⟩
  rwa [UInt8.ofNat_toNat] at hc

theorem options_plain (k : EnumKey) : ∀ option ∈ k.setting.options,
    option.1 ≠ [] ∧ (∀ c ∈ option.1, isspace c = false ∧ c ≠ 0) := by
  have hall : k.setting.options.all (fun option => option.1 ≠ [] && option.1.all fun c => !isspace c && c != 0) =
      true := by
    cases k
    all_goals decide +kernel
  intro option hmem
  have hplain := List.all_eq_true.mp hall option hmem
  rw [Bool.and_eq_true, decide_eq_true_iff] at hplain
  refine ⟨hplain.1, fun c hc => ?_⟩
  have hchar := List.all_eq_true.mp hplain.2 c hc
  rw [Bool.and_eq_true, Bool.not_eq_true', bne_iff_ne] at hchar
  exact hchar

/-- A text that is the name of an option. -/
theorem solid_of_sameLetters {k : EnumKey} {option : Bytes × Int8} (hmem : option ∈ k.setting.options)
    (hsame : sameLetters option.1 text = true) : Spacing.Solid isspace (c_str text) := by
  obtain ⟨hne, hplain⟩ := options_plain k option hmem
  have hmap : option.1.map tolower = (c_str text).map tolower := by
    rw [← c_str_eq_self fun h => (hplain 0 h).2 rfl]
    exact of_decide_eq_true hsame
  refine Spacing.Solid.of_plain ?_ ?_
  · rintro hnil
    rw [hnil, List.map_nil, List.map_eq_nil_iff] at hmap
    exact hne hmap
  · intro c hc
    have hlower : tolower c ∈ option.1.map tolower := by
      rw [hmap]
      exact List.mem_map_of_mem hc
    obtain ⟨d, hd, hlow⟩ := List.mem_map.mp hlower
    rw [← isspace_tolower c, ← hlow, isspace_tolower d]
    exact (hplain d hd).1

/-- A name is found by the setting where it is found live. -/
theorem find_trim {k : EnumKey} {option : Bytes × Int8}
    (hfind : k.setting.options.find? (fun option => sameLetters option.1 text) = some option) :
    k.setting.options.find? (fun option => sameLetters option.1 (trim text)) = some option := by
  have hnamed : sameLetters option.1 text = true :=
    List.find?_some (p := fun option : Bytes × Int8 => sameLetters option.1 text) hfind
  have hsolid := solid_of_sameLetters (List.mem_of_find?_eq_some hfind) hnamed
  have hsame : (fun option : Bytes × Int8 => sameLetters option.1 (trim text)) =
      fun option => sameLetters option.1 text := by
    funext option
    rw [sameLetters, sameLetters, c_str_trim hsolid]
  rw [hsame, hfind]

end Readings

/-- What a setting of the strip holds. -/
def get (s : Leds) : Key → SettingValue
  | .enum k => .enum (s.enums k).value
  | .color k => .string (s.colors k).currentValue
  | .int k => .int (s.ints k).value

/-- What the setting of a key makes of a text while the machine is idle. -/
def Key.reading (text : Bytes) : Key → Option SettingValue
  | .enum k => (k.setting.convert ⟨.Idle, false⟩ text).toOption.map .enum
  | .color k => (k.setting.convert ⟨.Idle, false⟩ text).toOption.map .string
  | .int k => (k.setting.convert ⟨.Idle, false⟩ text).toOption.map .int

section Written

variable {env : WriteEnv} (key : Key) (text : Bytes) (s : Leds)

theorem convert_enum (hidle : env.idle = true) (k : EnumKey) :
    (s.enums k).convert env text = k.setting.convert ⟨.Idle, false⟩ text := by
  unfold EnumSetting.convert
  rw [check_state_idle hidle, check_state_idle rfl, s.enum_declared k]

theorem convert_color (hidle : env.idle = true) (k : ColorKey) : (s.colors k).convert env text = .ok text := by
  unfold StringSetting.convert
  rw [check_state_idle hidle, s.color_declared k]
  rfl

theorem convert_int (hidle : env.idle = true) (k : IntKey) :
    (s.ints k).convert env text = k.setting.convert ⟨.Idle, false⟩ text := by
  unfold IntSetting.convert
  rw [check_state_idle hidle, check_state_idle rfl, (s.int_declared k).1.1, (s.int_declared k).1.2]

@[simp] theorem setStringValue_live : (s.setStringValue env key text).2.live = s.live := by
  cases key
  all_goals rfl

@[simp] theorem setStringValue_hookEffect : (s.setStringValue env key text).2.hookEffect = s.hookEffect := by
  cases key
  all_goals rfl

@[simp] theorem setStringValue_hook : (s.setStringValue env key text).2.hook = s.hook := by
  cases key
  all_goals rfl

@[simp] theorem setStringValue_quiet_off : (s.setStringValue env key text).2.quiet_off = s.quiet_off := by
  cases key
  all_goals rfl

theorem setStringValue_get_of_ne {other : Key} (hne : other ≠ key) :
    (s.setStringValue env key text).2.get other = s.get other := by
  cases key with
  | enum k =>
    cases other with
    | enum k' =>
      exact congrArg (fun e : EnumSetting => SettingValue.enum e.value)
        (Function.update_of_ne (by simpa using hne) _ _)
    | color k' => rfl
    | int k' => rfl
  | color k =>
    cases other with
    | enum k' => rfl
    | color k' =>
      exact congrArg (fun e : StringSetting => SettingValue.string e.currentValue)
        (Function.update_of_ne (by simpa using hne) _ _)
    | int k' => rfl
  | int k =>
    cases other with
    | enum k' => rfl
    | color k' => rfl
    | int k' =>
      exact congrArg (fun e : IntSetting => SettingValue.int e.value)
        (Function.update_of_ne (by simpa using hne) _ _)

theorem assign_enum (value : Int8) (nvs : Nvs) (e : EnumSetting) : (e.assign value nvs).1.value = value := by
  dsimp only [EnumSetting.assign]
  split_ifs
  all_goals rfl

theorem assign_color (text : Bytes) (nvs : Nvs) (e : StringSetting) : (e.assign text nvs).1.currentValue = text := by
  dsimp only [StringSetting.assign]
  split_ifs
  all_goals rfl

theorem assign_int (value : Int32) (nvs : Nvs) {e : IntSetting} (hlive : e.currentIsNvm = false) :
    (e.assign value nvs).1.value = value := by
  have hcurrent : ¬ e.currentIsNvm = true := by rw [hlive]; exact Bool.false_ne_true
  unfold IntSetting.assign IntSetting.value
  rw [if_pos hcurrent]
  dsimp only
  split_ifs
  all_goals rfl

/-- What is written is what the setting makes of the text, if anything. -/
theorem setStringValue_spec (hidle : env.idle = true) :
    ((s.setStringValue env key text).1 = .Ok ↔ (key.reading text).isSome) ∧
      (s.setStringValue env key text).2.get key = (key.reading text).getD (s.get key) := by
  cases key with
  | enum k =>
    have hfst : (s.setStringValue env (.enum k) text).1 = ((s.enums k).setStringValue env text s.nvs).1 := rfl
    have hget : (s.setStringValue env (.enum k) text).2.get (.enum k) =
        .enum ((s.enums k).setStringValue env text s.nvs).2.1.value :=
      congrArg (fun e : EnumSetting => SettingValue.enum e.value) (Function.update_self _ _ _)
    rw [hfst, hget, EnumSetting.setStringValue, convert_enum text s hidle k, Key.reading]
    cases hread : k.setting.convert ⟨.Idle, false⟩ text with
    | error err =>
      have hne : err ≠ .Ok := fun hok => k.setting.convert_ne_ok (hok ▸ hread)
      exact ⟨iff_of_false hne Bool.false_ne_true, rfl⟩
    | ok value => exact ⟨iff_of_true rfl rfl, congrArg SettingValue.enum (assign_enum value s.nvs (s.enums k))⟩
  | color k =>
    have hfst : (s.setStringValue env (.color k) text).1 = ((s.colors k).setStringValue env text s.nvs).1 := rfl
    have hget : (s.setStringValue env (.color k) text).2.get (.color k) =
        .string ((s.colors k).setStringValue env text s.nvs).2.1.currentValue :=
      congrArg (fun e : StringSetting => SettingValue.string e.currentValue) (Function.update_self _ _ _)
    have hread : k.setting.convert ⟨.Idle, false⟩ text = .ok text := by
      cases k
      all_goals rfl
    rw [hfst, hget, StringSetting.setStringValue, convert_color text s hidle k, Key.reading, hread]
    exact ⟨iff_of_true rfl rfl, congrArg SettingValue.string (assign_color text s.nvs (s.colors k))⟩
  | int k =>
    have hfst : (s.setStringValue env (.int k) text).1 = ((s.ints k).setStringValue env text s.nvs).1 := rfl
    have hget : (s.setStringValue env (.int k) text).2.get (.int k) =
        .int ((s.ints k).setStringValue env text s.nvs).2.1.value :=
      congrArg (fun e : IntSetting => SettingValue.int e.value) (Function.update_self _ _ _)
    rw [hfst, hget, IntSetting.setStringValue, convert_int text s hidle k, Key.reading]
    cases hread : k.setting.convert ⟨.Idle, false⟩ text with
    | error err =>
      have hne : err ≠ .Ok := fun hok => k.setting.convert_ne_ok (hok ▸ hread)
      exact ⟨iff_of_false hne Bool.false_ne_true, rfl⟩
    | ok value =>
      exact ⟨iff_of_true rfl rfl, congrArg SettingValue.int (assign_int value s.nvs (s.int_declared k).2)⟩

end Written

section Flush

variable {env : WriteEnv} (hidle : env.idle = true) (s : Leds)

/-- What handing back an override leaves in a setting. -/
def Key.handedBack (live : Bytes) (value : SettingValue) (key : Key) : SettingValue :=
  if live = [] then value else (key.reading live).getD value

variable (env) in
theorem flushKey_hookEffect (key : Key) : (flushKey env s key).hookEffect = s.hookEffect ∧
    (flushKey env s key).quiet_off = s.quiet_off := by
  unfold flushKey
  split_ifs
  · exact ⟨rfl, rfl⟩
  · exact ⟨setStringValue_hookEffect key (s.live key) s, setStringValue_quiet_off key (s.live key) s⟩
  · exact ⟨setStringValue_hookEffect key (s.live key) s, setStringValue_quiet_off key (s.live key) s⟩

variable (env) in
theorem flushKey_of_ne {key other : Key} (hne : other ≠ key) :
    (flushKey env s key).get other = s.get other ∧ (flushKey env s key).live other = s.live other := by
  unfold flushKey
  split_ifs
  · exact ⟨rfl, rfl⟩
  · refine ⟨setStringValue_get_of_ne key (s.live key) s hne, ?_⟩
    exact (Function.update_of_ne hne _ _).trans (congrFun (setStringValue_live key (s.live key) s) other)
  · refine ⟨setStringValue_get_of_ne key (s.live key) s hne, ?_⟩
    exact (Function.update_of_ne hne _ _).trans (congrFun (setStringValue_live key (s.live key) s) other)

include hidle in
theorem flushKey_self (key : Key) :
    (flushKey env s key).get key = key.handedBack (s.live key) (s.get key) ∧ (flushKey env s key).live key = [] := by
  unfold flushKey Key.handedBack
  split_ifs with hnone
  · exact ⟨rfl, hnone⟩
  · exact ⟨(setStringValue_spec key (s.live key) s hidle).2, Function.update_self _ _ _⟩
  · exact ⟨(setStringValue_spec key (s.live key) s hidle).2, Function.update_self _ _ _⟩

include hidle in
/-- Going through the keys hands back the override of each, and each of them once. -/
theorem foldl_flushKey {order : List Key} (hnodup : order.Nodup) (key : Key) :
    (order.foldl (flushKey env) s).get key =
        (if key ∈ order then key.handedBack (s.live key) (s.get key) else s.get key) ∧
      (order.foldl (flushKey env) s).live key = (if key ∈ order then [] else s.live key) := by
  induction order generalizing s with
  | nil => exact ⟨rfl, rfl⟩
  | cons first order ih =>
    obtain ⟨hfirst, hrest⟩ := List.nodup_cons.mp hnodup
    obtain ⟨hget, hlive⟩ := ih (flushKey env s first) hrest
    rw [List.foldl_cons, hget, hlive]
    by_cases hsame : key = first
    · subst hsame
      rw [if_neg hfirst, if_neg hfirst, if_pos List.mem_cons_self, if_pos List.mem_cons_self]
      exact flushKey_self hidle s key
    · obtain ⟨hgets, hlives⟩ := flushKey_of_ne env s hsame
      rw [hgets, hlives]
      simp only [List.mem_cons, hsame, false_or]
      exact ⟨trivial, trivial⟩

theorem mem_keys (key : Key) : key ∈ keys.map Prod.snd := by
  rcases key with k | k | k
  all_goals
    cases k
    all_goals decide

include hidle in
theorem flushLive_spec (key : Key) :
    (s.flushLive env).get key = key.handedBack (s.live key) (s.get key) ∧ (s.flushLive env).live key = [] := by
  have hnodup : (keys.map Prod.snd).Nodup := by decide
  obtain ⟨hget, hlive⟩ := foldl_flushKey hidle s hnodup key
  rw [if_pos (mem_keys key)] at hget hlive
  exact ⟨hget, hlive⟩

variable (env) in
theorem flushLive_hook : (s.flushLive env).hookEffect = s.hookEffect ∧ (s.flushLive env).quiet_off = s.quiet_off := by
  unfold flushLive
  generalize keys.map Prod.snd = order
  induction order generalizing s with
  | nil => exact ⟨rfl, rfl⟩
  | cons key order ih =>
    obtain ⟨hhook, hquiet⟩ := ih (flushKey env s key)
    obtain ⟨hhook', hquiet'⟩ := flushKey_hookEffect env s key
    exact ⟨hhook.trans hhook', hquiet.trans hquiet'⟩

end Flush

section Rendered

variable {s : Leds}

theorem rendered_enum {k : EnumKey} (hk : k ≠ .effect) : s.rendered (.enum k) = .number (s.enumParameter k k.dflt) := by
  cases k with
  | effect => exact absurd rfl hk
  | _ => rfl

theorem rendered_enum_setting {k : EnumKey} {v : Int8} (hlive : s.live (.enum k) = [])
    (hget : s.get (.enum k) = .enum v) (hhook : k = .effect → s.hookEffect = -1) :
    s.rendered (.enum k) = .number (if k = .effect ∧ s.quiet_off = true then 0 else v.toInt32) := by
  have hvalue : (s.enums k).value = v := SettingValue.enum.inj hget
  by_cases hk : k = .effect
  · subst hk
    rw [show s.rendered (.enum .effect) = .number s.effectiveEffect from rfl, effectiveEffect, hhook rfl, hlive, hvalue]
    simp
  · rw [rendered_enum hk, enumParameter, if_pos hlive, hvalue, if_neg fun h => hk h.1]

theorem rendered_enum_live {k : EnumKey} {option : Bytes × Int8}
    (hfind : k.setting.options.find? (fun option => sameLetters option.1 (s.live (.enum k))) = some option) :
    s.rendered (.enum k) = .number (if k = .effect ∧ s.quiet_off = true then 0 else option.2.toInt32) := by
  have hnamed : sameLetters option.1 (s.live (.enum k)) = true :=
    List.find?_some (p := fun option : Bytes × Int8 => sameLetters option.1 (s.live (.enum k))) hfind
  have hne : s.live (.enum k) ≠ [] := by
    intro hnil
    have hsolid := solid_of_sameLetters (List.mem_of_find?_eq_some hfind) hnamed
    rw [hnil] at hsolid
    exact hsolid.ne_nil rfl
  have hid (dflt : Int32) : enumId k.setting.options (s.live (.enum k)) dflt = option.2.toInt32 := by
    rw [enumId, hfind]
  by_cases hk : k = .effect
  · subst hk
    have hid' := hid (s.enums .effect).value.toInt32
    rw [show EnumKey.effect.setting.options = ledEffects from rfl] at hid'
    rw [show s.rendered (.enum .effect) = .number s.effectiveEffect from rfl, effectiveEffect, if_pos hne, hid']
    simp
  · rw [rendered_enum hk, enumParameter, if_neg hne, hid, if_neg fun h => hk h.1]

theorem rendered_color (k : ColorKey) : s.rendered (.color k) = s.liveColor k := by
  cases k
  all_goals rfl

theorem rendered_color_setting {k : ColorKey} {text : Bytes} (hlive : s.live (.color k) = [])
    (hget : s.get (.color k) = .string text) : s.rendered (.color k) =
      colorOf (if (c_str text).head? = some 35 then (c_str text).tail else c_str text) := by
  have hvalue : (s.colors k).currentValue = text := SettingValue.string.inj hget
  rw [rendered_color, liveColor, if_pos hlive, getColor, StringSetting.value, hvalue]

theorem rendered_int (k : IntKey) : s.rendered (.int k) = .number (k.width (s.intParameter k)) := by
  cases k
  all_goals rfl

theorem rendered_int_setting {k : IntKey} {n : Int32} (hlive : s.live (.int k) = [])
    (hget : s.get (.int k) = .int n) : s.rendered (.int k) = .number (k.width n) := by
  have hvalue : (s.ints k).value = n := SettingValue.int.inj hget
  rw [rendered_int, intParameter, if_pos hlive, hvalue]

end Rendered

section Agreement

variable {env : WriteEnv} {s : Leds} {key value : Bytes} {k : Key}

theorem setLive_running (hkey : Key.ofText key = some k) (hrunning : env.idle = false) :
    s.setLive env key value =
      if checkLive k value = .Ok then (.Ok, s.override k value) else (checkLive k value, s) := by
  unfold setLive
  rw [hkey]
  dsimp only
  rw [hrunning]
  split
  · next hok => rw [if_pos hok, if_neg Bool.false_ne_true]
  · next hnot => rw [if_neg hnot]

theorem setLive_idle (hkey : Key.ofText key = some k) (hidle : env.idle = true) :
    s.setLive env key value =
      if checkLive k value = .Ok then
        ((s.setStringValue env k value).1,
          if (s.setStringValue env k value).1 = .Ok then (s.setStringValue env k value).2.chosen k
          else (s.setStringValue env k value).2)
      else (checkLive k value, s) := by
  unfold setLive
  rw [hkey]
  dsimp only
  rw [hidle]
  split
  · next hok => rw [if_pos hok, if_pos rfl]
  · next hnot => rw [if_neg hnot]

theorem chosen_same (k : Key) (s : Leds) : (s.chosen k).get = s.get ∧ (s.chosen k).live = s.live ∧
    (s.chosen k).quiet_off = s.quiet_off ∧ (k = .enum .effect → (s.chosen k).hookEffect = -1) := by
  unfold chosen
  split_ifs with heffect
  · exact ⟨rfl, rfl, rfl, fun _ => LedHook.effect_manualChoice _ _ s.hook⟩
  · exact ⟨rfl, rfl, rfl, fun h => absurd h heffect⟩

theorem liveAgrees_iff (hkey : Key.ofText key = some k) :
    LiveAgrees key value s ↔ ∀ idle : WriteEnv, idle.idle = true → checkLive k value = .Ok →
      ((k.reading value).isSome →
        (s.override k value).rendered k = ((s.setStringValue idle k value).2.chosen k).fromSetting k) ∧
      ((s.override k value).flushLive idle).rendered k = (s.override k value).rendered k := by
  constructor
  · intro h idle hidle hcheck
    have hrunning : WriteEnv.idle ⟨.Cycle, true⟩ = false := rfl
    obtain ⟨hsame, hflush⟩ :=
      h ⟨.Cycle, true⟩ idle hrunning hidle k hkey (by rw [setLive_running hkey hrunning, if_pos hcheck])
    rw [setLive_running hkey hrunning, if_pos hcheck] at hsame hflush
    rw [setLive_idle hkey hidle, if_pos hcheck] at hsame
    refine ⟨fun hread => ?_, hflush⟩
    have hok := (setStringValue_spec k value s hidle).1.mpr hread
    have hsame' := hsame hok
    rwa [if_pos hok] at hsame'
  · intro h running idle hrunning hidle k' hkey' haccepted
    obtain rfl : k = k' := Option.some.inj (hkey.symm.trans hkey')
    rw [setLive_running hkey hrunning] at haccepted ⊢
    rw [setLive_idle hkey hidle]
    split_ifs at haccepted ⊢ with hcheck hok
    · obtain ⟨hsame, hflush⟩ := h idle hidle hcheck
      exact ⟨fun _ => hsame ((setStringValue_spec k value s hidle).1.mp hok), hflush⟩
    · exact ⟨fun h => absurd h hok, (h idle hidle hcheck).2⟩
    · exact absurd haccepted hcheck

/-- The state in which the machine is when the text stands in front of the setting. -/
theorem override_state (k : Key) (value : Bytes) (s : Leds) :
    (s.override k value).get k = s.get k ∧ (s.override k value).live k = value ∧
      (s.override k value).quiet_off = s.quiet_off ∧ (k = .enum .effect → (s.override k value).hookEffect = -1) := by
  obtain ⟨hget, -, hquiet, hhook⟩ := chosen_same k s
  exact ⟨congrFun hget k, Function.update_self _ _ _, hquiet, hhook⟩

/-- The state in which the setting is shown that the text has been written to. -/
theorem written_state (hidle : env.idle = true) {v : SettingValue} (hread : k.reading value = some v) :
    let shown := (s.setStringValue env k value).2.chosen k
    let bare := { shown with live := Function.update shown.live k [] }
    bare.get k = v ∧ bare.live k = [] ∧ bare.quiet_off = s.quiet_off ∧ (k = .enum .effect → bare.hookEffect = -1) := by
  obtain ⟨hget, -, hquiet, hhook⟩ := chosen_same k (s.setStringValue env k value).2
  have hvalue := (setStringValue_spec k value s hidle).2
  rw [hread, Option.getD_some] at hvalue
  exact ⟨(congrFun hget k).trans hvalue, Function.update_self _ _ _,
    hquiet.trans (setStringValue_quiet_off k value s), hhook⟩

/-- The state when the text has been handed back. -/
theorem flushed_state (hidle : env.idle = true) (k : Key) (value : Bytes) (s : Leds) :
    let flushed := (s.override k value).flushLive env
    flushed.get k = k.handedBack value (s.get k) ∧ flushed.live k = [] ∧ flushed.quiet_off = s.quiet_off ∧
      (k = .enum .effect → flushed.hookEffect = -1) := by
  obtain ⟨hget, hlive, hquiet, hhook⟩ := override_state k value s
  obtain ⟨hflushed, hnone⟩ := flushLive_spec hidle (s.override k value) k
  obtain ⟨hhook', hquiet'⟩ := flushLive_hook env (s.override k value)
  rw [hget, hlive] at hflushed
  exact ⟨hflushed, hnone, hquiet'.trans hquiet, fun heffect => hhook'.trans (hhook heffect)⟩

/-- A name is rendered alike, whatever it is. -/
theorem enum_agrees {k : EnumKey} (hidle : env.idle = true) (hcheck : checkLive (.enum k) value = .Ok) :
    ((Key.reading value (.enum k)).isSome → (s.override (.enum k) value).rendered (.enum k) =
      ((s.setStringValue env (.enum k) value).2.chosen (.enum k)).fromSetting (.enum k)) ∧
    ((s.override (.enum k) value).flushLive env).rendered (.enum k) = (s.override (.enum k) value).rendered
    (.enum k) := by
  cases hfind : k.setting.options.find? (fun option => sameLetters option.1 value) with
  | none =>
    rw [checkLive, enumId, hfind, if_pos (by decide)] at hcheck
    cases hcheck
  | some option =>
    have hread : Key.reading value (.enum k) = some (.enum option.2) := by
      rw [Key.reading, EnumSetting.convert, check_state_idle rfl]
      dsimp only
      rw [find_trim hfind]
      rfl
    obtain ⟨-, hlive, hquiet, -⟩ := override_state (.enum k) value s
    obtain ⟨hwritten, hbare, hquiet', hhook'⟩ := written_state (s := s) hidle hread
    obtain ⟨hflushed, hnone, hquiet'', hhook''⟩ := flushed_state hidle (.enum k) value s
    have hne : value ≠ [] := by
      intro hnil
      have hsolid := solid_of_sameLetters (List.mem_of_find?_eq_some hfind)
        (List.find?_some (p := fun option : Bytes × Int8 => sameLetters option.1 value) hfind)
      rw [hnil] at hsolid
      exact hsolid.ne_nil rfl
    rw [Key.handedBack, if_neg hne, hread, Option.getD_some] at hflushed
    have hshown : (s.override (.enum k) value).rendered (.enum k) =
        .number (if k = .effect ∧ s.quiet_off = true then 0 else option.2.toInt32) := by
      rw [← hquiet]
      exact rendered_enum_live (by rw [hlive]; exact hfind)
    refine ⟨fun _ => ?_, ?_⟩
    · rw [hshown, fromSetting, rendered_enum_setting hbare hwritten (fun hk => hhook' (congrArg Key.enum hk)), hquiet']
    · rw [hshown, rendered_enum_setting hnone hflushed (fun hk => hhook'' (congrArg Key.enum hk)), hquiet'']

/-- Live, the `#` is no digit. -/
theorem colorOf_hash (rest : Bytes) : colorOf (35 :: rest) = .rgb 0 0 0 := by
  have hbody : (35 :: rest).dropWhile isspace = 35 :: rest := rfl
  have hread : strtolHex (35 :: rest) = (0, 35 :: rest) := by
    unfold strtolHex
    rw [hbody]
    simp [hexDigit]
  have hzero : strtoulHex (35 :: rest) = 0 := by
    rw [strtoulHex, hread]
    exact if_pos (show (0 : Int).natAbs < 4294967296 by decide)
  rw [colorOf, hzero]
  rfl

/-- A color is rendered alike but for the `#`, and for the empty text. -/
theorem color_agrees_iff {k : ColorKey} (hidle : env.idle = true) :
    (((Key.reading value (.color k)).isSome → (s.override (.color k) value).rendered (.color k) =
      ((s.setStringValue env (.color k) value).2.chosen (.color k)).fromSetting (.color k)) ∧
    ((s.override (.color k) value).flushLive env).rendered (.color k) =
      (s.override (.color k) value).rendered (.color k)) ↔
    (value = [] → getColor (s.colors k) = .rgb 0 0 0) ∧
      (value.head? = some 35 → colorOf (c_str value.tail) = .rgb 0 0 0) := by
  have hread : Key.reading value (.color k) = some (.string value) := by
    cases k
    all_goals rfl
  obtain ⟨hget, hlive, -, -⟩ := override_state (.color k) value s
  obtain ⟨hwritten, hbare, -, -⟩ := written_state (s := s) hidle hread
  obtain ⟨hflushed, hnone, -, -⟩ := flushed_state hidle (.color k) value s
  have hsetting := rendered_color_setting hbare hwritten
  rw [← fromSetting] at hsetting
  rw [hread, hsetting]
  by_cases hnil : value = []
  · subst hnil
    have hshown : (s.override (.color k) []).rendered (.color k) = getColor (s.colors k) :=
      rendered_color_setting hlive hget
    rw [Key.handedBack, if_pos rfl] at hflushed
    have hback : ((s.override (.color k) []).flushLive env).rendered (.color k) = getColor (s.colors k) :=
      rendered_color_setting hnone hflushed
    rw [hshown, hback]
    exact ⟨fun h => ⟨fun _ => h.1 rfl, fun hhash => by cases hhash⟩, fun h => ⟨fun _ => h.1 rfl, rfl⟩⟩
  · rw [Key.handedBack, if_neg hnil, hread, Option.getD_some] at hflushed
    have hshown : (s.override (.color k) value).rendered (.color k) = colorOf (c_str value) := by
      rw [rendered_color, liveColor, hlive, if_neg hnil]
    rw [hshown, rendered_color_setting hnone hflushed]
    obtain ⟨c, rest, rfl⟩ := List.exists_cons_of_ne_nil hnil
    by_cases hhash : c = 35
    · subst hhash
      have htext : c_str (35 :: rest) = 35 :: c_str rest := rfl
      rw [htext, colorOf_hash, List.head?_cons, if_pos rfl]
      exact ⟨fun h => ⟨fun hempty => absurd hempty hnil, fun _ => (h.1 rfl).symm⟩,
        fun h => ⟨fun _ => (h.2 rfl).symm, h.2 rfl⟩⟩
    · have hhead : (c_str (c :: rest)).head? ≠ some 35 := by
        rw [c_str, List.takeWhile_cons]
        split_ifs
        · simpa using hhash
        · simp
      rw [if_neg hhead]
      exact iff_of_true ⟨fun _ => rfl, rfl⟩
        ⟨fun hempty => absurd hempty hnil, fun h => absurd (Option.some.inj h) hhash⟩

/-- A number is rendered alike where both read it. -/
theorem int_agrees_iff {k : IntKey} (hidle : env.idle = true) :
    (checkLive (.int k) value = .Ok → ((Key.reading value (.int k)).isSome →
    (s.override (.int k) value).rendered (.int k) =
      ((s.setStringValue env (.int k) value).2.chosen (.int k)).fromSetting (.int k)) ∧
    ((s.override (.int k) value).flushLive env).rendered (.int k) =
      (s.override (.int k) value).rendered (.int k)) ↔
    value = [] ∨ (atoi (c_str value) < k.setting.minValue ∨ atoi (c_str value) > k.setting.maxValue) ∨
      (from_chars (trim value)).isSome ∨ k.width (s.ints k).value = k.width (atoi (c_str value)) := by
  constructor
  · intro h
    by_cases hrange : atoi (c_str value) < k.setting.minValue ∨ atoi (c_str value) > k.setting.maxValue
    · exact .inr (.inl hrange)
    by_cases hnil : value = []
    · exact .inl hnil
    refine .inr (.inr ?_)
    cases hnumber : from_chars (trim value) with
    | some m => exact .inl rfl
    | none =>
      obtain ⟨-, hflush⟩ := h (by rw [checkLive]; exact if_neg hrange)
      obtain ⟨-, hlive, -, -⟩ := override_state (.int k) value s
      obtain ⟨hflushed, hnone, -, -⟩ := flushed_state hidle (.int k) value s
      have hread : Key.reading value (.int k) = none := by
        rw [Key.reading, IntSetting.convert, check_state_idle rfl, hnumber]
        rfl
      rw [Key.handedBack, if_neg hnil, hread, Option.getD_none] at hflushed
      rw [rendered_int_setting hnone hflushed, rendered_int, intParameter, hlive, if_neg hnil] at hflush
      exact .inr (Parameter.number.inj hflush)
  · intro h hcheck
    have hrange : ¬ (atoi (c_str value) < k.setting.minValue ∨ atoi (c_str value) > k.setting.maxValue) := by
      intro hout
      rw [checkLive, if_pos hout] at hcheck
      cases hcheck
    obtain ⟨hget, hlive, -, -⟩ := override_state (.int k) value s
    obtain ⟨hflushed, hnone, -, -⟩ := flushed_state hidle (.int k) value s
    cases hnumber : from_chars (trim value) with
    | none =>
      have hread : Key.reading value (.int k) = none := by
        rw [Key.reading, IntSetting.convert, check_state_idle rfl, hnumber]
        rfl
      rw [hread]
      refine ⟨(fun h => by cases h), ?_⟩
      by_cases hnil : value = []
      · rw [hnil, Key.handedBack, if_pos rfl] at hflushed
        rw [hnil] at hnone hlive hget ⊢
        rw [rendered_int_setting hnone hflushed, rendered_int_setting hlive hget]
      · rw [Key.handedBack, if_neg hnil, hread, Option.getD_none] at hflushed
        rw [rendered_int_setting hnone hflushed, rendered_int, intParameter, hlive, if_neg hnil]
        rcases h with h | h | h | h
        · exact absurd h hnil
        · exact absurd h hrange
        · rw [hnumber] at h
          cases h
        · exact congrArg Parameter.number h
    | some m =>
      have hatoi : atoi (c_str value) = m := atoi_of_from_chars hnumber
      rw [hatoi] at hrange
      have hread : Key.reading value (.int k) = some (.int m) := by
        rw [Key.reading, IntSetting.convert, check_state_idle rfl, hnumber]
        dsimp only
        rw [if_neg hrange]
        rfl
      have hnil : value ≠ [] := by
        rintro rfl
        cases hnumber
      obtain ⟨hwritten, hbare, -, -⟩ := written_state (s := s) hidle hread
      rw [Key.handedBack, if_neg hnil, hread, Option.getD_some] at hflushed
      have hshown : (s.override (.int k) value).rendered (.int k) = .number (k.width m) := by
        rw [rendered_int, intParameter, hlive, if_neg hnil, hatoi]
      exact ⟨fun _ => hshown.trans (rendered_int_setting hbare hwritten).symm,
        (rendered_int_setting hnone hflushed).trans hshown.symm⟩

end Agreement

/-- Live and setting agree exactly on the texts that both read alike. -/
theorem live_agrees_iff (key value : Bytes) (s : Leds) : LiveAgrees key value s ↔ ReadAlike key value s := by
  have henv : WriteEnv.idle ⟨.Idle, false⟩ = true := rfl
  unfold ReadAlike
  cases hkey : Key.ofText key with
  | none => exact iff_of_true (fun _ _ _ _ k hk => by rw [hkey] at hk; cases hk) trivial
  | some k =>
    rw [liveAgrees_iff hkey]
    cases k with
    | enum k => exact iff_of_true (fun _ hidle hcheck => enum_agrees hidle hcheck) trivial
    | color k =>
      exact ⟨fun h => (color_agrees_iff henv).mp (h _ henv rfl), fun h _ hidle _ =>
        (color_agrees_iff hidle).mpr h⟩
    | int k => exact ⟨fun h => (int_agrees_iff henv).mp (h _ henv), fun h _ hidle => (int_agrees_iff hidle).mpr h⟩

end DuneWeaver.Leds
