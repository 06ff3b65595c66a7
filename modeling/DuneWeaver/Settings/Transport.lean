import DuneWeaver.Settings.Setting

namespace DuneWeaver

/-- One character as `uriEncodeGrblCharacters` writes it: the realtime characters and the
escape itself are escaped. -/
def uriEncodeChar (c : UInt8) : Bytes :=
  if c = 37 then bytes "%25"
  else if c = 33 then bytes "%21"
  else if c = 63 then bytes "%3F"
  else if c = 126 then bytes "%7E"
  else [c]

def uriEncodeGrblCharacters (clear : Bytes) : Bytes := (c_str clear).flatMap uriEncodeChar

def hexDigit (c : UInt8) : Option Nat :=
  if 48 ≤ c ∧ c ≤ 57 then some (c.toNat - 48)
  else if 65 ≤ c ∧ c ≤ 70 then some (c.toNat - 55)
  else if 97 ≤ c ∧ c ≤ 102 then some (c.toNat - 87)
  else none

/-- `strtol` with base 16 on a text too short to overflow: white space, a sign and a `0x`
before the digits are let through. What is not read is returned. -/
def strtolHex (s : Bytes) : Int × Bytes :=
  let body := s.dropWhile isspace
  let unsigned := if body.head? = some 45 ∨ body.head? = some 43 then body.tail else body
  let marked := unsigned.head? = some 48 ∧ unsigned.tail.head? ∈ [some 120, some 88] ∧
    (unsigned.tail.tail.head?.bind hexDigit).isSome
  let text := if marked then unsigned.tail.tail else unsigned
  let magnitude : Int :=
    (text.takeWhile fun c => (hexDigit c).isSome).foldl (fun n c => 16 * n + (hexDigit c).getD 0) 0
  if (text.head?.bind hexDigit).isNone then (0, s)
  else (if body.head? = some 45 then -magnitude else magnitude, text.dropWhile fun c => (hexDigit c).isSome)

/-- The byte of an escape, where both characters after the `%` are read as a number. -/
@[irreducible] def unescape (first second : UInt8) : Option UInt8 :=
  if (strtolHex [first, second]).2 = [] then some (UInt8.ofInt (strtolHex [first, second]).1) else none

/-- The loop of `uriDecode`, with room for so many characters. A bad escape or a value too
long ends it. -/
@[grind =] def uriDecode.loop : Nat → Bytes → Bytes
  | _, [] => []
  | room, c :: s =>
    if c = 37 then
      match s with
      | first :: second :: s =>
        match unescape first second with
        | none => []
        | some c => if room = 0 then [] else c :: loop (room - 1) s
      | _ => []
    else if room = 0 then []
    else c :: loop (room - 1) s

def uriDecode.dlen : Nat := 100

def uriDecode (s : Bytes) : Bytes := uriDecode.loop uriDecode.dlen (c_str s)

example : uriDecode (bytes "a%2Fb% Fc%+7") = [97, 47, 98, 15, 99, 7] := by decide +kernel

example : uriDecode (bytes "ok%0x") = bytes "ok" := by decide +kernel

/-- An escape of `uriEncodeGrblCharacters` is read back as its character, where there is
room for it. -/
theorem uriDecode.loop_escape {room : Nat} {c first second : UInt8} (s : Bytes)
    (hescape : unescape first second = some c) :
    uriDecode.loop (room + 1) (37 :: first :: second :: s) = c :: uriDecode.loop room s := by
  simp [uriDecode.loop, hescape]

theorem uriDecode.loop_plain {room : Nat} {c : UInt8} (s : Bytes) (hc : c ≠ 37) :
    uriDecode.loop room (c :: s) = if room = 0 then [] else c :: uriDecode.loop (room - 1) s := by
  rw [uriDecode.loop.eq_def]
  simp only [if_neg hc]

/-- The decoder reads back an encoded character, whichever of the two forms it has. -/
theorem uriDecode.loop_encodeChar (room : Nat) (c : UInt8) (s : Bytes) :
    uriDecode.loop (room + 1) (uriEncodeChar c ++ s) = c :: uriDecode.loop room s := by
  unfold uriEncodeChar
  split
  case isTrue hpercent =>
    rw [hpercent]
    exact uriDecode.loop_escape s (by decide +kernel)
  split
  case isTrue hhold =>
    rw [hhold]
    exact uriDecode.loop_escape s (by decide +kernel)
  split
  case isTrue hreport =>
    rw [hreport]
    exact uriDecode.loop_escape s (by decide +kernel)
  split
  case isTrue hstart =>
    rw [hstart]
    exact uriDecode.loop_escape s (by decide +kernel)
  case isFalse hpercent _ _ _ => exact uriDecode.loop_plain s hpercent

/-- Without room the encoding of a character ends the loop. -/
theorem uriDecode.loop_full (c : UInt8) (s : Bytes) : uriDecode.loop 0 (uriEncodeChar c ++ s) = [] := by
  have hescape : ∀ first second, uriDecode.loop 0 (37 :: first :: second :: s) = [] := by
    intro first second
    cases hescape : unescape first second with
    | none => simp [uriDecode.loop, hescape]
    | some c => simp [uriDecode.loop, hescape]
  unfold uriEncodeChar
  split
  case isTrue => exact hescape _ _
  split
  case isTrue => exact hescape _ _
  split
  case isTrue => exact hescape _ _
  split
  case isTrue => exact hescape _ _
  case isFalse hpercent _ _ _ => exact uriDecode.loop_plain s hpercent

/-- The decoder gives back as much of an encoded text as it has room for. -/
theorem uriDecode.loop_encoded (room : Nat) (text : Bytes) :
    uriDecode.loop room (text.flatMap uriEncodeChar) = text.take room := by
  induction text generalizing room with
  | nil => simp [uriDecode.loop]
  | cons c text ih =>
    rw [List.flatMap_cons]
    cases room with
    | zero => rw [uriDecode.loop_full, List.take_zero]
    | succ room => rw [uriDecode.loop_encodeChar, ih, List.take_succ_cons]

theorem zero_notMem_uriEncodeChar {c : UInt8} (hc : c ≠ 0) : 0 ∉ uriEncodeChar c := by
  unfold uriEncodeChar
  split
  case isTrue => decide
  split
  case isTrue => decide
  split
  case isTrue => decide
  split
  case isTrue => decide
  case isFalse => simpa using hc.symm

theorem zero_notMem_uriEncode (clear : Bytes) : 0 ∉ uriEncodeGrblCharacters clear := by
  intro hmem
  obtain ⟨c, hc, hnul⟩ := List.mem_flatMap.mp hmem
  have hne : c ≠ 0 := fun heq => zero_notMem_c_str clear (heq ▸ hc)
  exact zero_notMem_uriEncodeChar hne hnul

/-- What comes back of a value is its first hundred characters. -/
theorem uriDecode_uriEncode (v : Bytes) : uriDecode (uriEncodeGrblCharacters v) = (c_str v).take 100 := by
  rw [uriDecode, c_str_eq_self (zero_notMem_uriEncode v)]
  exact uriDecode.loop_encoded 100 (c_str v)

/-- The line `show_setting` writes for a setting. -/
def show_setting (name value : Bytes) : Bytes :=
  bytes "$" ++ name ++ bytes "=" ++ uriEncodeGrblCharacters value

/-- The value `settings_execute_line` finds in a line of this form. -/
def lineValue (line : Bytes) : Option Bytes :=
  if 61 ∈ line then some (line.dropWhile (· ≠ 61)).tail else none

theorem lineValue_show_setting {name : Bytes} (hname : 61 ∉ name) (value : Bytes) :
    lineValue (show_setting name value) = some (uriEncodeGrblCharacters value) := by
  have hkey : ∀ c ∈ bytes "$" ++ name, c ≠ 61 := by
    intro c hc heq
    obtain hdollar | hin := List.mem_append.mp hc
    · have : c = 36 := by simpa [bytes] using hdollar
      exact absurd (this.symm.trans heq) (by decide)
    · exact hname (heq ▸ hin)
  have hsplit : show_setting name value = (bytes "$" ++ name) ++ 61 :: uriEncodeGrblCharacters value := by
    simp [show_setting, bytes]
  rw [lineValue, hsplit, if_pos (by simp), List.dropWhile_append_of_pos (by simpa using hkey)]
  simp

/-- An executed line sets the setting that it names. -/
def StringSetting.replay (env : WriteEnv) (line : Bytes) (nvs : Nvs) (s : StringSetting) :
    Error × StringSetting × Nvs :=
  match lineValue line with
  | some value => s.setStringValue env (uriDecode value) nvs
  | none => (.Ok, s, nvs)

/-- A value comes back from its encoded form precisely when it has at most a hundred
characters and no NUL; the line written for a setting with such a value, executed, then
gives any setting that accepts the value this value. -/
theorem value_transport_iff (v : Bytes) :
    (uriDecode (uriEncodeGrblCharacters v) = v ↔ 0 ∉ v ∧ v.length ≤ 100) ∧
      (0 ∉ v ∧ v.length ≤ 100 → ∀ (name : Bytes) (env : WriteEnv) (nvs : Nvs) (s : StringSetting),
        61 ∉ name → s.convert env v = .ok v →
          (s.replay env (show_setting name v) nvs).1 = .Ok ∧
            (s.replay env (show_setting name v) nvs).2.1.value = v) := by
  have hback : uriDecode (uriEncodeGrblCharacters v) = v ↔ 0 ∉ v ∧ v.length ≤ 100 := by
    rw [uriDecode_uriEncode]
    exact (strlcpy_eq_self_iff (by decide : 0 < 101) v).trans (and_congr_right' Nat.lt_succ_iff)
  refine ⟨hback, fun hv name env nvs s hname haccepts => ?_⟩
  have hline : s.replay env (show_setting name v) nvs = (.Ok, s.assign v nvs) := by
    rw [StringSetting.replay, lineValue_show_setting hname]
    dsimp only
    rw [hback.mpr hv, StringSetting.setStringValue, haccepts]
  rw [hline]
  refine ⟨rfl, ?_⟩
  have hcurrent : (s.assign v nvs).1.currentValue = v := by
    unfold StringSetting.assign
    dsimp only
    split
    · split
      · rfl
      · rfl
    · rfl
  rw [StringSetting.value, hcurrent, c_str_eq_self hv.1]

/-- `Playlist/ClearIn` takes values of up to 128 characters. -/
def clearInSetting : StringSetting where
  keyName := bytes "Playlist/ClearIn"
  defaultValue := []
  currentValue := []
  storedValue := []
  minLength := 0
  maxLength := 128
  allow_hold := true

/-- A file name of 101 characters is accepted, and loses its last character on the way
through a backup. -/
theorem long_value_is_cut :
    let v := List.replicate 101 97
    let env : WriteEnv := { state := .Idle, isStepping := false }
    clearInSetting.convert env v = .ok v ∧ (v.length : Int) ≤ clearInSetting.maxLength ∧
      uriDecode (uriEncodeGrblCharacters v) ≠ v ∧
      (clearInSetting.replay env (show_setting clearInSetting.keyName v) (fun _ => none)).2.1.value ≠ v := by
  decide +kernel

end DuneWeaver
