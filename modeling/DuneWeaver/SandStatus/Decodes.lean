import DuneWeaver.Json.Compact
import DuneWeaver.SandStatus.Encode

open CompactJson

namespace DuneWeaver.SandStatus

/-- The number that a printed one stands for. -/
def printed (prec : Nat) (v : Reading) : ℚ := signed v.neg (Decimal.roundEven (v.mag.value * 10 ^ prec) / 10 ^ prec)

section Document

variable (read : Bytes → Bytes)

def str (key : String) (s : Bytes) : Bytes × Document := (bytes key, .string (read s))

def num (key : String) (q : ℚ) : Bytes × Document := (bytes key, .number q)

def flag (key : String) (b : Bool) : Bytes × Document := (bytes key, .bool b)

def optional (key : String) (s : Option Bytes) : List (Bytes × Document) :=
  if present s then [str read key (s.getD [])] else []

def counter (key : String) (v : Int32) : List (Bytes × Document) := if v ≥ 0 then [num key v.toInt] else []

/-- The fields of the `Data`, without those that are not there; `read` is what its strings are taken for. -/
def document (d : Data) : Document :=
  .object ([str read "state" d.state] ++ d.kinematics.toList.map (str read "kinematics") ++
    (if d.cartesian then [num "x" (printed 3 d.theta), num "y" (printed 3 d.rho)]
      else [num "theta" (printed 4 d.theta), num "rho" (printed 4 d.rho)]) ++
    [num "feed" (printed 0 d.feed), num "feed_override" d.feed_override.toInt, flag "running" d.running,
      str read "file" d.file, num "progress" (if d.progress.rat < 0 then -1 else printed 3 d.progress),
      num "elapsed" (if d.elapsed < 0 then -1 else d.elapsed.toInt)] ++
    [(bytes "playlist", .object [flag "active" d.playlist_active, num "index" d.playlist_index.toInt,
        num "total" d.playlist_total.toInt, str read "name" d.playlist_name, str read "next" d.playlist_next,
        str read "last" d.playlist_last, flag "clearing" d.playlist_clearing, flag "quiet" d.quiet,
        num "pause_remaining" d.playlist_pause_remaining.toInt, num "pause_total" d.playlist_pause_total.toInt])] ++
    (if d.has_led then [(bytes "led", .object ([str read "effect" d.led_effect,
        str read "active" (if present d.led_active then d.led_active.getD [] else d.led_effect)] ++
        optional read "override" d.led_override ++
        [num "brightness" d.led_brightness.toInt, flag "rgbw" d.led_rgbw]))] else []) ++
    ((if d.has_sd then [flag "sd_ok" d.sd_ok] else []) ++ optional read "last_reset" d.last_reset ++
      counter "uptime" d.uptime ++ counter "heap" d.heap ++ counter "heap_min" d.heap_min ++
      counter "heap_largest" d.heap_largest ++ optional read "fw" d.fw ++ optional read "mcu" d.mcu ++
      optional read "mac" d.mac ++ optional read "hostname" d.hostname))

end Document

/-- All strings of a `Data`. -/
def Data.strings (d : Data) : List Bytes :=
  [d.state, d.file, d.playlist_name, d.playlist_next, d.playlist_last, d.led_effect] ++ d.kinematics.toList ++
    d.led_active.toList ++ d.led_override.toList ++ d.last_reset.toList ++ d.fw.toList ++ d.mcu.toList ++
    d.mac.toList ++ d.hostname.toList

/-- The document depends on what the strings are taken for, and on no other string. -/
theorem document_congr {read read' : Bytes → Bytes} (d : Data) (h : ∀ s ∈ d.strings, read s = read' s) :
    document read d = document read' d := by
  have hstr : ∀ key s, s ∈ d.strings → str read key s = str read' key s := fun key s hs => by rw [str, str, h s hs]
  have hoptional : ∀ key o, (∀ s ∈ o, s ∈ d.strings) → optional read key o = optional read' key o := by
    intro key o ho
    cases o with
    | none => rfl
    | some s => rw [optional, optional, Option.getD_some, hstr key s (ho s rfl)]
  have hkinematics : d.kinematics.toList.map (str read "kinematics") =
      d.kinematics.toList.map (str read' "kinematics") :=
    List.map_congr_left fun s hs => hstr _ s (by simp [Data.strings, Option.mem_toList.mp hs])
  have hactive : (if present d.led_active then d.led_active.getD [] else d.led_effect) ∈ d.strings := by
    cases hled : d.led_active with
    | none => simp [Data.strings, present]
    | some s => split <;> simp [Data.strings, hled]
  have hmem : ∀ o s, s ∈ o → o = d.led_override ∨ o = d.last_reset ∨ o = d.fw ∨ o = d.mcu ∨ o = d.mac ∨
      o = d.hostname → s ∈ d.strings := by
    rintro o s hs (rfl | rfl | rfl | rfl | rfl | rfl) <;> simp [Data.strings, Option.mem_def.mp hs]
  rw [document, document, hstr "state" _ (by simp [Data.strings]), hkinematics, hstr "file" _ (by simp [Data.strings]),
    hstr "name" _ (by simp [Data.strings]), hstr "next" _ (by simp [Data.strings]),
    hstr "last" _ (by simp [Data.strings]), hstr "effect" _ (by simp [Data.strings]), hstr "active" _ hactive,
    hoptional "override" _ fun s hs => hmem _ s hs (by simp), hoptional "last_reset" _ fun s hs =>
      hmem _ s hs (by simp),
    hoptional "fw" _ fun s hs => hmem _ s hs (by simp), hoptional "mcu" _ fun s hs => hmem _ s hs (by simp),
    hoptional "mac" _ fun s hs => hmem _ s hs (by simp), hoptional "hostname" _ fun s hs => hmem _ s hs (by simp)]

/-- A printed number is off by no more than half a unit of the last digit. -/
theorem printed_near (prec : Nat) (v : Reading) : |printed prec v - v.rat| ≤ 1 / 2 / 10 ^ prec := by
  have hnear := Decimal.roundEven_near (q := v.mag.value * 10 ^ prec)
    (mul_nonneg (Binary32.Value.value_nonneg v.mag) (by positivity))
  have hpow : (0 : ℚ) < 10 ^ prec := by positivity
  have hmag : |(Decimal.roundEven (v.mag.value * 10 ^ prec) : ℚ) / 10 ^ prec - v.mag.value| ≤ 1 / 2 / 10 ^ prec := by
    rw [le_div_iff₀ hpow, ← abs_of_pos hpow, ← abs_mul, abs_of_pos hpow, sub_mul, div_mul_cancel₀ _ hpow.ne',
      abs_sub_comm]
    exact hnear
  rw [printed, Reading.rat, signed, Binary32.Value.rat]
  cases v.neg with
  | false => exact hmag
  | true =>
    rw [if_pos rfl, if_pos rfl, neg_sub_neg, abs_sub_comm]
    exact hmag

section Scalars

variable (out : Bytes)

/-- The buffer of `append_float` is large enough. -/
theorem append_float_eq (v : Reading) {prec : Nat} (hprec : prec ≤ 4) :
    append_float out v prec = out ++ Decimal.fixed prec v.neg v.mag.value := by
  have hround : Decimal.roundEven (v.mag.value * 10 ^ prec) ≤ 10 ^ 15 * 10 ^ prec :=
    Decimal.roundEven_le (by push_cast; exact mul_le_mul_of_nonneg_right v.hmag.le (by positivity))
  have hlt : Decimal.roundEven (v.mag.value * 10 ^ prec) < 10 ^ 16 * 10 ^ prec :=
    lt_of_le_of_lt hround (Nat.mul_lt_mul_of_pos_right (by norm_num) (by positivity))
  have hlength := Decimal.length_point_le (by norm_num : 0 < 16) hlt
  have hsign : (Decimal.sign v.neg).length ≤ 1 := by cases v.neg <;> decide
  rw [append_float, List.take_of_length_le]
  rw [Decimal.fixed, List.length_append]
  omega

/-- So is the one of `append_int`. -/
theorem append_int_eq (v : Int32) :
    append_int out v = out ++ (Decimal.sign (v.toInt < 0) ++ Decimal.ofNat v.toInt.natAbs) := by
  have hlow := Int32.le_toInt v
  have hhigh := Int32.toInt_lt v
  have hlength := (Decimal.length_ofNat_le (n := v.toInt.natAbs) (by norm_num : 0 < 10)).mpr (by omega)
  have hsign : (Decimal.sign (v.toInt < 0)).length ≤ 1 := by cases decide (v.toInt < 0) <;> decide
  rw [append_int, List.take_of_length_le]
  rw [List.length_append]
  omega

theorem denotes_int (v : Int32) :
    Denotes (Decimal.sign (v.toInt < 0) ++ Decimal.ofNat v.toInt.natAbs) (.number v.toInt) := by
  have h := denotes_ofNat (v.toInt < 0) v.toInt.natAbs
  have hvalue : signed (v.toInt < 0) (v.toInt.natAbs : ℚ) = v.toInt := by
    rw [signed, Nat.cast_natAbs]
    split
    case isTrue hneg => rw [abs_of_neg (of_decide_eq_true hneg), Int.cast_neg, neg_neg]
    case isFalse hneg => rw [abs_of_nonneg (not_lt.mp (of_decide_eq_false (Bool.eq_false_iff.mpr hneg)))]
  rwa [hvalue] at h

end Scalars

section Strings

/-- The string literal for `s`. -/
def literal (s : Bytes) : Bytes := 34 :: (c_str s).flatMap escape ++ [34]

theorem append_escaped_eq (out s : Bytes) : append_escaped out s = out ++ literal s := by
  rw [append_escaped, literal, List.foldl_append_eq_append, List.flatMap_def]
  simp

theorem escape_control {c : UInt8} (hc : c < 32) :
    unicode 48 48 (hexChar (c.toNat / 16)) (hexChar (c.toNat % 16)) = some c := by
  have hall : ∀ n : Fin 32, unicode 48 48 (hexChar (n.val / 16)) (hexChar (n.val % 16)) =
      some n.val.toUInt8 := by decide
  have hback : c.toNat.toUInt8 = c := by simp
  have h := hall ⟨c.toNat, UInt8.lt_iff_toNat_lt.mp hc⟩
  rwa [hback] at h

/-- An escaped character spells itself. -/
theorem spells_escape (c : UInt8) {text s : Bytes} (h : Spells text s) : Spells (escape c ++ text) (c :: s) := by
  rw [escape]
  split
  case isTrue hc => exact .escape (by decide) (by rw [hc]; rfl) h
  case isFalse hquote =>
    split
    case isTrue hc => exact .escape (by decide) (by rw [hc]; rfl) h
    case isFalse hslash =>
      split
      case isTrue hc => exact .escape (by decide) (by rw [hc]; rfl) h
      case isFalse _ =>
        split
        case isTrue hc => exact .escape (by decide) (by rw [hc]; rfl) h
        case isFalse _ =>
          split
          case isTrue hc => exact .escape (by decide) (by rw [hc]; rfl) h
          case isFalse _ =>
            split
            case isTrue hcontrol => exact .unicode (escape_control hcontrol) h
            case isFalse hcontrol => exact .plain hquote hslash hcontrol h

theorem spells_flatMap (s : Bytes) : Spells (s.flatMap escape) s := by
  induction s with
  | nil => exact .nil
  | cons c s ih => exact spells_escape c ih

theorem denotes_literal (s : Bytes) : Denotes (literal s) (.string (c_str s)) := .string (spells_flatMap (c_str s))

end Strings

section Writing

variable {f g : Bytes → Bytes} {ms ns : List (Bytes × Document)}

/-- The key is spelled as it is. -/
def Plain (key : String) : Prop := ∀ c ∈ bytes key, c ≠ 34 ∧ c ≠ 92 ∧ ¬ c < 32

instance (key : String) : Decidable (Plain key) := List.decidableBAll _ (bytes key)

/-- A comma and a key, as the source writes them. -/
def Opening (opening key : String) : Prop := bytes opening = 44 :: 34 :: bytes key ++ [34, 58] ∧ Plain key

instance (opening key : String) : Decidable (Opening opening key) := inferInstanceAs (Decidable (_ ∧ _))

/-- Members that decode to what they should. -/
def Valid (items : List Item) : Prop := ∀ item ∈ items, Spells item.spelled item.key ∧ Denotes item.text item.value

/-- The function appends members to others. -/
def Writes (f : Bytes → Bytes) (ms : List (Bytes × Document)) : Prop :=
  ∃ items, Valid items ∧ items.map Item.member = ms ∧ ∀ o, f o = o ++ items.flatMap fun item => 44 :: item.written

/-- The function appends the members of an object, of which there is at least one. -/
def Opens (f : Bytes → Bytes) (ms : List (Bytes × Document)) : Prop :=
  ∃ items, items ≠ [] ∧ Valid items ∧ items.map Item.member = ms ∧ ∀ o, f o = o ++ joined items

theorem spells_plain {s : Bytes} (hplain : ∀ c ∈ s, c ≠ 34 ∧ c ≠ 92 ∧ ¬ c < 32) : Spells s s := by
  induction s with
  | nil => exact .nil
  | cons c s ih =>
    obtain ⟨hquote, hslash, hcontrol⟩ := hplain c List.mem_cons_self
    exact .plain hquote hslash hcontrol (ih fun d hd => hplain d (List.mem_cons_of_mem c hd))

theorem valid_singleton {key : String} {text : Bytes} {v : Document} (hkey : Plain key) (h : Denotes text v) :
    Valid [⟨bytes key, bytes key, text, v⟩] := by
  intro item hitem
  rw [List.mem_singleton.mp hitem]
  exact ⟨spells_plain hkey, h⟩

theorem writes_nil : Writes (fun o => o) [] := ⟨[], nofun, rfl, fun o => (List.append_nil o).symm⟩

theorem writes_append (hf : Writes f ms) (hg : Writes g ns) : Writes (fun o => g (f o)) (ms ++ ns) := by
  obtain ⟨items, hvalid, rfl, hf⟩ := hf
  obtain ⟨items', hvalid', rfl, hg⟩ := hg
  refine ⟨items ++ items', ?_, List.map_append, fun o => ?_⟩
  · exact fun item hitem => (List.mem_append.mp hitem).elim (hvalid item) (hvalid' item)
  · dsimp only
    rw [hg, hf, List.flatMap_append, List.append_assoc]

theorem opens_append (hf : Opens f ms) (hg : Writes g ns) : Opens (fun o => g (f o)) (ms ++ ns) := by
  obtain ⟨items, hne, hvalid, rfl, hf⟩ := hf
  obtain ⟨items', hvalid', rfl, hg⟩ := hg
  refine ⟨items ++ items', List.append_ne_nil_of_left_ne_nil hne _, ?_, List.map_append, fun o => ?_⟩
  · exact fun item hitem => (List.mem_append.mp hitem).elim (hvalid item) (hvalid' item)
  · obtain ⟨item, items, rfl⟩ := List.exists_cons_of_ne_nil hne
    dsimp only
    rw [hg, hf, List.cons_append, joined, joined, List.flatMap_append, List.append_assoc, List.append_assoc]

theorem writes_if {c : Prop} [Decidable c] (hf : Writes f ms) :
    Writes (fun o => if c then f o else o) (if c then ms else []) := by
  split
  · exact hf
  · exact writes_nil

/-- A comma, a key and a value. -/
theorem writes_value (opening key : String) (hkey : Opening opening key) {text : Bytes} {v : Document}
    (h : Denotes text v) : Writes (fun o => o ++ bytes opening ++ text) [(bytes key, v)] := by
  refine ⟨[⟨bytes key, bytes key, text, v⟩], valid_singleton hkey.2 h, rfl, fun o => ?_⟩
  rw [hkey.1]
  simp [Item.written]

/-- A key and a value. -/
theorem opens_value (opening key : String) (hopening : bytes opening = 34 :: bytes key ++ [34, 58]) (hkey : Plain key)
    {text : Bytes} {v : Document} (h : Denotes text v) :
    Opens (fun o => o ++ bytes opening ++ text) [(bytes key, v)] := by
  refine ⟨[⟨bytes key, bytes key, text, v⟩], List.cons_ne_nil _ _, valid_singleton hkey h, rfl, fun o => ?_⟩
  rw [hopening]
  simp [Item.written, joined]

/-- An object in braces, behind others. -/
theorem writes_object (opening key : String) (hopening : bytes opening = 44 :: 34 :: bytes key ++ [34, 58, 123])
    (hkey : Plain key) (hf : Opens f ms) :
    Writes (fun o => f (o ++ bytes opening) ++ bytes "\x7d") [(bytes key, .object ms)] := by
  obtain ⟨items, -, hvalid, rfl, hf⟩ := hf
  have h := Denotes.object items (fun item hitem => (hvalid item hitem).1) fun item hitem => (hvalid item hitem).2
  refine ⟨[⟨bytes key, bytes key, _, _⟩], valid_singleton hkey h, rfl, fun o => ?_⟩
  dsimp only
  rw [hf, hopening]
  simp [Item.written, bytes]

/-- The whole text. -/
theorem decode_object (hf : Opens f ms) : decode (f (bytes "\x7b") ++ bytes "\x7d") = some (.object ms) := by
  obtain ⟨items, -, hvalid, rfl, hf⟩ := hf
  rw [hf]
  exact decode_denotes (.object items (fun item hitem => (hvalid item hitem).1) fun item hitem => (hvalid item hitem).2)

end Writing

section Members

theorem writes_float (opening key : String) (hkey : Opening opening key) (v : Reading) {prec : Nat} (hprec : prec ≤ 4) :
    Writes (fun o => append_float (o ++ bytes opening) v prec) [num key (printed prec v)] := by
  simp only [append_float_eq _ v hprec]
  exact writes_value opening key hkey (denotes_fixed prec v.neg v.mag.value)

theorem writes_int (opening key : String) (hkey : Opening opening key) (v : Int32) :
    Writes (fun o => append_int (o ++ bytes opening) v) [num key v.toInt] := by
  simp only [append_int_eq]
  exact writes_value opening key hkey (denotes_int v)

theorem denotes_bool (b : Bool) : Denotes (if b then bytes "true" else bytes "false") (.bool b) := by
  cases b with
  | true => exact .bool true
  | false => exact .bool false

theorem writes_bool (opening key : String) (hkey : Opening opening key) (b : Bool) :
    Writes (fun o => append_bool (o ++ bytes opening) b) [flag key b] :=
  writes_value opening key hkey (denotes_bool b)

theorem writes_escaped (opening key : String) (hkey : Opening opening key) (s : Bytes) :
    Writes (fun o => append_escaped (o ++ bytes opening) s) [str c_str key s] := by
  simp only [append_escaped_eq]
  exact writes_value opening key hkey (denotes_literal s)

theorem writes_str (key : String) (hkey : Plain key) (s : Bytes) :
    Writes (fun o => member_str (o ++ bytes ",") key s) [str c_str key s] := by
  refine ⟨[⟨bytes key, bytes key, _, _⟩], valid_singleton hkey (denotes_literal s), rfl, fun o => ?_⟩
  simp [member_str, append_escaped_eq, Item.written, bytes]

theorem opens_str (key : String) (hkey : Plain key) (s : Bytes) :
    Opens (fun o => member_str o key s) [str c_str key s] := by
  refine ⟨[⟨bytes key, bytes key, _, _⟩], List.cons_ne_nil _ _, valid_singleton hkey (denotes_literal s), rfl,
    fun o => ?_⟩
  simp [member_str, append_escaped_eq, Item.written, joined, bytes]

theorem writes_optional (key : String) (hkey : Plain key) (s : Option Bytes) :
    Writes (encodeOptional key s) (optional c_str key s) :=
  writes_if (writes_str key hkey _)

theorem writes_counter (opening key : String) (hkey : Opening opening key) (v : Int32) :
    Writes (encodeCounter opening v) (counter key v) :=
  writes_if (writes_int opening key hkey v)

end Members

section Groups

variable (d : Data)

theorem writes_position : Writes (encodePosition d)
    (if d.cartesian then [num "x" (printed 3 d.theta), num "y" (printed 3 d.rho)]
      else [num "theta" (printed 4 d.theta), num "rho" (printed 4 d.rho)]) := by
  unfold encodePosition
  cases d.cartesian with
  | true =>
    exact writes_append (writes_float ",\"x\":" "x" (by decide) d.theta (by decide))
      (writes_float ",\"y\":" "y" (by decide) d.rho (by decide))
  | false =>
    exact writes_append (writes_float ",\"theta\":" "theta" (by decide) d.theta (by decide))
      (writes_float ",\"rho\":" "rho" (by decide) d.rho (by decide))

theorem denotes_progress :
    Denotes (if d.progress.rat < 0 then bytes "-1" else Decimal.fixed 3 d.progress.neg d.progress.mag.value)
      (.number (if d.progress.rat < 0 then -1 else printed 3 d.progress)) := by
  split
  · exact denotes_ofNat true 1
  · exact denotes_fixed 3 _ _

theorem writes_progress : Writes (fun o =>
      let o := o ++ bytes ",\"progress\":"
      if d.progress.rat < 0 then o ++ bytes "-1" else append_float o d.progress 3)
    [num "progress" (if d.progress.rat < 0 then -1 else printed 3 d.progress)] := by
  have hsame : (fun o : Bytes =>
      let o := o ++ bytes ",\"progress\":"
      if d.progress.rat < 0 then o ++ bytes "-1" else append_float o d.progress 3) = fun o =>
      o ++ bytes ",\"progress\":" ++
        if d.progress.rat < 0 then bytes "-1" else Decimal.fixed 3 d.progress.neg d.progress.mag.value := by
    funext o
    dsimp only
    rw [append_float_eq _ d.progress (by decide)]
    split <;> rfl
  rw [hsame]
  exact writes_value ",\"progress\":" "progress" (by decide) (denotes_progress d)

theorem writes_elapsed :
    Writes (fun o => append_int (o ++ bytes ",\"elapsed\":") (if d.elapsed < 0 then -1 else d.elapsed))
      [num "elapsed" (if d.elapsed < 0 then -1 else d.elapsed.toInt)] := by
  have hvalue : (if d.elapsed < 0 then -1 else d.elapsed.toInt : ℚ) =
      (if d.elapsed < 0 then -1 else d.elapsed : Int32).toInt := by
    have hminus : (-1 : Int32).toInt = -1 := by decide
    split
    · rw [hminus, Int.cast_neg, Int.cast_one]
    · rfl
  rw [hvalue]
  exact writes_int ",\"elapsed\":" "elapsed" (by decide) _

theorem writes_job : Writes (encodeJob d)
    [num "feed" (printed 0 d.feed), num "feed_override" d.feed_override.toInt, flag "running" d.running,
      str c_str "file" d.file, num "progress" (if d.progress.rat < 0 then -1 else printed 3 d.progress),
      num "elapsed" (if d.elapsed < 0 then -1 else d.elapsed.toInt)] := by
  have hfeed := writes_float ",\"feed\":" "feed" (by decide) d.feed (by decide : 0 ≤ 4)
  have hoverride := writes_append hfeed (writes_int ",\"feed_override\":" "feed_override" (by decide) d.feed_override)
  have hrunning := writes_append hoverride (writes_bool ",\"running\":" "running" (by decide) d.running)
  have hfile := writes_append hrunning (writes_escaped ",\"file\":" "file" (by decide) d.file)
  exact writes_append (writes_append hfile (writes_progress d)) (writes_elapsed d)

theorem writes_playlist : Writes (encodePlaylist d)
    [(bytes "playlist", .object [flag "active" d.playlist_active, num "index" d.playlist_index.toInt,
      num "total" d.playlist_total.toInt, str c_str "name" d.playlist_name, str c_str "next" d.playlist_next,
      str c_str "last" d.playlist_last, flag "clearing" d.playlist_clearing, flag "quiet" d.quiet,
      num "pause_remaining" d.playlist_pause_remaining.toInt, num "pause_total" d.playlist_pause_total.toInt])] := by
  have hactive : Opens (fun o => append_bool (o ++ bytes "\"active\":") d.playlist_active)
      [flag "active" d.playlist_active] :=
    opens_value "\"active\":" "active" (by decide) (by decide) (denotes_bool d.playlist_active)
  have hindex := opens_append hactive (writes_int ",\"index\":" "index" (by decide) d.playlist_index)
  have htotal := opens_append hindex (writes_int ",\"total\":" "total" (by decide) d.playlist_total)
  have hname := opens_append htotal (writes_str "name" (by decide) d.playlist_name)
  have hnext := opens_append hname (writes_str "next" (by decide) d.playlist_next)
  have hlast := opens_append hnext (writes_str "last" (by decide) d.playlist_last)
  have hclearing := opens_append hlast (writes_bool ",\"clearing\":" "clearing" (by decide) d.playlist_clearing)
  have hquiet := opens_append hclearing (writes_bool ",\"quiet\":" "quiet" (by decide) d.quiet)
  have hremaining := opens_append hquiet
    (writes_int ",\"pause_remaining\":" "pause_remaining" (by decide) d.playlist_pause_remaining)
  exact writes_object ",\"playlist\":\x7b" "playlist" (by decide) (by decide)
    (opens_append hremaining (writes_int ",\"pause_total\":" "pause_total" (by decide) d.playlist_pause_total))

theorem writes_led : Writes (encodeLed d)
    (if d.has_led then [(bytes "led", .object ([str c_str "effect" d.led_effect,
      str c_str "active" (if present d.led_active then d.led_active.getD [] else d.led_effect)] ++
      optional c_str "override" d.led_override ++
      [num "brightness" d.led_brightness.toInt, flag "rgbw" d.led_rgbw]))] else []) := by
  have hactive := opens_append (opens_str "effect" (by decide) d.led_effect)
    (writes_str "active" (by decide) (if present d.led_active then d.led_active.getD [] else d.led_effect))
  have hoverride := opens_append hactive (writes_optional "override" (by decide) d.led_override)
  have hall := opens_append hoverride
    (writes_append (writes_int ",\"brightness\":" "brightness" (by decide) d.led_brightness)
      (writes_bool ",\"rgbw\":" "rgbw" (by decide) d.led_rgbw))
  exact writes_if (writes_object ",\"led\":\x7b" "led" (by decide) (by decide) hall)

theorem writes_device : Writes (encodeDevice d)
    ((if d.has_sd then [flag "sd_ok" d.sd_ok] else []) ++ optional c_str "last_reset" d.last_reset ++
      counter "uptime" d.uptime ++ counter "heap" d.heap ++ counter "heap_min" d.heap_min ++
      counter "heap_largest" d.heap_largest ++ optional c_str "fw" d.fw ++ optional c_str "mcu" d.mcu ++
      optional c_str "mac" d.mac ++ optional c_str "hostname" d.hostname) := by
  have hsd := writes_if (c := d.has_sd = true) (writes_bool ",\"sd_ok\":" "sd_ok" (by decide) d.sd_ok)
  have hreset := writes_append hsd (writes_optional "last_reset" (by decide) d.last_reset)
  have huptime := writes_append hreset (writes_counter ",\"uptime\":" "uptime" (by decide) d.uptime)
  have hheap := writes_append huptime (writes_counter ",\"heap\":" "heap" (by decide) d.heap)
  have hmin := writes_append hheap (writes_counter ",\"heap_min\":" "heap_min" (by decide) d.heap_min)
  have hlargest := writes_append hmin (writes_counter ",\"heap_largest\":" "heap_largest" (by decide) d.heap_largest)
  have hfw := writes_append hlargest (writes_optional "fw" (by decide) d.fw)
  have hmcu := writes_append hfw (writes_optional "mcu" (by decide) d.mcu)
  have hmac := writes_append hmcu (writes_optional "mac" (by decide) d.mac)
  have hall := writes_append hmac (writes_optional "hostname" (by decide) d.hostname)
  exact hall

theorem opens_state : Opens (fun o =>
      let o := member_str o "state" d.state
      match d.kinematics with
      | some kinematics => member_str (o ++ bytes ",") "kinematics" kinematics
      | none => o)
    ([str c_str "state" d.state] ++ d.kinematics.toList.map (str c_str "kinematics")) := by
  have hstate := opens_str "state" (by decide) d.state
  cases d.kinematics with
  | none => exact opens_append hstate writes_nil
  | some kinematics => exact opens_append hstate (writes_str "kinematics" (by decide) kinematics)

end Groups

section Pairs

/-- A pair of strings as a member. -/
def pairItem (pair : Bytes × Bytes) : Item :=
  ⟨c_str pair.1, (c_str pair.1).flatMap escape, literal pair.2, .string (c_str pair.2)⟩

theorem append_pair (o : Bytes) (pair : Bytes × Bytes) :
    append_escaped (append_escaped o pair.1 ++ bytes ":") pair.2 = o ++ (pairItem pair).written := by
  simp [append_escaped_eq, pairItem, Item.written, literal, bytes]

/-- Behind the first pair, all have a comma in front. -/
theorem foldl_pairs (items : List (Bytes × Bytes)) (k : Nat) (o : Bytes) :
    (items.zipIdx (k + 1)).foldl (fun o x =>
        append_escaped (append_escaped (if x.2 ≠ 0 then o ++ bytes "," else o) x.1.1 ++ bytes ":") x.1.2) o =
      o ++ items.flatMap fun pair => 44 :: (pairItem pair).written := by
  induction items generalizing k o with
  | nil => simp
  | cons pair items ih =>
    rw [List.zipIdx_cons, List.foldl_cons, ih, append_pair, if_pos (Nat.succ_ne_zero k)]
    simp [bytes]

theorem encode_object_eq (items : List (Bytes × Bytes)) :
    encode_object items = 123 :: joined (items.map pairItem) ++ [125] := by
  cases items with
  | nil => rfl
  | cons pair items =>
    have hrest := foldl_pairs items 0 (bytes "\x7b" ++ (pairItem pair).written)
    rw [encode_object, List.zipIdx_cons, List.foldl_cons]
    dsimp only
    rw [if_neg (fun h => h rfl), append_pair]
    rw [hrest]
    simp [joined, bytes, List.flatMap_map]

/-- Strings come back as they are read, pair by pair. -/
theorem decode_encode_object (items : List (Bytes × Bytes)) :
    decode (encode_object items) = some (.object (items.map fun pair => (c_str pair.1, .string (c_str pair.2)))) := by
  have hvalid : Valid (items.map pairItem) := by
    intro item hitem
    obtain ⟨pair, -, rfl⟩ := List.mem_map.mp hitem
    exact ⟨spells_flatMap _, denotes_literal pair.2⟩
  rw [encode_object_eq, decode_denotes (.object _ (fun item hitem => (hvalid item hitem).1)
    fun item hitem => (hvalid item hitem).2), List.map_map]
  rfl

end Pairs

theorem decode_encode (d : Data) : decode (encode d) = some (document c_str d) := by
  have hled := opens_append (opens_append (opens_append (opens_append (opens_state d) (writes_position d))
    (writes_job d)) (writes_playlist d)) (writes_led d)
  exact decode_object (opens_append hled (writes_device d))

/-- What is written is valid JSON and decodes to what was given, strings to their NUL and numbers to the printed
precision. -/
theorem status_decodes :
    (∀ out s, 0 ∉ s → ∃ text, append_escaped out s = out ++ text ∧ decode text = some (.string s)) ∧
    (∀ d, decode (encode d) = some (document c_str d) ∧
      ((∀ s ∈ d.strings, 0 ∉ s) → decode (encode d) = some (document id d))) ∧
    (∀ prec v, |printed prec v - v.rat| ≤ 1 / 2 / 10 ^ prec) ∧
    ∀ items, decode (encode_object items) =
        some (.object (items.map fun pair => (c_str pair.1, .string (c_str pair.2)))) ∧
      ((∀ pair ∈ items, 0 ∉ pair.1 ∧ 0 ∉ pair.2) →
        decode (encode_object items) = some (.object (items.map fun pair => (pair.1, .string pair.2)))) := by
  refine ⟨fun out s hs => ?_, fun d => ⟨decode_encode d, fun hall => ?_⟩, printed_near,
    fun items => ⟨decode_encode_object items, fun hall => ?_⟩⟩
  · have hdecode := decode_denotes (denotes_literal s)
    rw [c_str_eq_self hs] at hdecode
    exact ⟨literal s, append_escaped_eq out s, hdecode⟩
  · rw [decode_encode, document_congr d fun s hs => c_str_eq_self (hall s hs)]
    rfl
  · rw [decode_encode_object]
    have hsame : (items.map fun pair => (c_str pair.1, Document.string (c_str pair.2))) =
        items.map fun pair => (pair.1, Document.string pair.2) := by
      refine List.map_congr_left fun pair hpair => ?_
      rw [c_str_eq_self (hall pair hpair).1, c_str_eq_self (hall pair hpair).2]
    rw [hsame]

private def zero : Reading := ⟨false, ⟨0, ⟨0, 0, by decide, rfl⟩, by decide⟩, by norm_num [Binary32.Magnitude.value]⟩

/-- A table at rest, with a file name that has a quote, a control character and a byte that is not ASCII. -/
private def resting : Data where
  state := bytes "Idle"
  kinematics := some (bytes "ThetaRho")
  cartesian := false
  theta := zero
  rho := zero
  feed := zero
  feed_override := 100
  running := false
  file := [34, 7, 200]
  progress := zero
  elapsed := -1
  playlist_active := false
  playlist_index := 0
  playlist_total := 0
  playlist_pause_remaining := -1
  playlist_pause_total := 0
  playlist_name := []
  playlist_next := []
  playlist_last := []
  playlist_clearing := false
  quiet := false
  has_led := true
  led_effect := bytes "fire"
  led_active := none
  led_override := some (bytes "party")
  led_brightness := 128
  led_rgbw := true
  has_sd := true
  sd_ok := true
  last_reset := none
  uptime := 60
  heap := 100000
  heap_min := -1
  heap_largest := 50000
  fw := some (bytes "v1")
  mcu := none
  mac := none
  hostname := none

theorem status_decodes_resting :
    (∃ text, append_escaped [] [34, 7, 200] = [] ++ text ∧ decode text = some (.string [34, 7, 200])) ∧
    decode (encode resting) = some (document id resting) ∧
    |printed 3 zero - zero.rat| ≤ 1 / 2 / 10 ^ 3 ∧
    decode (encode_object [(bytes "file", [34, 7, 200])]) = some (.object [(bytes "file", .string [34, 7, 200])]) := by
  obtain ⟨hstring, hstatus, hnumber, hobject⟩ := status_decodes
  refine ⟨hstring [] [34, 7, 200] (by decide), (hstatus resting).2 (by decide), hnumber 3 zero,
    (hobject _).2 (by decide)⟩

end DuneWeaver.SandStatus
