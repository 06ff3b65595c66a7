import DuneWeaver.Kinematics.ThrTranslator
import DuneWeaver.Transition.Run
import DuneWeaver.NutsBolts.ReadFloat

open Transition Binary32

namespace DuneWeaver.ThrTranslator

/-- A line that has left the translator, with the feed requested at the time. -/
structure Emitted where
  out : Bytes
  feed : Value

/-- The lines that a run emits. -/
@[grind =] def emitted (t : ThrTranslator Value) : List (ThrInput Value) → List Emitted
  | [] => []
  | .set_feed feed :: inputs => emitted (t.set_feed feed) inputs
  | .line line outlen :: inputs =>
    match t.translate float line outlen with
    | (.Move out, t') => ⟨out, t.feed⟩ :: emitted t' inputs
    | (_, t') => emitted t' inputs

/-- The F word of a line and all behind it. -/
def fWord (out : Bytes) : Bytes := out.dropWhile (· ≠ 70)

/-- The last line that has an F word. -/
def lastF (lines : List Emitted) : Option Emitted := (lines.filter fun line => 70 ∈ line.out).getLast?

/-- What the parser has been told is what the translator remembers. -/
def Synced (t : ThrTranslator Value) (lines : List Emitted) : Prop :=
  lastF lines = none ∧ t.emitted_feed = float.zero ∨
    ∃ line, lastF lines = some line ∧ t.emitted_feed = line.feed ∧ float.lt float.zero line.feed = true ∧
      fWord line.out = bytes "F" ++ float.printf 1 line.feed

section Text

theorem no_F_digits {text : Bytes} (hdigits : ∀ c ∈ text, isdigit c = true) : (70 : UInt8) ∉ text :=
  fun hmem => absurd (hdigits 70 hmem) (by decide)

/-- Printed numbers have no capital letters. -/
theorem no_F_printf (prec : Nat) (x : Value) : (70 : UInt8) ∉ float.printf prec x := by
  cases x with
  | nan =>
    change (70 : UInt8) ∉ [110, 97, 110]
    decide
  | inf s =>
    change (70 : UInt8) ∉ Decimal.sign s ++ [105, 110, 102]
    cases s <;> decide
  | finite s mag =>
    change (70 : UInt8) ∉ Decimal.fixed prec s mag.value
    rw [Decimal.fixed, List.mem_append, not_or, Decimal.point, List.mem_append, not_or]
    refine ⟨by cases s <;> decide, no_F_digits (Decimal.numeral_ofNat _).digits, ?_⟩
    split
    · exact List.not_mem_nil
    · rw [List.mem_cons, not_or]
      exact ⟨by decide, no_F_digits fun c hc => Decimal.digits_padded hc⟩

theorem no_F_coordinates (t : ThrTranslator Value) (only : Bool) (theta rho : Value) :
    (70 : UInt8) ∉ t.coordinates float only theta rho := by
  have hfront : (70 : UInt8) ∉ bytes "G90G1Y" ∧ (70 : UInt8) ∉ bytes "G90G1X" ∧ (70 : UInt8) ∉ bytes "Y" := by decide
  rw [coordinates]
  split <;> simp only [List.mem_append, not_or]
  · exact ⟨hfront.1, no_F_printf 5 rho⟩
  · exact ⟨⟨⟨hfront.2.1, no_F_printf 5 _⟩, hfront.2.2⟩, no_F_printf 5 rho⟩

end Text

section Lines

theorem lastF_append {line : Emitted} (lines : List Emitted) :
    lastF (lines ++ [line]) = if 70 ∈ line.out then some line else lastF lines := by
  rw [lastF, List.filter_append]
  split
  case isTrue hmem =>
    rw [List.filter_singleton, decide_eq_true hmem]
    exact List.getLast?_concat
  case isFalse hmem =>
    rw [List.filter_singleton, decide_eq_false hmem]
    simp [lastF]

theorem emitted_append (t : ThrTranslator Value) (first second : List (ThrInput Value)) :
    emitted t (first ++ second) = emitted t first ++ emitted (run (step float) t first) second := by
  induction first generalizing t with
  | nil => rfl
  | cons input first ih =>
    rw [List.cons_append, run_cons]
    cases input with
    | set_feed feed => exact ih (t.set_feed feed)
    | line line outlen =>
      rw [emitted, emitted, step]
      rcases translate_cases float t line outlen with h | h | ⟨theta, rho, -, h | h⟩ <;> rw [h]
      · exact ih _
      · exact ih _
      · exact ih _
      · exact congrArg (List.cons _) (ih _)

/-- The move of a line has an F word if the feed is to be told, and then it is the feed's. -/
theorem fWord_move (t : ThrTranslator Value) {text : Bytes} (htext : (70 : UInt8) ∉ text) :
    (70 ∈ text ++ t.feedWord float ↔ t.emit_feed float = true) ∧
      (t.emit_feed float = true → fWord (text ++ t.feedWord float) = bytes "F" ++ float.printf 1 t.feed) := by
  rw [feedWord]
  cases t.emit_feed float with
  | false => simpa using htext
  | true =>
    rw [if_pos rfl]
    refine ⟨iff_of_true (by simp [bytes]) rfl, fun _ => ?_⟩
    have hskip : ∀ c ∈ text, decide (c ≠ 70) = true := fun c hc => decide_eq_true fun h => htext (h ▸ hc)
    rw [fWord, List.dropWhile_append_of_pos hskip]
    rfl

end Lines

section Run

variable {t : ThrTranslator Value} {lines : List Emitted}

theorem lt_feed (h : t.emit_feed float = true) : float.lt float.zero t.feed = true := by
  rw [emit_feed, Bool.and_eq_true] at h
  exact h.1

/-- Whether an F word is due: no line had one yet, or the last one had another feed. -/
theorem emit_feed_iff (hsync : Synced t lines) (hpos : float.lt float.zero t.feed = true) :
    t.emit_feed float = true ↔ ∀ line, lastF lines = some line → line.feed ≠ t.feed := by
  have heq : ∀ y, float.eq t.feed y = true ↔ t.feed = y := fun y => Value.eq_iff_of_pos hpos
  have hiff : t.emit_feed float = true ↔ t.feed ≠ t.emitted_feed := by
    rw [emit_feed, hpos, Bool.true_and, Bool.not_eq_true', ne_eq, ← heq, Bool.not_eq_true]
  rw [hiff]
  rcases hsync with ⟨hnone, hzero⟩ | ⟨last, hlast, hemitted, -, -⟩
  · rw [hzero]
    refine iff_of_true (fun h => ?_) (fun line hline => by rw [hnone] at hline; cases hline)
    -- zero is not greater than zero
    rw [h] at hpos
    revert hpos
    decide +kernel
  · rw [hemitted, hlast]
    constructor
    · intro hne line hline
      cases hline
      exact hne.symm
    · intro hne
      exact (hne last rfl).symm

/-- One input keeps the translator and the parser in step. -/
theorem synced_step (hsync : Synced t lines) (input : ThrInput Value) :
    Synced (t.step float input) (lines ++ emitted t [input]) := by
  cases input with
  | set_feed feed =>
    rw [emitted, emitted, List.append_nil]
    exact hsync
  | line line outlen =>
    rw [emitted, step]
    rcases translate_cases float t line outlen with h | h | ⟨theta, rho, -, h | h⟩ <;> rw [h] <;> dsimp only [emitted]
    · rwa [List.append_nil]
    · rwa [List.append_nil]
    · rw [List.append_nil, Synced, lock_emitted_feed]
      exact hsync
    · obtain ⟨hmem, hword⟩ := fWord_move t (no_F_coordinates (t.lock float theta rho) (t.rho_only float theta rho)
        theta (clampRho float rho))
      rw [Synced, lastF_append]
      cases hemit : t.emit_feed float with
      | false =>
        rw [if_neg (by rw [hmem, hemit]; exact Bool.false_ne_true), if_neg Bool.false_ne_true]
        exact hsync
      | true =>
        rw [if_pos (hmem.mpr hemit), if_pos rfl]
        exact .inr ⟨_, rfl, rfl, lt_feed hemit, hword hemit⟩

theorem synced_run (hsync : Synced t lines) (inputs : List (ThrInput Value)) :
    Synced (run (step float) t inputs) (lines ++ emitted t inputs) := by
  induction inputs generalizing t lines with
  | nil => rwa [emitted, List.append_nil]
  | cons input inputs ih =>
    have hsplit : emitted t (input :: inputs) = emitted t [input] ++ emitted (t.step float input) inputs :=
      emitted_append t [input] inputs
    rw [run_cons, hsplit, ← List.append_assoc]
    exact ih (synced_step hsync input)

end Run

/-- With every move that is made while a feed is requested, the last F word the parser has seen is that feed's, and
a move has an F word only if none was emitted before or the feed is another one since. -/
theorem translate_keeps_feed (feed : Value) (inputs : List (ThrInput Value)) (line : Bytes) (outlen : Nat) (out : Bytes)
    (hmove : ((run (step float) (start float feed) inputs).translate float line outlen).1 = .Move out) :
    (float.lt float.zero (run (step float) (start float feed) inputs).feed = true →
      ∃ last, lastF (emitted (start float feed) (inputs ++ [.line line outlen])) = some last ∧
        last.feed = (run (step float) (start float feed) inputs).feed ∧
        fWord last.out = bytes "F" ++ float.printf 1 (run (step float) (start float feed) inputs).feed) ∧
    (70 ∈ out → ∀ last, lastF (emitted (start float feed) inputs) = some last →
      last.feed ≠ (run (step float) (start float feed) inputs).feed) := by
  have hstart : Synced (start float feed) [] := .inl ⟨rfl, rfl⟩
  have hsync := synced_run hstart inputs
  rw [List.nil_append] at hsync
  rw [emitted_append, emitted]
  generalize run (step float) (start float feed) inputs = t at hmove hsync ⊢
  generalize emitted (start float feed) inputs = lines at hsync ⊢
  rcases translate_cases float t line outlen with h | h | ⟨theta, rho, -, h | h⟩
  · rw [h] at hmove
    cases hmove
  · rw [h] at hmove
    cases hmove
  · rw [h] at hmove
    cases hmove
  · rw [h] at hmove ⊢
    cases hmove
    obtain ⟨hmem, hword⟩ := fWord_move t (no_F_coordinates (t.lock float theta rho) (t.rho_only float theta rho)
      theta (clampRho float rho))
    dsimp only [emitted]
    rw [lastF_append]
    cases hemit : t.emit_feed float with
    | true =>
      rw [if_pos (hmem.mpr hemit)]
      exact ⟨fun _ => ⟨_, rfl, rfl, hword hemit⟩, fun _ => (emit_feed_iff hsync (lt_feed hemit)).mp hemit⟩
    | false =>
      rw [hemit] at hmem
      rw [if_neg fun h => Bool.false_ne_true (hmem.mp h)]
      refine ⟨fun hpos => ?_, fun h => absurd (hmem.mp h) Bool.false_ne_true⟩
      -- no F word is due, so the last one was this feed's
      have hdue := emit_feed_iff hsync hpos
      rw [hemit] at hdue
      have hsame : ∃ last, lastF lines = some last ∧ last.feed = t.feed := by
        by_contra hnone
        exact Bool.false_ne_true (hdue.mpr fun last hlast heq => hnone ⟨last, hlast, heq⟩)
      obtain ⟨last, hlast, hfeed⟩ := hsame
      rcases hsync with ⟨hnone, -⟩ | ⟨_, hlast', -, -, hlastWord⟩
      · rw [hnone] at hlast
        cases hlast
      · rw [hlast] at hlast'
        cases hlast'
        exact ⟨last, hlast, hfeed, hfeed ▸ hlastWord⟩

/-- A second move at the same feed. -/
theorem translate_keeps_feed_twice :
    let inputs := [ThrInput.line (bytes "0.5 0.3") 256]
    let t := run (step float) (start float (round false 100)) inputs
    ∃ last, lastF (emitted (start float (round false 100)) (inputs ++ [.line (bytes "1 0.4") 256])) = some last ∧
      last.feed = t.feed ∧ fWord last.out = bytes "F" ++ float.printf 1 t.feed :=
  (translate_keeps_feed (round false 100) [.line (bytes "0.5 0.3") 256] (bytes "1 0.4") 256
    (bytes "G90G1X1.00000Y0.40000") (by decide +kernel)).1 (by decide +kernel)

/-- A letter and a finite decimal numeral, which the number reader accepts in full. -/
def Word (letter : UInt8) (word rest : Bytes) (q : ℚ) : Prop :=
  ∃ numeral, word = letter :: numeral ∧ Decimal.Denotes numeral q ∧
    ∃ value, read_float (numeral ++ rest) = some (value, rest)

/-- A `G1` line as the parser reads it. The X word is left out where theta is not to move; `feed` is what the F word
is printed from. -/
structure MoveLine (feed : Value) (out : Bytes) : Prop where
  words : ∃ xword yword fword, out = bytes "G90G1" ++ xword ++ yword ++ fword ∧
    (xword = [] ∨ ∃ q, Word 88 xword (yword ++ fword) q) ∧
    (∃ q, Word 89 yword fword q ∧ 0 ≤ q ∧ q ≤ 1) ∧
    (fword = [] ∨ (feed.isfinite = true → ∃ q, Word 70 fword [] q))
  one_feed : out.count 70 ≤ 1

/-- What is expected of one line. -/
structure WellBehaved (t : ThrTranslator Value) (line : Bytes) (outlen : Nat) : Prop where
  moves : ∀ out, (t.translate float line outlen).1 = .Move out → MoveLine t.feed out
  rejects : (¬ ∃ theta rho, readPair float line = .fields theta rho ∧ theta.isfinite = true ∧ rho.isfinite = true) →
    (∀ out, (t.translate float line outlen).1 ≠ .Move out) ∧
      (t.translate float line outlen).2.theta_offset = t.theta_offset

/-- What can be done with a translator. -/
inductive Call
  | start (feed : Value)
  | input (input : ThrInput Value)

/-- A translator before its first job. -/
def fresh : ThrTranslator Value :=
  { feed := float.zero, emitted_feed := float.zero, in_preamble := false, offset_locked := false,
    theta_offset := float.zero }

def perform (t : ThrTranslator Value) : Call → ThrTranslator Value
  | .start feed => start float feed
  | .input input => t.step float input

/-- Every translation of the run is as expected. -/
def Expected (t : ThrTranslator Value) (call : Call) : Prop :=
  ∀ line outlen, call = .input (.line line outlen) → WellBehaved t line outlen

/-- A line that has two fields has finite ones, and the offset in force does not take theta out of range. -/
def inRange (t : ThrTranslator Value) : Call → Bool
  | .input (.line line _) =>
    match readPair float line with
    | .fields theta rho =>
      theta.isfinite && rho.isfinite &&
        (t.rho_only float theta rho || (float.sub theta (t.lock float theta rho).theta_offset).isfinite)
    | _ => true
  | _ => true

section Numbers

variable {x : Value}

theorem round_one : ∃ mag : Magnitude, round false 1 = .finite false mag ∧ mag.value = 1 := by
  have hone : nearest (1 * 2 ^ 149) = 2 ^ 149 := by decide +kernel
  refine ⟨⟨nearest (1 * 2 ^ 149), nearest_bits _, by rw [hone]; norm_num⟩, dif_pos (by rw [hone]; norm_num), ?_⟩
  simp only [Magnitude.value, hone]
  norm_num

/-- A finite rho comes out between the center and the rim. -/
theorem clampRho_finite (hx : x.isfinite = true) :
    ∃ s mag, clampRho float x = .finite s mag ∧ 0 ≤ Value.rat s mag ∧ Value.rat s mag ≤ 1 := by
  obtain ⟨zero, hzero, hzeroValue⟩ := Value.round_zero false
  obtain ⟨one, hone, honeValue⟩ := round_one
  have hzeroRat : Value.rat false zero = 0 := hzeroValue
  have honeRat : Value.rat false one = 1 := honeValue
  cases x with
  | nan => cases hx
  | inf s => cases hx
  | finite s mag =>
    rw [clampRho]
    change ∃ s' mag', (if (Value.finite s mag).lt (round false 0) = true then round false 0
      else if (round false 1).lt (.finite s mag) = true then round false 1 else .finite s mag) = .finite s' mag' ∧ _
    rw [hzero, hone]
    simp only [Value.lt, hzeroRat, honeRat, decide_eq_true_eq]
    split
    case isTrue hlow => exact ⟨false, zero, rfl, hzeroRat.ge, by rw [hzeroRat]; norm_num⟩
    case isFalse hlow =>
      split
      case isTrue hhigh => exact ⟨false, one, rfl, by rw [honeRat]; norm_num, honeRat.le⟩
      case isFalse hhigh => exact ⟨s, mag, rfl, not_lt.mp hlow, not_lt.mp hhigh⟩

theorem word_printf {prec : Nat} (hprec : prec ≠ 0) (letter : UInt8) (hx : x.isfinite = true) (rest : Bytes)
    (hrest : Decimal.Stops rest) : ∃ q, Word letter (letter :: float.printf prec x) rest q := by
  cases x with
  | nan => cases hx
  | inf s => cases hx
  | finite s mag =>
    have hdenotes := Decimal.denotes_fixed hprec s mag.value
    exact ⟨_, _, rfl, hdenotes, read_float_denotes hdenotes hrest⟩

/-- Rounding a number between zero and one stays there. -/
theorem yword_printf (hx : x.isfinite = true) {rest : Bytes} (hrest : Decimal.Stops rest) :
    ∃ q, Word 89 (89 :: float.printf 5 (clampRho float x)) rest q ∧ 0 ≤ q ∧ q ≤ 1 := by
  obtain ⟨s, mag, hclamp, hlow, hhigh⟩ := clampRho_finite hx
  have hdenotes := Decimal.denotes_fixed (by decide : 5 ≠ 0) s mag.value
  refine ⟨_, ⟨_, congrArg (fun v => 89 :: float.printf 5 v) hclamp, hdenotes, read_float_denotes hdenotes hrest⟩, ?_⟩
  cases s with
  | true =>
    -- a zero with a sign
    have hmag : mag.value = 0 := by
      simp only [Value.rat, if_true] at hlow
      linarith [Value.value_nonneg mag]
    have hround : Decimal.roundEven (mag.value * 10 ^ 5) = 0 :=
      Nat.le_zero.mp (Decimal.roundEven_le (by rw [hmag]; norm_num))
    rw [hround]
    norm_num
  | false =>
    simp only [Value.rat, Bool.false_eq_true, if_false] at hhigh ⊢
    have hround : Decimal.roundEven (mag.value * 10 ^ 5) ≤ 100000 :=
      Decimal.roundEven_le (by push_cast; linarith)
    have hcast : (Decimal.roundEven (mag.value * 10 ^ 5) : ℚ) ≤ 100000 := by exact_mod_cast hround
    rw [one_mul]
    exact ⟨by positivity, by rw [div_le_one (by norm_num)]; linarith⟩

end Numbers

section Lines

variable {t : ThrTranslator Value} {line : Bytes} {outlen : Nat}

theorem stops_feedWord (t : ThrTranslator Value) : Decimal.Stops (t.feedWord float) := by
  rw [feedWord]
  split
  · exact Decimal.stops_cons (by decide)
  · exact Decimal.stops_nil

theorem fword_feedWord (t : ThrTranslator Value) :
    t.feedWord float = [] ∨ (t.feed.isfinite = true → ∃ q, Word 70 (t.feedWord float) [] q) := by
  rw [feedWord]
  split
  · exact .inr fun hfinite => word_printf (by decide) 70 hfinite [] Decimal.stops_nil
  · exact .inl rfl

theorem count_feedWord (t : ThrTranslator Value) : (t.feedWord float).count 70 ≤ 1 := by
  rw [feedWord]
  split
  · change List.count 70 (70 :: float.printf 1 t.feed) ≤ 1
    rw [List.count_cons_self, List.count_eq_zero_of_not_mem (no_F_printf 1 t.feed)]
  · exact Nat.zero_le 1

/-- The move of a pair of fields that are in range. -/
theorem moveLine_coordinates {theta rho : Value} (hrho : rho.isfinite = true)
    (hx : t.rho_only float theta rho = false →
      (float.sub theta (t.lock float theta rho).theta_offset).isfinite = true) :
    MoveLine t.feed ((t.lock float theta rho).coordinates float (t.rho_only float theta rho) theta
      (clampRho float rho) ++
      t.feedWord float) where
  words := by
    obtain ⟨y, hy, hbounds⟩ := yword_printf hrho (stops_feedWord t)
    cases honly : t.rho_only float theta rho with
    | true =>
      refine ⟨[], _, _, ?_, .inl rfl, ⟨y, hy, hbounds⟩, fword_feedWord t⟩
      rw [coordinates, if_pos rfl]
      rfl
    | false =>
      obtain ⟨x, hxword⟩ := word_printf (by decide : 5 ≠ 0) 88 (hx honly)
        (89 :: float.printf 5 (clampRho float rho) ++ t.feedWord float) (Decimal.stops_cons (by decide))
      refine ⟨_, _, _, ?_, .inr ⟨x, hxword⟩, ⟨y, hy, hbounds⟩, fword_feedWord t⟩
      rw [coordinates, if_neg Bool.false_ne_true]
      simp [bytes]
  one_feed := by
    rw [List.count_append, List.count_eq_zero_of_not_mem (no_F_coordinates _ _ _ _), Nat.zero_add]
    exact count_feedWord t

theorem wellBehaved_of_refused {result : ThrLine} (hcase : t.translate float line outlen = (result, t))
    (hresult : ∀ out, result ≠ .Move out) : WellBehaved t line outlen where
  moves out hout := by
    rw [hcase] at hout
    exact absurd hout (hresult out)
  rejects _ := by
    rw [hcase]
    exact ⟨hresult, rfl⟩

theorem wellBehaved_of_inRange (h : inRange t (.input (.line line outlen)) = true) : WellBehaved t line outlen := by
  rw [inRange] at h
  rcases translate_cases float t line outlen with hcase | hcase | ⟨theta, rho, hpair, hcase⟩
  · exact wellBehaved_of_refused hcase nofun
  · exact wellBehaved_of_refused hcase nofun
  · rw [hpair] at h
    simp only [Bool.and_eq_true, Bool.or_eq_true] at h
    obtain ⟨⟨htheta, hrho⟩, hx⟩ := h
    refine ⟨fun out hout => ?_, fun hnot => absurd ⟨theta, rho, hpair, htheta, hrho⟩ hnot⟩
    rcases hcase with hcase | hcase
    · rw [hcase] at hout
      cases hout
    · rw [hcase] at hout
      cases hout
      exact moveLine_coordinates hrho fun honly => hx.resolve_left (by rw [honly]; exact Bool.false_ne_true)

end Lines

/-- Whatever has been done with the translator before, a line in range leaves as a move that the parser reads, and
every other line is refused. -/
theorem translate_well_behaved (calls : List Call)
    (hrange : Throughout perform (fun t call => inRange t call = true) fresh calls) :
    Throughout perform Expected fresh calls := by
  apply hrange.mono
  rintro t call hcall line outlen rfl
  exact wellBehaved_of_inRange hcall

/-- A job with a start from the center, and then one that is not in step with its lines. -/
theorem translate_well_behaved_job :
    Throughout perform Expected fresh
      [.start (round false 100), .input (.line (bytes "0 0") 256), .input (.line (bytes "-0.5 1.2") 64),
        .input (.line (bytes "# nan") 256), .start (round false 0), .input (.set_feed (round false 60)),
        .input (.line (bytes "1e3 nine") 256), .input (.line (bytes "1e3 .9") 10)] :=
  translate_well_behaved _ (by decide +kernel)

/-- A field that the C library reads as a NaN goes out as an X word, and takes all that follow with it. -/
theorem nan_is_a_move :
    ((start float (round false 100)).translate float (bytes "nan 0.5") 256).1 =
        .Move (bytes "G90G1XnanY0.50000F100.0") ∧
      (((start float (round false 100)).translate float (bytes "nan 0.5") 256).2.translate float (bytes "1 0.5")
        256).1 =
        .Move (bytes "G90G1XnanY0.50000") ∧
      ¬ ∀ calls, Throughout perform Expected fresh calls := by
  have hmove : ((start float (round false 100)).translate float (bytes "nan 0.5") 256).1 =
      .Move (bytes "G90G1XnanY0.50000F100.0") := by decide +kernel
  refine ⟨hmove, by decide +kernel, fun hall => ?_⟩
  have hline := (hall [.start (round false 100), .input (.line (bytes "nan 0.5") 256)]).2.1 (bytes "nan 0.5") 256 rfl
  refine (hline.rejects ?_).1 _ hmove
  rintro ⟨theta, rho, hpair, htheta, -⟩
  have hnan : readPair float (bytes "nan 0.5") = .fields .nan (round false (1 / 2)) := by decide +kernel
  rw [hnan] at hpair
  cases hpair
  cases htheta

end DuneWeaver.ThrTranslator
