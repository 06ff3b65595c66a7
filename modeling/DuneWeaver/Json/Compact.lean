import DuneWeaver.Decimal.Fixed
import DuneWeaver.Json.Text

open Ascii Decimal Json

namespace CompactJson

/-- What a text without white space stands for. Arrays and `null` are left out. -/
inductive Document where
  | bool (b : Bool)
  | number (q : ℚ)
  | string (s : List UInt8)
  | object (members : List (List UInt8 × Document))

section Decoder

def hexDigit (c : UInt8) : Option Nat :=
  if 48 ≤ c ∧ c ≤ 57 then some (c.toNat - 48)
  else if 97 ≤ c ∧ c ≤ 102 then some (c.toNat - 87)
  else if 65 ≤ c ∧ c ≤ 70 then some (c.toNat - 55)
  else none

/-- The byte of four hexadecimal digits; a code that takes more than one byte is left out. -/
def unicode (a b c d : UInt8) : Option UInt8 := do
  let n := (((← hexDigit a) * 16 + (← hexDigit b)) * 16 + (← hexDigit c)) * 16 + (← hexDigit d)
  if n < 128 then some n.toUInt8 else none

/-- The rest of a string, to the quote that ends it, and what follows. A control byte may not stand in it. -/
@[grind =] def chars : List UInt8 → Option (List UInt8 × List UInt8)
  | [] => none
  | c :: text =>
    if c = 34 then some ([], text)
    else if c = 92 then
      match text with
      | [] => none
      | e :: text =>
        if e = 117 then
          match text with
          | h :: i :: j :: k :: text => do
            let b ← unicode h i j k
            let (s, rest) ← chars text
            some (b :: s, rest)
          | _ => none
        else do
          let b ← unescape e
          let (s, rest) ← chars text
          some (b :: s, rest)
    else if c < 32 then none
    else do
      let (s, rest) ← chars text
      some (c :: s, rest)

/-- A number, negative if there is a sign. -/
def signed (neg : Bool) (q : ℚ) : ℚ := if neg then -q else q

/-- A number in front. No zero may stand before its other digits, and no point without digits behind it. Exponents
are left out. -/
def number (text : List UInt8) : Option (ℚ × List UInt8) :=
  let neg : Bool := text.head? = some 45
  let text := if neg then text.tail else text
  let whole := text.takeWhile isdigit
  let rest := text.dropWhile isdigit
  if whole = [] ∨ whole.head? = some 48 ∧ whole ≠ [48] then none
  else if rest.head? = some 46 then
    let frac := rest.tail.takeWhile isdigit
    if frac = [] then none
    else some (signed neg (Decimal.number whole + Decimal.number frac / 10 ^ frac.length), rest.tail.dropWhile isdigit)
  else some (signed neg (Decimal.number whole), rest)

mutual

/-- A value in front, and what follows. -/
@[grind =] def value : Nat → List UInt8 → Option (Document × List UInt8)
  | 0, _ => none
  | fuel + 1, text =>
    if text.head? = some 34 then (chars text.tail).map fun (s, rest) => (.string s, rest)
    else if text.head? = some 123 then
      if text.tail.head? = some 125 then some (.object [], text.tail.tail)
      else (members fuel text.tail).map fun (ms, rest) => (.object ms, rest)
    else if text.take 4 = [116, 114, 117, 101] then some (.bool true, text.drop 4)
    else if text.take 5 = [102, 97, 108, 115, 101] then some (.bool false, text.drop 5)
    else (number text).map fun (q, rest) => (.number q, rest)

/-- The members of an object to the brace that ends it. -/
@[grind =] def members : Nat → List UInt8 → Option (List (List UInt8 × Document) × List UInt8)
  | 0, _ => none
  | fuel + 1, text =>
    if text.head? = some 34 then do
      let (key, text) ← chars text.tail
      if text.head? = some 58 then
        let (v, text) ← value fuel text.tail
        if text.head? = some 125 then some ([(key, v)], text.tail)
        else if text.head? = some 44 then
          let (ms, text) ← members fuel text.tail
          some ((key, v) :: ms, text)
        else none
      else none
    else none

end

/-- What a whole text stands for, if it is valid. -/
def decode (text : List UInt8) : Option Document := do
  let (v, rest) ← value text.length text
  if rest = [] then some v else none

end Decoder

section Grammar

/-- What stands between the quotes of a string, and the bytes that it spells. -/
inductive Spells : List UInt8 → List UInt8 → Prop
  | nil : Spells [] []
  | plain {c : UInt8} {text s : List UInt8} (hquote : c ≠ 34) (hescape : c ≠ 92) (hcontrol : ¬ c < 32)
    (hrest : Spells text s) : Spells (c :: text) (c :: s)
  | escape {c b : UInt8} {text s : List UInt8} (hc : c ≠ 117) (hb : unescape c = some b) (hrest : Spells text s) :
    Spells (92 :: c :: text) (b :: s)
  | unicode {h i j k b : UInt8} {text s : List UInt8} (hb : unicode h i j k = some b) (hrest : Spells text s) :
    Spells (92 :: 117 :: h :: i :: j :: k :: text) (b :: s)

/-- A member of an object: its key, how it is spelled, and the text of its value. -/
structure Item where
  key : List UInt8
  spelled : List UInt8
  text : List UInt8
  value : Document

def Item.written (item : Item) : List UInt8 := 34 :: item.spelled ++ 34 :: 58 :: item.text

def Item.member (item : Item) : List UInt8 × Document := (item.key, item.value)

/-- Members with commas between them. -/
def joined : List Item → List UInt8
  | [] => []
  | item :: items => item.written ++ items.flatMap fun item => 44 :: item.written

/-- A numeral without a zero that is not needed. -/
structure Whole (text : List UInt8) : Prop extends Numeral text where
  zero : text.head? = some 48 → text = [48]

/-- The text is valid and stands for the document. -/
inductive Denotes : List UInt8 → Document → Prop
  | bool (b : Bool) : Denotes (if b then [116, 114, 117, 101] else [102, 97, 108, 115, 101]) (.bool b)
  | whole (neg : Bool) {text : List UInt8} (htext : Whole text) :
    Denotes (sign neg ++ text) (.number (signed neg (Decimal.number text)))
  | point (neg : Bool) {text frac : List UInt8} (htext : Whole text) (hfrac : Numeral frac) :
    Denotes (sign neg ++ text ++ 46 :: frac)
      (.number (signed neg (Decimal.number text + Decimal.number frac / 10 ^ frac.length)))
  | string {text s : List UInt8} (h : Spells text s) : Denotes (34 :: text ++ [34]) (.string s)
  | object (items : List Item) (hkeys : ∀ item ∈ items, Spells item.spelled item.key)
    (hvalues : ∀ item ∈ items, Denotes item.text item.value) :
    Denotes (123 :: joined items ++ [125]) (.object (items.map Item.member))

/-- What may stand behind a number without being a part of it. -/
def Ends (rest : List UInt8) : Prop := Stops rest ∧ rest.head? ≠ some 46

end Grammar

section Strings

variable {text s rest : List UInt8}

/-- A string is decoded to its bytes. -/
theorem chars_spells (h : Spells text s) (rest : List UInt8) : chars (text ++ 34 :: rest) = some (s, rest) := by
  induction h with
  | nil =>
    rw [List.nil_append, chars.eq_def]
    exact if_pos rfl
  | plain hquote hescape hcontrol _ ih =>
    rw [List.cons_append, chars.eq_def]
    dsimp only
    rw [if_neg hquote, if_neg hescape, if_neg hcontrol, ih]
    rfl
  | escape hc hb _ ih =>
    rw [List.cons_append, List.cons_append, chars.eq_def]
    dsimp only
    rw [if_neg (by decide), if_pos rfl, if_neg hc, hb, ih]
    rfl
  | unicode hb _ ih =>
    simp only [List.cons_append]
    rw [chars.eq_def]
    dsimp only
    rw [if_neg (by decide), if_pos rfl, if_pos rfl, hb, ih]
    rfl

end Strings

section Numbers

variable {text frac rest : List UInt8}

theorem sign_of_numeral (htext : Numeral text) (rest : List UInt8) : (text ++ rest).head? ≠ some 45 := by
  intro h
  rw [List.head?_append_of_ne_nil _ htext.ne_nil] at h
  exact absurd (htext.digits 45 (List.mem_of_mem_head? h)) (by decide)

/-- The decoder finds the sign of a numeral and its digits. -/
theorem number_sign (neg : Bool) (htext : Numeral text) (rest : List UInt8) :
    decide ((sign neg ++ text ++ rest).head? = some 45) = neg ∧
      (if neg then (sign neg ++ text ++ rest).tail else sign neg ++ text ++ rest) = text ++ rest := by
  cases neg with
  | true => exact ⟨rfl, rfl⟩
  | false => exact ⟨decide_eq_false (sign_of_numeral htext rest), rfl⟩

theorem whole_ok (htext : Whole text) : ¬ (text = [] ∨ text.head? = some 48 ∧ text ≠ [48]) :=
  fun h => h.elim htext.ne_nil fun h => h.2 (htext.zero h.1)

theorem number_whole (neg : Bool) (htext : Whole text) (hrest : Ends rest) :
    number (sign neg ++ text ++ rest) = some (signed neg (Decimal.number text), rest) := by
  obtain ⟨hneg, hsigned⟩ := number_sign neg htext.toNumeral rest
  rw [number]
  dsimp only
  rw [hneg, hsigned, takeWhile_digits htext.digits hrest.1, dropWhile_digits htext.digits hrest.1,
    if_neg (whole_ok htext), if_neg hrest.2]

theorem number_point (neg : Bool) (htext : Whole text) (hfrac : Numeral frac) (hrest : Ends rest) :
    number (sign neg ++ text ++ 46 :: frac ++ rest) =
      some (signed neg (Decimal.number text + Decimal.number frac / 10 ^ frac.length), rest) := by
  obtain ⟨hneg, hsigned⟩ := number_sign neg htext.toNumeral (46 :: frac ++ rest)
  have hstop : Stops (46 :: frac ++ rest) := stops_cons (by decide)
  have hhead : (46 :: frac ++ rest).head? = some 46 := rfl
  have htail : (46 :: frac ++ rest).tail = frac ++ rest := rfl
  rw [List.append_assoc (sign neg ++ text), number]
  dsimp only
  rw [hneg, hsigned, takeWhile_digits htext.digits hstop, dropWhile_digits htext.digits hstop,
    if_neg (whole_ok htext), if_pos hhead, htail, takeWhile_digits hfrac.digits hrest.1,
    dropWhile_digits hfrac.digits hrest.1, if_neg hfrac.ne_nil]

end Numbers

section Values

variable {text rest : List UInt8}

theorem ends_mark {c : UInt8} (hdigit : isdigit c = false) (hpoint : c ≠ 46) : Ends (c :: rest) :=
  ⟨stops_cons hdigit, fun h => hpoint (Option.some.inj h)⟩

/-- What starts with a sign or a digit can only be a number. -/
theorem value_number {c : UInt8} (hhead : text.head? = some c) (hc : c = 45 ∨ isdigit c = true) (fuel : Nat) :
    value (fuel + 1) text = (number text).map fun (q, rest) => (.number q, rest) := by
  have hother : c ≠ 34 ∧ c ≠ 123 ∧ c ≠ 116 ∧ c ≠ 102 := by
    rcases hc with rfl | hdigit
    · decide
    · refine ⟨?_, ?_, ?_, ?_⟩ <;> rintro rfl <;> revert hdigit <;> decide
  obtain ⟨text, rfl⟩ : ∃ tail, text = c :: tail := ⟨text.tail, List.eq_cons_of_mem_head? hhead⟩
  have hfirst : ∀ d, c ≠ d → ∀ n tail, (c :: text).take (n + 1) ≠ d :: tail :=
    fun d hd n tail h => hd (List.cons.inj h).1
  rw [value, hhead, if_neg fun h => hother.1 (Option.some.inj h), if_neg fun h => hother.2.1 (Option.some.inj h),
    if_neg (hfirst _ hother.2.2.1 _ _), if_neg (hfirst _ hother.2.2.2 _ _)]

section Step

variable {fuel : Nat} {key : List UInt8} {v : Document} {more : List UInt8} {ms : List (List UInt8 × Document)}

theorem value_string {s : List UInt8} (hread : chars text = some (s, rest)) :
    value (fuel + 1) (34 :: text) = some (.string s, rest) := by
  simp [value, hread]

theorem value_object (hbrace : text.head? ≠ some 125) (hread : members fuel text = some (ms, rest)) :
    value (fuel + 1) (123 :: text) = some (.object ms, rest) := by
  simp [value, hbrace, hread]

theorem members_last (hkey : chars text = some (key, 58 :: more)) (hvalue : value fuel more = some (v, 125 :: rest)) :
    members (fuel + 1) (34 :: text) = some ([(key, v)], rest) := by
  simp [members, hkey, hvalue]

theorem members_comma {next : List UInt8} (hkey : chars text = some (key, 58 :: more))
    (hvalue : value fuel more = some (v, 44 :: next)) (hnext : members fuel next = some (ms, rest)) :
    members (fuel + 1) (34 :: text) = some ((key, v) :: ms, rest) := by
  simp [members, hkey, hvalue, hnext]

end Step

theorem flatMap_written (item : Item) (items : List Item) :
    (item :: items).flatMap (fun item => 44 :: item.written) = 44 :: joined (item :: items) := rfl

/-- The members of an object are decoded to its end, if their values are. -/
theorem members_items (items : List Item) (hne : items ≠ []) (hkeys : ∀ item ∈ items, Spells item.spelled item.key)
    (hvalues : ∀ item ∈ items, ∀ rest, Ends rest → ∀ fuel, item.text.length ≤ fuel →
      value fuel (item.text ++ rest) = some (item.value, rest))
    (fuel : Nat) (hfuel : (joined items).length ≤ fuel) (rest : List UInt8) :
    members fuel (joined items ++ 125 :: rest) = some (items.map Item.member, rest) := by
  induction items generalizing fuel with
  | nil => exact absurd rfl hne
  | cons item items ih =>
    have hkey := hkeys item List.mem_cons_self
    have hvalue := hvalues item List.mem_cons_self
    have hlength : (joined (item :: items)).length = item.spelled.length + item.text.length + 3 +
        (items.flatMap fun item => 44 :: item.written).length := by
      simp only [joined, Item.written, List.length_append, List.length_cons]
      omega
    obtain ⟨fuel, rfl⟩ : ∃ k, fuel = k + 1 := ⟨fuel - 1, by omega⟩
    have htext : joined (item :: items) ++ 125 :: rest = 34 :: (item.spelled ++ 34 :: 58 ::
        (item.text ++ ((items.flatMap fun item => 44 :: item.written) ++ 125 :: rest))) := by
      simp [joined, Item.written]
    rw [htext]
    cases items with
    | nil => exact members_last (chars_spells hkey _) (hvalue _ (ends_mark (by decide) (by decide)) fuel (by omega))
    | cons next items =>
      rw [flatMap_written, List.length_cons] at hlength
      rw [flatMap_written]
      have hnext := ih (List.cons_ne_nil _ _) (fun i hi => hkeys i (List.mem_cons_of_mem _ hi))
        (fun i hi => hvalues i (List.mem_cons_of_mem _ hi)) fuel (by omega)
      exact members_comma (chars_spells hkey _) (hvalue _ (ends_mark (by decide) (by decide)) fuel (by omega)) hnext

theorem exists_fuel {fuel : Nat} (hne : text ≠ []) (hfuel : text.length ≤ fuel) : ∃ k, fuel = k + 1 := by
  have hpos := List.length_pos_iff.mpr hne
  exact ⟨fuel - 1, by omega⟩

theorem sign_append_ne_nil (neg : Bool) (hne : text ≠ []) : sign neg ++ text ≠ [] :=
  List.append_ne_nil_of_right_ne_nil _ hne

/-- A number starts with a sign or a digit. -/
theorem head_number (neg : Bool) (htext : Numeral text) (rest : List UInt8) :
    ∃ c, (sign neg ++ text ++ rest).head? = some c ∧ (c = 45 ∨ isdigit c = true) := by
  cases neg with
  | true => exact ⟨45, rfl, .inl rfl⟩
  | false =>
    obtain ⟨c, tail, hcons⟩ := List.exists_cons_of_ne_nil htext.ne_nil
    rw [hcons]
    exact ⟨c, rfl, .inr (htext.digits c (by rw [hcons]; exact List.mem_cons_self))⟩

/-- What the grammar derives is decoded, also in front of more text. -/
theorem value_denotes {v : Document} (h : Denotes text v) :
    ∀ rest, Ends rest → ∀ fuel, text.length ≤ fuel → value fuel (text ++ rest) = some (v, rest) := by
  induction h with
  | bool b =>
    intro rest _ fuel hfuel
    cases b with
    | true =>
      obtain ⟨fuel, rfl⟩ := exists_fuel (List.cons_ne_nil _ _) hfuel
      rfl
    | false =>
      obtain ⟨fuel, rfl⟩ := exists_fuel (List.cons_ne_nil _ _) hfuel
      rfl
  | @whole neg text htext =>
    intro rest hrest fuel hfuel
    have hread := number_whole neg htext hrest
    obtain ⟨fuel, rfl⟩ := exists_fuel (sign_append_ne_nil neg htext.ne_nil) hfuel
    obtain ⟨c, hhead, hc⟩ := head_number neg htext.toNumeral rest
    rw [value_number hhead hc, hread]
    rfl
  | @point neg text frac htext hfrac =>
    intro rest hrest fuel hfuel
    have hread := number_point neg htext hfrac hrest
    obtain ⟨fuel, rfl⟩ := exists_fuel (List.append_ne_nil_of_right_ne_nil _ (List.cons_ne_nil _ _)) hfuel
    rw [List.append_assoc (sign neg ++ text)] at hread ⊢
    obtain ⟨c, hhead, hc⟩ := head_number neg htext.toNumeral (46 :: frac ++ rest)
    rw [value_number hhead hc, hread]
    rfl
  | @string text s h =>
    intro rest _ fuel hfuel
    obtain ⟨fuel, rfl⟩ := exists_fuel (List.cons_ne_nil _ _) hfuel
    have htext : 34 :: text ++ [34] ++ rest = 34 :: (text ++ 34 :: rest) := by simp
    rw [htext]
    exact value_string (chars_spells h rest)
  | object items hkeys _ ih =>
    intro rest hrest fuel hfuel
    obtain ⟨fuel, rfl⟩ := exists_fuel (List.cons_ne_nil _ _) hfuel
    cases items with
    | nil => rfl
    | cons item items =>
      have htext : 123 :: joined (item :: items) ++ [125] ++ rest = 123 :: (joined (item :: items) ++ 125 :: rest) := by
        simp
      have hbrace : (joined (item :: items) ++ 125 :: rest).head? ≠ some 125 := fun h => by cases h
      rw [List.length_append, List.length_cons] at hfuel
      rw [htext]
      exact value_object hbrace (members_items _ (List.cons_ne_nil _ _) hkeys ih fuel (by omega) rest)

/-- What the grammar derives is valid and has one meaning. -/
theorem decode_denotes {v : Document} (h : Denotes text v) : decode text = some v := by
  have hread := value_denotes h [] ⟨stops_nil, nofun⟩ text.length le_rfl
  rw [List.append_nil] at hread
  rw [decode, hread]
  rfl

theorem whole_ofNat (n : Nat) : Whole (ofNat n) := { numeral_ofNat n with zero := head_ofNat }

theorem denotes_ofNat (neg : Bool) (n : Nat) : Denotes (sign neg ++ ofNat n) (.number (signed neg n)) := by
  have h := Denotes.whole neg (whole_ofNat n)
  rwa [number_ofNat] at h

/-- A printed number is valid, with and without digits behind the point. -/
theorem denotes_fixed (prec : Nat) (neg : Bool) (mag : ℚ) :
    Denotes (fixed prec neg mag) (.number (signed neg (roundEven (mag * 10 ^ prec) / 10 ^ prec))) := by
  by_cases hprec : prec = 0
  · subst hprec
    rw [fixed, point_zero, pow_zero, div_one]
    exact denotes_ofNat neg _
  · have hfrac : Numeral (padded prec (roundEven (mag * 10 ^ prec) % 10 ^ prec)) := numeral_padded hprec _
    have h := Denotes.point neg (whole_ofNat (roundEven (mag * 10 ^ prec) / 10 ^ prec)) hfrac
    rw [length_padded, value_point] at h
    rwa [fixed, point_pos hprec, ← List.append_assoc]

end Values

section Decoder

/-- The strings of an array to the bracket that ends it. -/
@[grind =] def elements : Nat → List UInt8 → Option (List (List UInt8) × List UInt8)
  | 0, _ => none
  | fuel + 1, text =>
    if text.head? = some 34 then do
      let (s, text) ← chars text.tail
      if text.head? = some 93 then some ([s], text.tail)
      else if text.head? = some 44 then
        let (ss, text) ← elements fuel text.tail
        some (s :: ss, text)
      else none
    else none

/-- The strings of which the whole text is an array, if it is a valid one. -/
def strings (text : List UInt8) : Option (List (List UInt8)) :=
  if text.head? = some 91 then
    if text.tail = [93] then some []
    else do
      let (ss, rest) ← elements text.length text.tail
      if rest = [] then some ss else none
  else none

end Decoder

section Grammar

/-- What stands between the quotes, with the quotes. -/
def quoted (spelled : List UInt8) : List UInt8 := 34 :: spelled ++ [34]

/-- Strings with commas between them. -/
def listed : List (List UInt8) → List UInt8
  | [] => []
  | spelled :: rest => quoted spelled ++ rest.flatMap fun spelled => 44 :: quoted spelled

theorem listed_concat (texts : List (List UInt8)) (text : List UInt8) :
    listed (texts ++ [text]) = listed texts ++ (if texts = [] then [] else [44]) ++ quoted text := by
  cases texts with
  | nil => simp [listed]
  | cons first rest => simp [listed]

end Grammar

section Step

variable {text more rest s : List UInt8} {ss : List (List UInt8)} {fuel : Nat}

theorem elements_last (hread : chars text = some (s, 93 :: rest)) :
    elements (fuel + 1) (34 :: text) = some ([s], rest) := by
  simp [elements, hread]

theorem elements_comma (hread : chars text = some (s, 44 :: more)) (hmore : elements fuel more = some (ss, rest)) :
    elements (fuel + 1) (34 :: text) = some (s :: ss, rest) := by
  simp [elements, hread, hmore]

end Step

/-- The strings of a list are decoded to its end. -/
theorem elements_listed {texts ss : List (List UInt8)} (h : List.Forall₂ Spells texts ss) (hne : texts ≠ [])
    (fuel : Nat) (hfuel : texts.length ≤ fuel) (rest : List UInt8) :
    elements fuel (listed texts ++ 93 :: rest) = some (ss, rest) := by
  induction h generalizing fuel with
  | nil => exact absurd rfl hne
  | @cons text s texts ss hspells h ih =>
    rw [List.length_cons] at hfuel
    obtain ⟨fuel, rfl⟩ : ∃ k, fuel = k + 1 := ⟨fuel - 1, by omega⟩
    cases texts with
    | nil =>
      cases h
      have htext : listed [text] ++ 93 :: rest = 34 :: (text ++ 34 :: 93 :: rest) := by simp [listed, quoted]
      rw [htext]
      exact elements_last (chars_spells hspells _)
    | cons next texts =>
      have htext : listed (text :: next :: texts) ++ 93 :: rest =
          34 :: (text ++ 34 :: 44 :: (listed (next :: texts) ++ 93 :: rest)) := by
        simp [listed, quoted]
      rw [htext]
      exact elements_comma (chars_spells hspells _) (ih (List.cons_ne_nil _ _) fuel (by omega))

theorem length_le_length_listed (texts : List (List UInt8)) : texts.length ≤ (listed texts).length := by
  induction texts using List.reverseRecOn with
  | nil => exact Nat.zero_le _
  | append_singleton texts text ih =>
    rw [listed_concat, List.length_append, List.length_append, List.length_append, List.length_singleton, quoted,
      List.length_append, List.length_cons]
    omega

/-- An array of strings is valid and decodes to them. -/
theorem strings_listed {texts ss : List (List UInt8)} (h : List.Forall₂ Spells texts ss) :
    strings (91 :: listed texts ++ [93]) = some ss := by
  cases texts with
  | nil =>
    cases h
    rfl
  | cons text texts =>
    have hlength := length_le_length_listed (text :: texts)
    have hread := elements_listed h (List.cons_ne_nil _ _) (91 :: listed (text :: texts) ++ [93]).length
      (hlength.trans (by rw [List.length_append, List.length_cons (a := 91)]; omega)) []
    have hne : listed (text :: texts) ++ [93] ≠ [93] := fun hnil => by cases hnil
    rw [strings, List.cons_append, List.head?_cons, if_pos rfl, List.tail_cons, if_neg hne, ← List.cons_append, hread]
    rfl

end CompactJson
