import DuneWeaver.Binary32.Words
import DuneWeaver.Reading.Longest

open Ascii Reading

namespace Binary32

/-- What may stand in front of a number. -/
inductive Sign
  | plain
  | plus
  | minus

def Sign.text : Sign → List UInt8
  | plain => []
  | plus => [43]
  | minus => [45]

def Sign.neg : Sign → Bool
  | minus => true
  | _ => false

/-- A whole number with its sign. -/
def whole (neg : Bool) (digits : List UInt8) : Int :=
  if neg then -(Decimal.number digits : Int) else Decimal.number digits

/-- A whole number as it is written: digits behind a sign or without. -/
def Integer (text : List UInt8) (n : Int) : Prop :=
  ∃ (sign : Sign) (digits : List UInt8), text = sign.text ++ digits ∧
    (digits ≠ [] ∧ ∀ c ∈ digits, isdigit c = true) ∧ whole sign.neg digits = n

/-- The whole number in front. -/
def integer (text : List UInt8) : Option (Int × List UInt8) :=
  let (neg, rest) := signed text
  let power := rest.takeWhile isdigit
  if power = [] then none else some (whole neg power, rest.dropWhile isdigit)

/-- Digits with at most one point between them. -/
structure Mantissa (digit : UInt8 → Bool) (text whole frac : List UInt8) : Prop where
  hwhole : ∀ c ∈ whole, digit c = true
  hfrac : ∀ c ∈ frac, digit c = true
  hdigits : ¬(whole = [] ∧ frac = [])
  htext : text = whole ∧ frac = [] ∨ text = whole ++ 46 :: frac

/-- An exponent as it is written, or none. -/
def Exponent (letter : UInt8) (text : List UInt8) (power : Int) : Prop :=
  text = [] ∧ power = 0 ∨ ∃ c tail, text = c :: tail ∧ tolower c = letter ∧ Integer tail power

/-- A number in digits, which its mantissa and its exponent make. -/
def Written {β : Type*} (digit : UInt8 → Bool) (letter : UInt8) (value : List UInt8 → List UInt8 → Int → β)
    (text : List UInt8) (v : β) : Prop :=
  ∃ front back whole frac power, text = front ++ back ∧ Mantissa digit front whole frac ∧ Exponent letter back power ∧
    value whole frac power = v

def isHexDigit (c : UInt8) : Bool := (hexDigit c).isSome

def decimalValue (whole frac : List UInt8) (power : Int) : ℚ :=
  Decimal.number (whole ++ frac) * (10 : ℚ) ^ (power - frac.length)

def hexadecimalValue (whole frac : List UInt8) (power : Int) : ℚ :=
  hexNumber (whole ++ frac) * (2 : ℚ) ^ (power - 4 * frac.length)

/-- A number without a sign as it is written, in decimal or behind `0x`. -/
def Magnitudes (text : List UInt8) (q : ℚ) : Prop :=
  Written isdigit 101 decimalValue text q ∨
    ∃ front digits, text = front ++ digits ∧ front.length = 2 ∧ front.map tolower = [48, 120] ∧
      Written isHexDigit 112 hexadecimalValue digits q

/-- The rational number that a number stands for as it is written. -/
def Denotes (text : List UInt8) (neg : Bool) (q : ℚ) : Prop :=
  ∃ (sign : Sign) (body : List UInt8), text = sign.text ++ body ∧ sign.neg = neg ∧ Magnitudes body q

/-- A number as it is written, with the value that it rounds to. -/
def Literal (text : List UInt8) (v : Value) : Prop := ∃ neg q, Denotes text neg q ∧ round neg q = v

section Signs

variable {β : Type*} {text behind : List UInt8}

theorem signed_cases (text : List UInt8) : ∃ sign : Sign, text = sign.text ++ (signed text).2 ∧
    (signed text).1 = sign.neg := by
  unfold signed
  split_ifs with hminus hplus
  · obtain ⟨tail, rfl⟩ := List.head?_eq_some_iff.mp hminus
    exact ⟨.minus, rfl, rfl⟩
  · obtain ⟨tail, rfl⟩ := List.head?_eq_some_iff.mp hplus
    exact ⟨.plus, rfl, rfl⟩
  · exact ⟨.plain, rfl, rfl⟩

theorem signed_suffix (text : List UInt8) : (signed text).2 <:+ text := by
  obtain ⟨sign, htext, _⟩ := signed_cases text
  exact ⟨sign.text, htext.symm⟩

theorem signed_text (sign : Sign) {body : List UInt8} (hminus : body.head? ≠ some 45) (hplus : body.head? ≠ some 43) :
    signed (sign.text ++ body) = (sign.neg, body) := by
  cases sign with
  | plain =>
    unfold signed
    rw [Sign.text, List.nil_append, if_neg hminus, if_neg hplus]
    rfl
  | plus => rfl
  | minus => rfl

theorem signed_append (hne : text ≠ []) (behind : List UInt8) :
    signed (text ++ behind) = ((signed text).1, (signed text).2 ++ behind) := by
  obtain ⟨c, tail, rfl⟩ := List.exists_cons_of_ne_nil hne
  unfold signed
  rw [List.cons_append, List.head?_cons, List.head?_cons]
  split_ifs
  · rfl
  · rfl
  · rfl

/-- A reader of what may have a sign. -/
theorem lawful_signed {Reads : Bool → List UInt8 → β → Prop} {read : Bool → List UInt8 → Option (β × List UInt8)}
    (h : ∀ neg, Lawful (Reads neg) (read neg))
    (hhead : ∀ {neg text v}, Reads neg text v → text.head? ≠ some 45 ∧ text.head? ≠ some 43) :
    Lawful (fun text v => ∃ (sign : Sign) (body : List UInt8), text = sign.text ++ body ∧ Reads sign.neg body v)
      (fun text => read (signed text).1 (signed text).2) where
  whole := by
    intro text v
    constructor
    · intro hread
      obtain ⟨sign, htext, hneg⟩ := signed_cases text
      rw [hneg] at hread
      exact ⟨sign, (signed text).2, htext, (h sign.neg).whole.mp hread⟩
    · rintro ⟨sign, body, rfl, hreads⟩
      rw [signed_text sign (hhead hreads).1 (hhead hreads).2]
      exact (h sign.neg).whole.mpr hreads
  suffix hread := ((h _).suffix hread).trans (signed_suffix _)
  moves hread := ((h _).moves hread).trans_le (signed_suffix _).length_le
  front := by
    intro text behind v rest hread
    by_cases hne : text = []
    · subst hne
      have hmoves := (h _).moves hread
      have hlength := (signed_suffix ([] ++ behind)).length_le
      simp only [List.nil_append, List.length_append] at hmoves hlength
      omega
    · rw [signed_append hne] at hread
      exact (h _).front hread
  grows := by
    intro text behind hnone
    by_cases hne : text = []
    · subst hne
      cases hread : read (signed []).1 (signed []).2 with
      | none => rfl
      | some result => exact absurd ((h _).moves hread) (Nat.not_lt_zero _)
    · rw [signed_append hne] at hnone
      exact (h _).grows behind hnone

theorem head_digit {digits : List UInt8} (hdigits : digits ≠ [] ∧ ∀ c ∈ digits, isdigit c = true) :
    digits.head? ≠ some 45 ∧ digits.head? ≠ some 43 := by
  obtain ⟨c, tail, rfl⟩ := List.exists_cons_of_ne_nil hdigits.1
  have hc := hdigits.2 c List.mem_cons_self
  simp only [List.head?_cons, ne_eq, Option.some.injEq]
  constructor
  · rintro rfl
    exact absurd hc (by decide)
  · rintro rfl
    exact absurd hc (by decide)

theorem lawful_integer : Lawful Integer integer :=
  lawful_signed (fun neg => lawful_run isdigit (whole neg)) (fun hreads => head_digit hreads.1)

end Signs

section Mantissas

variable {digit : UInt8 → Bool} {text behind rest front back : List UInt8}

/-- The mantissa in front, with what is behind it last. -/
def readMantissa (digit : UInt8 → Bool) (text : List UInt8) : Option ((List UInt8 × List UInt8) × List UInt8) :=
  (mantissa digit text).map fun read => ((read.1, read.2.1), read.2.2)

theorem readMantissa_point (h : text.dropWhile digit = 46 :: rest) :
    readMantissa digit text = if text.takeWhile digit = [] ∧ rest.takeWhile digit = [] then none
      else some ((text.takeWhile digit, rest.takeWhile digit), rest.dropWhile digit) := by
  unfold readMantissa mantissa
  dsimp only
  rw [h, List.head?_cons, List.tail_cons, if_pos rfl, if_pos rfl, apply_ite (Option.map _)]
  rfl

theorem readMantissa_plain (h : (text.dropWhile digit).head? ≠ some 46) :
    readMantissa digit text = if text.takeWhile digit = [] then none
      else some ((text.takeWhile digit, []), text.dropWhile digit) := by
  unfold readMantissa mantissa
  dsimp only
  rw [if_neg h, if_neg h, apply_ite (Option.map _)]
  simp only [and_true]
  rfl

/-- The two forms of a mantissa that is read: with a point, and without. -/
theorem readMantissa_cases (hread : readMantissa digit text = some ((front, back), rest)) :
    (∃ tail, text.dropWhile digit = 46 :: tail ∧ ¬(text.takeWhile digit = [] ∧ tail.takeWhile digit = []) ∧
      text.takeWhile digit = front ∧ tail.takeWhile digit = back ∧ tail.dropWhile digit = rest) ∨
    ((text.dropWhile digit).head? ≠ some 46 ∧ text.takeWhile digit ≠ [] ∧ text.takeWhile digit = front ∧ [] = back ∧
      text.dropWhile digit = rest) := by
  by_cases hpoint : (text.dropWhile digit).head? = some 46
  · obtain ⟨tail, htail⟩ := List.head?_eq_some_iff.mp hpoint
    rw [readMantissa_point htail, Option.ite_none_left_eq_some] at hread
    obtain ⟨hne, heq⟩ := hread
    cases heq
    exact .inl ⟨tail, htail, hne, rfl, rfl, rfl⟩
  · rw [readMantissa_plain hpoint, Option.ite_none_left_eq_some] at hread
    obtain ⟨hne, heq⟩ := hread
    cases heq
    exact .inr ⟨hpoint, hne, rfl, rfl, rfl⟩

theorem takeWhile_stop {c : UInt8} (hall : ∀ d ∈ front, digit d = true) (hc : digit c = false) (rest : List UInt8) :
    (front ++ c :: rest).takeWhile digit = front ∧ (front ++ c :: rest).dropWhile digit = c :: rest := by
  have hneg : ¬digit c = true := by rw [hc]; exact Bool.false_ne_true
  rw [List.takeWhile_append_of_pos hall, List.takeWhile_cons_of_neg hneg, List.append_nil,
    List.dropWhile_append_of_pos hall, List.dropWhile_cons_of_neg hneg]
  exact ⟨rfl, rfl⟩

theorem takeWhile_all (hall : ∀ d ∈ front, digit d = true) :
    front.takeWhile digit = front ∧ front.dropWhile digit = [] :=
  ⟨List.takeWhile_eq_self_iff.mpr hall, List.dropWhile_eq_nil_iff.mpr hall⟩

/-- What follows the point is read as what is in front of it was. -/
theorem readMantissa_front (hread : readMantissa digit (text ++ behind) = some ((front, back), rest ++ behind)) :
    readMantissa digit text = some ((front, back), rest) := by
  obtain ⟨tail, htail, hne, hfront, hback, hrest⟩ | ⟨hpoint, hne, hfront, hback, hrest⟩ := readMantissa_cases hread
  · -- the point and what is behind it are not part of the end
    have hsuffix : rest ++ behind <:+ tail := hrest ▸ List.dropWhile_suffix digit
    have hcons : tail <:+ text ++ behind := (List.suffix_cons 46 tail).trans (htail ▸ List.dropWhile_suffix digit)
    obtain ⟨middle, hmiddle, _⟩ := suffix_split hsuffix hcons
    rw [hmiddle] at htail hrest hback hne
    have hdrop : (text ++ behind).dropWhile digit = (46 :: (middle ++ rest)) ++ behind := htail
    obtain ⟨htext, htake⟩ := dropWhile_front hdrop
    obtain ⟨hrest', htake'⟩ := dropWhile_front hrest
    rw [htake] at hfront hne
    rw [htake'] at hback hne
    rw [readMantissa_point htext, if_neg hne, hfront, hback, hrest']
  · obtain ⟨htext, htake⟩ := dropWhile_front hrest
    rw [htake] at hfront hne
    have hplain : (text.dropWhile digit).head? ≠ some 46 := by
      rw [htext]
      intro hhead
      apply hpoint
      rw [hrest, List.head?_append, hhead]
      rfl
    rw [readMantissa_plain hplain, if_neg hne, hfront, htext, hback]

/-- A mantissa has a digit in front, or a point and a digit. -/
theorem readMantissa_none_iff (hdot : digit 46 = false) : readMantissa digit text = none ↔
    ∀ c tail, digit c = true → text ≠ c :: tail ∧ text ≠ 46 :: c :: tail := by
  have hnot : ¬digit 46 = true := by rw [hdot]; exact Bool.false_ne_true
  cases text with
  | nil => simp [readMantissa, mantissa]
  | cons c text =>
    by_cases hc : digit c = true
    · apply iff_of_false
      · by_cases hpoint : ((c :: text).dropWhile digit).head? = some 46
        · obtain ⟨tail, htail⟩ := List.head?_eq_some_iff.mp hpoint
          rw [readMantissa_point htail, List.takeWhile_cons_of_pos hc]
          simp
        · rw [readMantissa_plain hpoint, List.takeWhile_cons_of_pos hc]
          simp
      · intro h
        exact (h c text hc).1 rfl
    · have htake : (c :: text).takeWhile digit = [] := List.takeWhile_cons_of_neg hc
      have hdrop : (c :: text).dropWhile digit = c :: text := List.dropWhile_cons_of_neg hc
      by_cases hpoint : c = 46
      · subst hpoint
        have hother : ∀ {d}, digit d = true → d ≠ 46 := by
          rintro d hd rfl
          exact hnot hd
        rw [readMantissa_point hdrop, htake]
        cases text with
        | nil =>
          refine iff_of_true rfl fun d tail hd => ⟨fun heq => ?_, fun heq => ?_⟩
          · exact hother hd (List.cons.inj heq).1.symm
          · cases heq
        | cons d text =>
          by_cases hd : digit d = true
          · rw [List.takeWhile_cons_of_pos hd, if_neg (by simp)]
            exact iff_of_false (Option.some_ne_none _) fun h => (h d text hd).2 rfl
          · rw [List.takeWhile_cons_of_neg hd, if_pos ⟨rfl, rfl⟩]
            refine iff_of_true rfl fun e tail he => ⟨fun heq => ?_, fun heq => ?_⟩
            · exact hother he (List.cons.inj heq).1.symm
            · rw [(List.cons.inj (List.cons.inj heq).2).1] at hd
              exact hd he
      · rw [readMantissa_plain (by rw [hdrop]; simpa using hpoint), htake, if_pos rfl]
        refine iff_of_true rfl fun d tail hd => ⟨?_, ?_⟩
        · rintro heq
          rw [(List.cons.inj heq).1] at hc
          exact hc hd
        · rintro heq
          exact hpoint (List.cons.inj heq).1

theorem lawful_mantissa (hdot : digit 46 = false) :
    Lawful (fun text read => Mantissa digit text read.1 read.2) (readMantissa digit) where
  whole := by
    rintro text ⟨front, back⟩
    constructor
    · intro hread
      obtain ⟨tail, htail, hne, rfl, rfl, hrest⟩ | ⟨_, hne, rfl, rfl, hrest⟩ := readMantissa_cases hread
      · have hall := List.dropWhile_eq_nil_iff.mp hrest
        have hsplit := List.takeWhile_append_dropWhile (p := digit) (l := text)
        rw [(takeWhile_all hall).1] at hne ⊢
        rw [htail] at hsplit
        exact ⟨fun c hc => List.mem_takeWhile_imp hc, hall, hne, .inr hsplit.symm⟩
      · have hall := List.dropWhile_eq_nil_iff.mp hrest
        have hself := (takeWhile_all hall).1
        rw [hself] at hne ⊢
        exact ⟨hall, fun c hc => absurd hc List.not_mem_nil, fun hboth => hne hboth.1, .inl ⟨rfl, rfl⟩⟩
    · rintro ⟨hfront, hback, hne, ⟨rfl, rfl⟩ | rfl⟩
      · obtain ⟨htake, hdrop⟩ := takeWhile_all hfront
        rw [readMantissa_plain (by rw [hdrop]; simp), htake, hdrop, if_neg fun hnil => hne ⟨hnil, rfl⟩]
      · obtain ⟨htake, hdrop⟩ := takeWhile_stop hfront hdot back
        obtain ⟨htake', hdrop'⟩ := takeWhile_all hback
        dsimp only at htake hdrop htake' hdrop' hne ⊢
        rw [readMantissa_point hdrop, htake, htake', hdrop', if_neg hne]
  suffix := by
    rintro text ⟨front, back⟩ rest hread
    obtain ⟨tail, htail, _, _, _, rfl⟩ | ⟨_, _, _, _, rfl⟩ := readMantissa_cases hread
    · have hpoint : 46 :: tail <:+ text := htail ▸ List.dropWhile_suffix digit
      exact (List.dropWhile_suffix digit).trans ((List.suffix_cons 46 tail).trans hpoint)
    · exact List.dropWhile_suffix digit
  moves := by
    rintro text ⟨front, back⟩ rest hread
    have hsplit := congrArg List.length (List.takeWhile_append_dropWhile (p := digit) (l := text))
    rw [List.length_append] at hsplit
    obtain ⟨tail, htail, _, _, _, rfl⟩ | ⟨_, hne, _, _, rfl⟩ := readMantissa_cases hread
    · have hlength := (List.dropWhile_suffix digit (l := tail)).length_le
      rw [htail, List.length_cons] at hsplit
      omega
    · have hpos := List.length_pos_of_ne_nil hne
      omega
  front hread := readMantissa_front hread
  grows := by
    intro text behind hnone
    rw [readMantissa_none_iff hdot] at hnone ⊢
    intro c tail hc
    obtain ⟨hfirst, hsecond⟩ := hnone c (tail ++ behind) hc
    exact ⟨fun heq => hfirst (by rw [heq]; rfl), fun heq => hsecond (by rw [heq]; rfl)⟩

end Mantissas

section Exponents

variable {β : Type*} {letter : UInt8} {digit : UInt8 → Bool} {text behind rest front back : List UInt8} {c : UInt8}
  {power : Int}

theorem exponent_nil : exponent letter [] = (0, []) := by
  unfold exponent
  exact if_neg fun h => by cases h.1

theorem exponent_cons : exponent letter (c :: text) =
    if tolower c = letter then (integer text).getD (0, c :: text) else (0, c :: text) := by
  unfold exponent integer
  dsimp only
  rw [List.head?_cons, Option.map_some, List.tail_cons]
  by_cases hletter : tolower c = letter
  · rw [if_pos hletter]
    by_cases hpower : (signed text).2.takeWhile isdigit = []
    · rw [if_neg fun h => h.2 hpower, if_pos hpower]
      rfl
    · rw [if_pos ⟨congrArg some hletter, hpower⟩, if_neg hpower]
      rfl
  · rw [if_neg hletter, if_neg fun h => hletter (Option.some.inj h.1)]

theorem exponent_whole : exponent letter text = (power, []) ↔ Exponent letter text power := by
  cases text with
  | nil =>
    rw [exponent_nil]
    constructor
    · intro h
      exact .inl ⟨rfl, (Prod.mk.inj h).1.symm⟩
    · rintro (⟨_, rfl⟩ | ⟨c, tail, heq, _⟩)
      · rfl
      · cases heq
  | cons c text =>
    rw [exponent_cons]
    constructor
    · intro h
      by_cases hletter : tolower c = letter
      · rw [if_pos hletter] at h
        cases hread : integer text with
        | none =>
          rw [hread] at h
          cases (Prod.mk.inj h).2
        | some result =>
          rw [hread] at h
          obtain ⟨n, rest⟩ := result
          obtain ⟨rfl, rfl⟩ := Prod.mk.inj h
          exact .inr ⟨c, text, rfl, hletter, lawful_integer.whole.mp hread⟩
      · rw [if_neg hletter] at h
        cases (Prod.mk.inj h).2
    · rintro (⟨heq, _⟩ | ⟨d, tail, heq, hletter, hinteger⟩)
      · cases heq
      · obtain ⟨rfl, rfl⟩ := List.cons.inj heq
        rw [if_pos hletter, lawful_integer.whole.mpr hinteger]
        rfl

theorem exponent_suffix (letter : UInt8) (text : List UInt8) : (exponent letter text).2 <:+ text := by
  cases text with
  | nil => exact List.nil_suffix
  | cons c text =>
    rw [exponent_cons]
    split
    · cases hread : integer text with
      | none => exact List.suffix_rfl
      | some result => exact (lawful_integer.suffix hread).trans (List.suffix_cons c text)
    · exact List.suffix_rfl

theorem exponent_front (h : exponent letter (text ++ behind) = (power, rest ++ behind)) :
    exponent letter text = (power, rest) := by
  cases text with
  | nil =>
    have hsuffix := exponent_suffix letter behind
    rw [List.nil_append] at h
    rw [h] at hsuffix
    have hnil : rest = [] := by
      have hlength := hsuffix.length_le
      rw [List.length_append] at hlength
      exact List.eq_nil_of_length_eq_zero (by omega)
    subst hnil
    cases behind with
    | nil => exact h
    | cons c behind =>
      rw [exponent_cons] at h
      have hzero : power = 0 := by
        split at h
        · cases hread : integer behind with
          | none =>
            rw [hread] at h
            exact (Prod.mk.inj h).1.symm
          | some result =>
            rw [hread] at h
            have hmoves := lawful_integer.moves (hread.trans (congrArg some h))
            simp only [List.nil_append, List.length_cons] at hmoves
            omega
        · exact (Prod.mk.inj h).1.symm
      rw [exponent_nil, hzero]
  | cons c text =>
    rw [List.cons_append, exponent_cons] at h
    rw [exponent_cons]
    by_cases hletter : tolower c = letter
    · rw [if_pos hletter] at h ⊢
      cases hread : integer (text ++ behind) with
      | none =>
        rw [hread] at h
        rw [lawful_integer.grows behind hread]
        obtain ⟨rfl, heq⟩ := Prod.mk.inj h
        have hrest : c :: text = rest := List.append_cancel_right heq
        rw [← hrest]
        rfl
      | some result =>
        rw [hread] at h
        have hfront := lawful_integer.front (hread.trans (congrArg some h))
        rw [hfront]
        rfl
    · rw [if_neg hletter] at h ⊢
      obtain ⟨rfl, heq⟩ := Prod.mk.inj h
      have hrest : c :: text = rest := List.append_cancel_right heq
      rw [← hrest]

/-- What the numbers do with an exponent behind their mantissa. -/
theorem lawful_exponent (letter : UInt8) (value : List UInt8 → List UInt8 → Int → β) :
    LawfulEnd
      (fun (a : List UInt8 × List UInt8) text v => ∃ power, Exponent letter text power ∧ value a.1 a.2 power = v)
      (fun a text => (value a.1 a.2 (exponent letter text).1, (exponent letter text).2)) where
  whole := by
    intro a text v
    rw [Prod.mk.injEq]
    constructor
    · rintro ⟨hvalue, hrest⟩
      refine ⟨(exponent letter text).1, exponent_whole.mp ?_, hvalue⟩
      rw [← hrest]
    · rintro ⟨power, hexponent, hvalue⟩
      rw [exponent_whole.mpr hexponent]
      exact ⟨hvalue, rfl⟩
  suffix := by
    intro a text v rest h
    rw [← (Prod.mk.inj h).2]
    exact exponent_suffix letter text
  front := by
    intro a text behind v rest h
    obtain ⟨hvalue, hrest⟩ := Prod.mk.inj h
    have hfront : exponent letter text = ((exponent letter (text ++ behind)).1, rest) := by
      apply exponent_front
      rw [← hrest]
    rw [hfront]
    exact Prod.mk.injEq _ _ _ _ ▸ ⟨hvalue, rfl⟩

/-- The letter of an exponent ends a mantissa. -/
theorem mantissa_stops (hletter : ∀ c, tolower c = letter → digit c = false ∧ c ≠ 46)
    (hexponent : Exponent letter back power) :
    ¬GoesOn (fun text (read : List UInt8 × List UInt8) => Mantissa digit text read.1 read.2) front back := by
  rintro ⟨longer, rest, ⟨whole, frac⟩, heq, hlonger, hwhole, hfrac, _, htext⟩
  dsimp only at hwhole hfrac htext
  have hchars : ∀ c ∈ longer, digit c = true ∨ c = 46 := by
    rcases htext with ⟨rfl, _⟩ | rfl
    · exact fun c hc => .inl (hwhole c hc)
    · intro c hc
      rcases List.mem_append.mp hc with hc | hc
      · exact .inl (hwhole c hc)
      · rcases List.mem_cons.mp hc with rfl | hc
        · exact .inr rfl
        · exact .inl (hfrac c hc)
  rcases hexponent with ⟨rfl, _⟩ | ⟨c, tail, rfl, hc, _⟩
  · have hlength := congrArg List.length heq
    simp only [List.append_nil, List.length_append] at hlength
    omega
  · have hat : longer[front.length]? = some c := by
      have hget : (front ++ c :: tail)[front.length]? = some c := by
        rw [List.getElem?_append_right (Nat.le_refl _), Nat.sub_self]
        rfl
      rw [heq, List.getElem?_append_left hlonger] at hget
      exact hget
    obtain ⟨hdigit, hpoint⟩ := hletter c hc
    rcases hchars c (List.mem_of_getElem? hat) with hyes | hyes
    · rw [hdigit] at hyes
      cases hyes
    · exact hpoint hyes

/-- A mantissa with an exponent behind it. -/
def readWritten (digit : UInt8 → Bool) (letter : UInt8) (value : List UInt8 → List UInt8 → Int → β)
    (text : List UInt8) : Option (β × List UInt8) :=
  (readMantissa digit text).map fun read =>
    (value read.1.1 read.1.2 (exponent letter read.2).1, (exponent letter read.2).2)

theorem lawful_written (digit : UInt8 → Bool) (letter : UInt8) (hdot : digit 46 = false)
    (hletter : ∀ c, tolower c = letter → digit c = false ∧ c ≠ 46)
    (value : List UInt8 → List UInt8 → Int → β) :
    Lawful (Written digit letter value) (readWritten digit letter value) := by
  have hlaws := (lawful_mantissa hdot).andThen (lawful_exponent letter value)
    (fun _ hend => mantissa_stops hletter hend.choose_spec.1)
  have hreads : Written digit letter value = fun text v => ∃ front back, ∃ a : List UInt8 × List UInt8,
      text = front ++ back ∧ Mantissa digit front a.1 a.2 ∧
        ∃ power, Exponent letter back power ∧ value a.1 a.2 power = v := by
    funext text v
    apply propext
    constructor
    · rintro ⟨front, back, whole, frac, power, htext, hmantissa, hexponent, hvalue⟩
      exact ⟨front, back, (whole, frac), htext, hmantissa, power, hexponent, hvalue⟩
    · rintro ⟨front, back, ⟨whole, frac⟩, htext, hmantissa, power, hexponent, hvalue⟩
      exact ⟨front, back, whole, frac, power, htext, hmantissa, hexponent, hvalue⟩
  rw [hreads]
  exact hlaws

end Exponents

section Words

variable {β : Type*} {word text behind rest : List UInt8} {v : β}

theorem keyword_eq (word text : List UInt8) : keyword word text =
    if (text.take word.length).map tolower = word ∧ word.length ≤ text.length then some (text.drop word.length)
    else none := by
  unfold keyword
  by_cases hword : (text.take word.length).map tolower = word
  · have hlength := congrArg List.length hword
    rw [List.length_map, List.length_take] at hlength
    rw [if_pos hword, if_pos ⟨hword, by omega⟩]
  · rw [if_neg hword, if_neg fun h => hword h.1]

/-- A word in letters of either case. -/
theorem lawful_keyword (word : List UInt8) (hne : word ≠ []) (v : β) :
    Lawful (fun text w => text.map tolower = word ∧ v = w)
      (fun text => (keyword word text).map fun rest => (v, rest)) where
  whole := by
    intro text w
    rw [keyword_eq, Option.map_eq_some_iff]
    constructor
    · rintro ⟨rest, hread, hpair⟩
      rw [Option.ite_none_right_eq_some, Option.some.injEq] at hread
      obtain ⟨⟨hword, _⟩, hrest⟩ := hread
      obtain ⟨rfl, rfl⟩ := Prod.mk.inj hpair
      rw [List.take_of_length_le (List.drop_eq_nil_iff.mp hrest)] at hword
      exact ⟨hword, rfl⟩
    · rintro ⟨rfl, rfl⟩
      rw [List.length_map, List.take_of_length_le (Nat.le_refl _), if_pos ⟨rfl, Nat.le_refl _⟩]
      exact ⟨[], by rw [List.drop_eq_nil_of_le (Nat.le_refl _)], rfl⟩
  suffix := by
    intro text w rest hread
    rw [keyword_eq] at hread
    obtain ⟨left, hread, hpair⟩ := Option.map_eq_some_iff.mp hread
    rw [Option.ite_none_right_eq_some, Option.some.injEq] at hread
    rw [← (Prod.mk.inj hpair).2, ← hread.2]
    exact List.drop_suffix _ _
  moves := by
    intro text w rest hread
    rw [keyword_eq] at hread
    obtain ⟨left, hread, hpair⟩ := Option.map_eq_some_iff.mp hread
    rw [Option.ite_none_right_eq_some, Option.some.injEq] at hread
    rw [← (Prod.mk.inj hpair).2, ← hread.2, List.length_drop]
    have hpos := List.length_pos_of_ne_nil hne
    omega
  front := by
    intro text behind w rest hread
    rw [keyword_eq] at hread ⊢
    obtain ⟨left, hread, hpair⟩ := Option.map_eq_some_iff.mp hread
    rw [Option.ite_none_right_eq_some, Option.some.injEq] at hread
    obtain ⟨⟨hword, hlength⟩, hleft⟩ := hread
    obtain ⟨rfl, rfl⟩ := Prod.mk.inj hpair
    have hshort : word.length ≤ text.length := by
      have hlengths := congrArg List.length hleft
      rw [List.length_drop, List.length_append, List.length_append] at hlengths
      rw [List.length_append] at hlength
      omega
    rw [List.take_append_of_le_length hshort] at hword
    rw [List.drop_append_of_le_length hshort] at hleft
    rw [if_pos ⟨hword, hshort⟩, List.append_cancel_right hleft]
    rfl
  grows := by
    intro text behind hnone
    rw [keyword_eq, Option.map_eq_none_iff, ite_eq_right_iff] at hnone ⊢
    rintro ⟨hword, hlength⟩
    refine absurd (hnone ⟨?_, ?_⟩) (Option.some_ne_none _)
    · rw [List.take_append_of_le_length hlength, hword]
    · rw [List.length_append]
      omega

/-- The word of an infinity. -/
def Infinity (text : List UInt8) : Prop :=
  text.map tolower = [105, 110, 102, 105, 110, 105, 116, 121] ∨ text.map tolower = [105, 110, 102]

theorem lawful_infinity (neg : Bool) : Lawful (fun text v => Infinity text ∧ Value.inf neg = v) (infinity neg) := by
  have hlong := lawful_keyword [105, 110, 102, 105, 110, 105, 116, 121] (by simp) (Value.inf neg)
  have hshort := lawful_keyword [105, 110, 102] (by simp) (Value.inf neg)
  have hlaws := hlong.orElse hshort (by
    rintro text v ⟨hword, _⟩
    rw [keyword_eq, if_neg]
    · rfl
    · rintro ⟨_, hlength⟩
      have hthree := congrArg List.length hword
      rw [List.length_map] at hthree
      rw [hthree] at hlength
      exact absurd hlength (by decide))
  have hread : infinity neg = fun text =>
      (keyword [105, 110, 102, 105, 110, 105, 116, 121] text).map (fun rest => (Value.inf neg, rest)) <|>
        (keyword [105, 110, 102] text).map fun rest => (Value.inf neg, rest) := by
    funext text
    unfold infinity
    cases keyword [105, 110, 102, 105, 110, 105, 116, 121] text with
    | none => rfl
    | some rest => rfl
  have hreads : (fun text v => Infinity text ∧ Value.inf neg = v) = fun text v =>
      (text.map tolower = [105, 110, 102, 105, 110, 105, 116, 121] ∧ Value.inf neg = v) ∨
        (text.map tolower = [105, 110, 102] ∧ Value.inf neg = v) := by
    funext text v
    exact propext or_and_right
  rw [hreads, hread]
  exact hlaws

/-- What may stand in the parentheses behind `nan`. -/
def payload (c : UInt8) : Bool := (hexDigit c).isSome || (97 ≤ tolower c && tolower c ≤ 122) || c = 95

/-- The part behind `nan`: nothing, or a word in parentheses. -/
def Payload (text : List UInt8) : Prop :=
  text = [] ∨ ∃ letters, text = 40 :: (letters ++ [41]) ∧ ∀ c ∈ letters, payload c = true

def readPayload (text : List UInt8) : List UInt8 :=
  if text.head? = some 40 ∧ (text.tail.dropWhile payload).head? = some 41 then (text.tail.dropWhile payload).tail
  else text

theorem readPayload_closed {letters : List UInt8} (hletters : ∀ c ∈ letters, payload c = true) (rest : List UInt8) :
    readPayload (40 :: (letters ++ 41 :: rest)) = rest := by
  have hdrop := (takeWhile_stop hletters (show payload 41 = false by decide) rest).2
  unfold readPayload
  rw [List.tail_cons, hdrop, if_pos ⟨rfl, rfl⟩]
  rfl

/-- A payload is closed, or it is not read. -/
theorem readPayload_cases (text : List UInt8) :
    (∃ letters rest, text = 40 :: (letters ++ 41 :: rest) ∧ (∀ c ∈ letters, payload c = true) ∧
      readPayload text = rest) ∨
      readPayload text = text := by
  by_cases hclosed : text.head? = some 40 ∧ (text.tail.dropWhile payload).head? = some 41
  · left
    obtain ⟨hopen, hclose⟩ := hclosed
    obtain ⟨tail, rfl⟩ := List.head?_eq_some_iff.mp hopen
    obtain ⟨rest, hrest⟩ := List.head?_eq_some_iff.mp hclose
    rw [List.tail_cons] at hrest
    have hsplit := List.takeWhile_append_dropWhile (p := payload) (l := tail)
    rw [hrest] at hsplit
    have hletters : ∀ c ∈ tail.takeWhile payload, payload c = true := fun c hc => List.mem_takeWhile_imp hc
    refine ⟨tail.takeWhile payload, rest, by rw [hsplit], hletters, ?_⟩
    rw [← hsplit]
    exact readPayload_closed hletters rest
  · exact .inr (if_neg hclosed)

theorem lawful_payload :
    LawfulEnd (fun (_ : Unit) text v => Payload text ∧ Value.nan = v)
      (fun _ text => (Value.nan, readPayload text)) where
  whole := by
    intro _ text v
    rw [Prod.mk.injEq, and_comm]
    apply and_congr_left
    intro _
    constructor
    · intro hread
      rcases readPayload_cases text with ⟨letters, rest, rfl, hletters, hrest⟩ | hself
      · rw [hread] at hrest
        exact .inr ⟨letters, by rw [← hrest], hletters⟩
      · rw [hread] at hself
        exact .inl hself.symm
    · rintro (rfl | ⟨letters, rfl, hletters⟩)
      · rfl
      · exact readPayload_closed hletters []
  suffix := by
    intro _ text v rest hread
    rw [← (Prod.mk.inj hread).2]
    rcases readPayload_cases text with ⟨letters, rest, rfl, _, hrest⟩ | hself
    · rw [hrest]
      exact ⟨40 :: (letters ++ [41]), by simp⟩
    · rw [hself]
  front := by
    intro _ text behind v rest hread
    obtain ⟨hvalue, hrest⟩ := Prod.mk.inj hread
    refine Prod.mk.injEq _ _ _ _ ▸ ⟨hvalue, ?_⟩
    rcases readPayload_cases (text ++ behind) with ⟨letters, left, htext, hletters, hleft⟩ | hself
    · rw [hrest] at hleft
      subst hleft
      have hfront : text = 40 :: (letters ++ 41 :: rest) := by
        have hwhole : text ++ behind = (40 :: (letters ++ 41 :: rest)) ++ behind := by
          rw [htext]
          simp
        exact List.append_cancel_right hwhole
      rw [hfront]
      exact readPayload_closed hletters rest
    · rw [hrest] at hself
      have hwhole : rest = text := List.append_cancel_right hself
      subst hwhole
      rcases readPayload_cases rest with ⟨letters, left, rfl, hletters, hleft⟩ | hself
      · have hmore := readPayload_closed hletters (left ++ behind)
        simp only [List.cons_append, List.append_assoc] at hrest
        rw [hrest] at hmore
        have hlength := congrArg List.length hmore
        simp only [List.length_cons, List.length_append] at hlength
        omega
      · exact hself

/-- The word of a NaN. -/
def NotANumber (text : List UInt8) : Prop :=
  ∃ front back, text = front ++ back ∧ front.map tolower = [110, 97, 110] ∧ Payload back

theorem lawful_notANumber : Lawful (fun text v => NotANumber text ∧ Value.nan = v) notANumber := by
  have hword := lawful_keyword [110, 97, 110] (by simp) ()
  have hlaws := hword.andThen lawful_payload (by
    rintro front back a v ⟨hfront, _⟩ _ ⟨longer, rest, w, _, hlonger, hword, _⟩
    have hthree := congrArg List.length hfront
    have hthree' := congrArg List.length hword
    rw [List.length_map] at hthree hthree'
    omega)
  have hread : notANumber = fun text => ((keyword [110, 97, 110] text).map fun rest => ((), rest)).map fun read =>
      (Value.nan, readPayload read.2) := by
    funext text
    unfold notANumber
    cases keyword [110, 97, 110] text with
    | none => rfl
    | some rest =>
      simp only [Option.bind_eq_bind, Option.bind_some, Option.map_some]
      unfold readPayload payload
      split
      · rfl
      · rfl
  have hreads : (fun text v => NotANumber text ∧ Value.nan = v) = fun text v => ∃ front back, ∃ a : Unit,
      text = front ++ back ∧ (front.map tolower = [110, 97, 110] ∧ () = a) ∧ Payload back ∧ Value.nan = v := by
    funext text v
    apply propext
    constructor
    · rintro ⟨⟨front, back, htext, hfront, hback⟩, hvalue⟩
      exact ⟨front, back, (), htext, ⟨hfront, rfl⟩, hback, hvalue⟩
    · rintro ⟨front, back, _, htext, ⟨hfront, _⟩, hback, hvalue⟩
      exact ⟨⟨front, back, htext, hfront, hback⟩, hvalue⟩
  rw [hreads, hread]
  exact hlaws

end Words

section Numbers

variable {β : Type*} {neg : Bool} {digit : UInt8 → Bool} {letter c : UInt8}
  {value : List UInt8 → List UInt8 → Int → β} {text : List UInt8} {v : Value} {b : β}

theorem lower_ne {a b : UInt8} (hc : tolower c = a) (hb : tolower b ≠ a) : c ≠ b := by
  rintro rfl
  exact hb hc

theorem exponent_letter (hlow : 97 ≤ letter) (hhigh : letter ≤ 122) (hc : tolower c = letter) :
    isdigit c = false ∧ c ≠ 46 := by
  have hnat := congrArg UInt8.toNat hc
  rw [toNat_tolower] at hnat
  rw [UInt8.le_iff_toNat_le] at hlow hhigh
  have hfirst : (97 : UInt8).toNat = 97 := rfl
  have hlast : (122 : UInt8).toNat = 122 := rfl
  constructor
  · rw [← Bool.not_eq_true, Decimal.isdigit_iff]
    split_ifs at hnat
    all_goals omega
  · rintro rfl
    have hpoint : (46 : UInt8).toNat = 46 := rfl
    split_ifs at hnat
    all_goals omega

theorem hex_letter (hc : tolower c = 112) : isHexDigit c = false ∧ c ≠ 46 := by
  obtain ⟨hdigit, hpoint⟩ := exponent_letter (by decide) (by decide) hc
  refine ⟨?_, hpoint⟩
  unfold isHexDigit hexDigit
  rw [if_neg, if_neg]
  · rfl
  · rw [hc]
    decide
  · intro hrange
    rw [isdigit, decide_eq_true hrange.1, decide_eq_true hrange.2] at hdigit
    cases hdigit

/-- A number in decimal, rounded. -/
def Decimals (neg : Bool) : List UInt8 → Value → Prop :=
  Written isdigit 101 fun whole frac power => round neg (decimalValue whole frac power)

/-- A number in hexadecimal behind its mark, rounded. -/
def Hexadecimals (neg : Bool) (text : List UInt8) (v : Value) : Prop :=
  ∃ front digits, text = front ++ digits ∧ front.length = 2 ∧ front.map tolower = [48, 120] ∧
    Written isHexDigit 112 (fun whole frac power => round neg (hexadecimalValue whole frac power)) digits v

theorem written_map {γ : Type*} {f : β → γ} {g : γ} :
    Written digit letter (fun whole frac power => f (value whole frac power)) text g ↔
      ∃ v, Written digit letter value text v ∧ f v = g := by
  constructor
  · rintro ⟨front, back, whole, frac, power, htext, hmantissa, hexponent, hvalue⟩
    exact ⟨_, ⟨front, back, whole, frac, power, htext, hmantissa, hexponent, rfl⟩, hvalue⟩
  · rintro ⟨v, ⟨front, back, whole, frac, power, htext, hmantissa, hexponent, rfl⟩, hvalue⟩
    exact ⟨front, back, whole, frac, power, htext, hmantissa, hexponent, hvalue⟩

theorem magnitudes_round :
    (Hexadecimals neg text v ∨ Decimals neg text v) ↔ ∃ q, Magnitudes text q ∧ round neg q = v := by
  unfold Hexadecimals Decimals Magnitudes
  rw [written_map]
  simp only [written_map]
  constructor
  · rintro (⟨front, digits, htext, hlength, hmark, q, hwritten, hround⟩ | ⟨q, hwritten, hround⟩)
    · exact ⟨q, .inr ⟨front, digits, htext, hlength, hmark, hwritten⟩, hround⟩
    · exact ⟨q, .inl hwritten, hround⟩
  · rintro ⟨q, hwritten | ⟨front, digits, htext, hlength, hmark, hwritten⟩, hround⟩
    · exact .inr ⟨q, hwritten, hround⟩
    · exact .inl ⟨front, digits, htext, hlength, hmark, q, hwritten, hround⟩

theorem lawful_decimal (neg : Bool) : Lawful (Decimals neg) (decimal neg) := by
  have hread : decimal neg =
      readWritten isdigit 101 fun whole frac power => round neg (decimalValue whole frac power) := by
    funext text
    unfold decimal readWritten readMantissa
    cases mantissa isdigit text with
    | none => rfl
    | some read => rfl
  rw [hread]
  exact lawful_written _ _ (by decide) (fun c hc => exponent_letter (by decide) (by decide) hc) _

theorem lawful_hexadecimal (neg : Bool) : Lawful (Hexadecimals neg) (hexadecimal neg) := by
  have hwritten := lawful_written isHexDigit 112 (by decide) (fun c hc => hex_letter hc)
    (fun whole frac power => round neg (hexadecimalValue whole frac power))
  have hlaws := hwritten.marked 2 (fun front => front.map tolower = [48, 120])
  simp only [decide_eq_true_eq] at hlaws
  have hread : hexadecimal neg = fun text => if (text.take 2).map tolower = [48, 120] ∧ 2 ≤ text.length then
      readWritten isHexDigit 112 (fun whole frac power => round neg (hexadecimalValue whole frac power)) (text.drop 2)
      else none := by
    funext text
    unfold hexadecimal readWritten readMantissa
    rw [keyword_eq, show ([48, 120] : List UInt8).length = 2 from rfl]
    by_cases hmark : (text.take 2).map tolower = [48, 120] ∧ 2 ≤ text.length
    · rw [if_pos hmark, if_pos hmark]
      change Option.bind (mantissa isHexDigit (text.drop 2)) _ = _
      cases mantissa isHexDigit (text.drop 2) with
      | none => rfl
      | some read => rfl
    · rw [if_neg hmark, if_neg hmark]
      rfl
  rw [hread]
  exact hlaws

/-- A number begins with a digit or its point. -/
theorem written_head (h : Written digit letter value text b) :
    ∃ c tail, text = c :: tail ∧ (digit c = true ∨ c = 46) := by
  obtain ⟨front, back, whole, frac, power, rfl, hmantissa, _, _⟩ := h
  cases whole with
  | cons c whole =>
    have hc := hmantissa.hwhole c List.mem_cons_self
    rcases hmantissa.htext with ⟨rfl, _⟩ | rfl
    · exact ⟨c, whole ++ back, rfl, .inl hc⟩
    · exact ⟨c, _, rfl, .inl hc⟩
  | nil =>
    rcases hmantissa.htext with ⟨rfl, hfrac⟩ | rfl
    · exact absurd ⟨rfl, hfrac⟩ hmantissa.hdigits
    · exact ⟨46, frac ++ back, rfl, .inr rfl⟩

theorem integer_chars {n : Int} (h : Integer text n) : ∀ c ∈ text, isdigit c = true ∨ c = 43 ∨ c = 45 := by
  obtain ⟨sign, digits, rfl, hdigits, _⟩ := h
  intro c hc
  rcases List.mem_append.mp hc with hc | hc
  · cases sign with
    | plain => cases hc
    | plus => exact .inr (.inl (List.mem_singleton.mp hc))
    | minus => exact .inr (.inr (List.mem_singleton.mp hc))
  · exact .inl (hdigits.2 c hc)

/-- A number in decimal has no `x` in it. -/
theorem decimals_chars (h : Decimals neg text v) : ∀ c ∈ text, tolower c ≠ 120 := by
  have hletter : ∀ {c : UInt8}, tolower c = 120 → isdigit c = false ∧ c ≠ 46 :=
    fun hc => exponent_letter (by decide) (by decide) hc
  obtain ⟨front, back, whole, frac, power, rfl, hmantissa, hexponent, _⟩ := h
  intro c hc hx
  have hplain : isdigit c ≠ true ∧ c ≠ 46 := ⟨by rw [(hletter hx).1]; exact Bool.false_ne_true, (hletter hx).2⟩
  rcases List.mem_append.mp hc with hc | hc
  · rcases hmantissa.htext with ⟨rfl, _⟩ | rfl
    · exact hplain.1 (hmantissa.hwhole c hc)
    · rcases List.mem_append.mp hc with hc | hc
      · exact hplain.1 (hmantissa.hwhole c hc)
      · rcases List.mem_cons.mp hc with hc | hc
        · exact hplain.2 hc
        · exact hplain.1 (hmantissa.hfrac c hc)
  · rcases hexponent with ⟨rfl, _⟩ | ⟨d, tail, rfl, hd, hinteger⟩
    · cases hc
    · rcases List.mem_cons.mp hc with rfl | hc
      · rw [hx] at hd
        exact absurd hd (by decide)
      · rcases integer_chars hinteger c hc with hc | rfl | rfl
        · exact hplain.1 hc
        · exact absurd hx (by decide)
        · exact absurd hx (by decide)

theorem lower_head {word : List UInt8} {a : UInt8} (h : text.map tolower = a :: word) :
    ∃ c tail, text = c :: tail ∧ tolower c = a := by
  cases text with
  | nil => cases h
  | cons c tail => exact ⟨c, tail, rfl, (List.cons.inj h).1⟩

theorem infinity_head (h : Infinity text) : ∃ c tail, text = c :: tail ∧ tolower c = 105 := by
  rcases h with h | h
  · exact lower_head h
  · exact lower_head h

theorem notANumber_head (h : NotANumber text) : ∃ c tail, text = c :: tail ∧ tolower c = 110 := by
  obtain ⟨front, back, rfl, hfront, _⟩ := h
  obtain ⟨c, tail, rfl, hc⟩ := lower_head hfront
  exact ⟨c, tail ++ back, rfl, hc⟩

theorem hexadecimals_head (h : Hexadecimals neg text v) : ∃ c tail, text = c :: tail ∧ tolower c = 48 := by
  obtain ⟨front, digits, rfl, _, hmark, _⟩ := h
  obtain ⟨c, tail, rfl, hc⟩ := lower_head hmark
  exact ⟨c, tail ++ digits, rfl, hc⟩

/-- What does not begin with a number is not read as a decimal. -/
theorem decimal_none {tail : List UInt8} (hlow : 97 ≤ letter) (hhigh : letter ≤ 122) (hc : tolower c = letter) :
    decimal neg (c :: tail) = none := by
  obtain ⟨hdigit, hpoint⟩ := exponent_letter hlow hhigh hc
  have hnone : readMantissa isdigit (c :: tail) = none := by
    rw [readMantissa_none_iff (by decide)]
    intro d rest hd
    refine ⟨fun heq => ?_, fun heq => hpoint (List.cons.inj heq).1⟩
    rw [(List.cons.inj heq).1, hd] at hdigit
    cases hdigit
  unfold readMantissa at hnone
  unfold decimal
  rw [Option.map_eq_none_iff.mp hnone]
  rfl

theorem keyword_none {a : UInt8} {word tail : List UInt8} (hc : tolower c ≠ a) :
    keyword (a :: word) (c :: tail) = none := by
  unfold keyword
  rw [if_neg]
  rw [List.length_cons, List.take_succ_cons, List.map_cons]
  exact fun heq => hc (List.cons.inj heq).1

theorem hexadecimal_none (h : keyword [48, 120] text = none) : hexadecimal neg text = none := by
  unfold hexadecimal
  rw [h]
  rfl

/-- A number in decimal is not behind a mark. -/
theorem Decimals.not_marked (h : Decimals neg text v) : keyword [48, 120] text = none := by
  unfold keyword
  rw [if_neg]
  intro hmark
  have hx : (120 : UInt8) ∈ (text.take ([48, 120] : List UInt8).length).map tolower := by
    rw [hmark]
    exact List.mem_cons_of_mem _ List.mem_cons_self
  obtain ⟨c, hc, hlower⟩ := List.mem_map.mp hx
  exact decimals_chars h c (List.mem_of_mem_take hc) hlower

/-- What `strtof` reads behind the white space and the sign. -/
def Unsigned (neg : Bool) (text : List UInt8) (v : Value) : Prop :=
  Hexadecimals neg text v ∨ Decimals neg text v ∨ Infinity text ∧ Value.inf neg = v ∨ NotANumber text ∧ Value.nan = v

theorem lawful_unsigned (neg : Bool) : Lawful (Unsigned neg)
    (fun text => hexadecimal neg text <|> decimal neg text <|> infinity neg text <|> notANumber text) := by
  have hwords := (lawful_infinity neg).orElse lawful_notANumber (by
    rintro text v ⟨hword, _⟩
    obtain ⟨c, tail, rfl, hc⟩ := notANumber_head hword
    have hne : tolower c ≠ 105 := by
      rw [hc]
      decide
    unfold infinity
    rw [keyword_none hne, keyword_none hne]
    rfl)
  have hdecimals := (lawful_decimal neg).orElse hwords (by
    rintro text v (⟨hword, _⟩ | ⟨hword, _⟩)
    · obtain ⟨c, tail, rfl, hc⟩ := infinity_head hword
      exact decimal_none (by decide) (by decide) hc
    · obtain ⟨c, tail, rfl, hc⟩ := notANumber_head hword
      exact decimal_none (by decide) (by decide) hc)
  exact (lawful_hexadecimal neg).orElse hdecimals (by
    rintro text v (hdecimals | ⟨hword, _⟩ | ⟨hword, _⟩)
    · exact hexadecimal_none hdecimals.not_marked
    · obtain ⟨c, tail, rfl, hc⟩ := infinity_head hword
      exact hexadecimal_none (keyword_none (by rw [hc]; decide))
    · obtain ⟨c, tail, rfl, hc⟩ := notANumber_head hword
      exact hexadecimal_none (keyword_none (by rw [hc]; decide)))

/-- A number as `strtof` knows it, behind white space. -/
def Number (text : List UInt8) (v : Value) : Prop :=
  ∃ gap body, text = gap ++ body ∧ (∀ c ∈ gap, isspace c = true) ∧
    ∃ (sign : Sign) (rest : List UInt8), body = sign.text ++ rest ∧ Unsigned sign.neg rest v

/-- Neither a sign nor white space is the beginning of what is read behind them. -/
theorem unsigned_head (h : Unsigned neg text v) :
    ∃ c tail, text = c :: tail ∧ c ≠ 45 ∧ c ≠ 43 ∧ isspace c = false := by
  have hlower : ∀ {c a : UInt8}, tolower c = a → a = 48 ∨ a = 105 ∨ a = 110 → c ≠ 45 ∧ c ≠ 43 ∧ isspace c = false := by
    intro c a hc ha
    refine ⟨lower_ne hc ?_, lower_ne hc ?_, (numeric_plain (numeric_of_lower ?_)).1⟩
    · rcases ha with rfl | rfl | rfl
      all_goals decide
    · rcases ha with rfl | rfl | rfl
      all_goals decide
    · rw [hc]
      rcases ha with rfl | rfl | rfl
      all_goals decide
  rcases h with h | h | ⟨h, _⟩ | ⟨h, _⟩
  · obtain ⟨c, tail, rfl, hc⟩ := hexadecimals_head h
    exact ⟨c, tail, rfl, hlower hc (.inl rfl)⟩
  · obtain ⟨c, tail, rfl, hc⟩ := written_head h
    refine ⟨c, tail, rfl, ?_⟩
    rcases hc with hc | rfl
    · refine ⟨?_, ?_, (numeric_plain (numeric_of_isdigit hc)).1⟩
      · rintro rfl
        exact absurd hc (by decide)
      · rintro rfl
        exact absurd hc (by decide)
    · decide
  · obtain ⟨c, tail, rfl, hc⟩ := infinity_head h
    exact ⟨c, tail, rfl, hlower hc (.inr (.inl rfl))⟩
  · obtain ⟨c, tail, rfl, hc⟩ := notANumber_head h
    exact ⟨c, tail, rfl, hlower hc (.inr (.inr rfl))⟩

/-- `strtof` reads the longest number in front. -/
theorem lawful_strtof : Lawful Number strtof := by
  have hsigned := lawful_signed lawful_unsigned (by
    intro neg text v hreads
    obtain ⟨c, tail, rfl, hminus, hplus, _⟩ := unsigned_head hreads
    rw [List.head?_cons]
    exact ⟨fun h => hminus (Option.some.inj h), fun h => hplus (Option.some.inj h)⟩)
  exact hsigned.skipping (p := isspace) (by
    rintro text v ⟨sign, body, rfl, hreads⟩ c hc
    obtain ⟨d, tail, rfl, _, _, hd⟩ := unsigned_head hreads
    cases sign with
    | plain =>
      rw [← Option.some.inj hc]
      exact hd
    | plus =>
      rw [← Option.some.inj hc]
      decide
    | minus =>
      rw [← Option.some.inj hc]
      decide)

/-- What is written as a number is a number as `strtof` knows it. -/
theorem Literal.number (h : Literal text v) : Number text v := by
  obtain ⟨neg, q, ⟨sign, body, htext, rfl, hmagnitude⟩, hround⟩ := h
  refine ⟨[], text, rfl, fun c hc => absurd hc List.not_mem_nil, sign, body, htext, ?_⟩
  rcases magnitudes_round.mpr ⟨q, hmagnitude, hround⟩ with hhex | hdecimal
  · exact .inl hhex
  · exact .inr (.inl hdecimal)

end Numbers

end Binary32
