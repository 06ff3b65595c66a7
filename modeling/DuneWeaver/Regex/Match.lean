import DuneWeaver.Bytes
import Mathlib.Computability.Language

namespace DuneWeaver.Regex

/-- How two characters are compared. -/
def sameLetter (case_sensitive : Bool) (c d : UInt8) : Bool :=
  if case_sensitive then c = d else tolower c = tolower d

section Matcher

variable (case_sensitive : Bool)

mutual

/-- The loop tries every place of the text, its end included. -/
def matchStar (regexp text : Bytes) : Bool :=
  if matchHere regexp text then true
  else
    match text with
    | [] => false
    | _ :: text => matchStar regexp text
termination_by (regexp.length, 1, text.length)

def matchHere (regexp text : Bytes) : Bool :=
  match regexp with
  | [] => true
  | c :: regexp =>
    if c = 0x2a then matchStar regexp text
    else if c = 0x24 ∧ regexp = [] then text = []
    else
      match text with
      | [] => false
      | d :: text => if sameLetter case_sensitive c d then matchHere regexp text else false
termination_by (regexp.length, 0, text.length)

end

/-- The loop of `regexMatch` over the places of the text. -/
def matchAnywhere (regexp text : Bytes) : Bool :=
  if matchHere case_sensitive regexp text then true
  else
    match text with
    | [] => false
    | _ :: text => matchAnywhere regexp text

end Matcher

def regexMatch (regexp text : Bytes) (case_sensitive : Bool) : Bool :=
  if regexp.head? = some 0x5e then matchHere case_sensitive regexp.tail text
  else matchAnywhere case_sensitive regexp text

/-- The texts of a character that stands for itself. -/
def ofLetter (case_sensitive : Bool) (c : UInt8) : Language UInt8 :=
  {text | ∃ d, text = [d] ∧ sameLetter case_sensitive c d = true}

/-- The texts of one character of a pattern. `*` stands for any text. -/
def ofChar (case_sensitive : Bool) (c : UInt8) : Language UInt8 := if c = 0x2a then ⊤ else ofLetter case_sensitive c

/-- The texts of a pattern without anchors. -/
def ofBody (case_sensitive : Bool) (body : Bytes) : Language UInt8 := (body.map (ofChar case_sensitive)).prod

/-- The texts that begin with one of a pattern whose end may be anchored. -/
def ofEnd (case_sensitive : Bool) (regexp : Bytes) : Language UInt8 :=
  if regexp.getLast? = some 0x24 then ofBody case_sensitive regexp.dropLast else ofBody case_sensitive regexp * ⊤

/-- The texts that a pattern matches. What is not anchored may have any text in front of it or behind it. -/
def texts (case_sensitive : Bool) (regexp : Bytes) : Language UInt8 :=
  if regexp.head? = some 0x5e then ofEnd case_sensitive regexp.tail else ⊤ * ofEnd case_sensitive regexp

section Agreement

variable {case_sensitive : Bool} {c : UInt8} {regexp text : Bytes}

theorem mem_top_mul_iff {l : Language UInt8} : text ∈ ⊤ * l ↔ ∃ front rest, text = front ++ rest ∧ rest ∈ l := by
  rw [Language.mem_mul]
  constructor
  · rintro ⟨front, -, rest, hrest, rfl⟩
    exact ⟨front, rest, rfl, hrest⟩
  · rintro ⟨front, rest, rfl, hrest⟩
    exact ⟨front, trivial, rest, hrest, rfl⟩

/-- Any text may stand in front of what is matched: it is matched here, or behind the first character. -/
theorem cons_mem_top_mul_iff {l : Language UInt8} {d : UInt8} :
    d :: text ∈ ⊤ * l ↔ d :: text ∈ l ∨ text ∈ ⊤ * l := by
  simp only [mem_top_mul_iff]
  constructor
  · rintro ⟨front, rest, htext, hrest⟩
    cases front with
    | nil =>
      rw [List.nil_append] at htext
      exact .inl (htext ▸ hrest)
    | cons e front =>
      obtain ⟨-, htext⟩ := List.cons.inj htext
      exact .inr ⟨front, rest, htext, hrest⟩
  · rintro (hhere | ⟨front, rest, htext, hrest⟩)
    · exact ⟨[], d :: text, rfl, hhere⟩
    · exact ⟨d :: front, rest, by rw [htext, List.cons_append], hrest⟩

theorem nil_mem_top_mul_iff {l : Language UInt8} : [] ∈ ⊤ * l ↔ [] ∈ l := by
  simp only [mem_top_mul_iff]
  constructor
  · rintro ⟨front, rest, hempty, hrest⟩
    obtain ⟨-, rfl⟩ := List.append_eq_nil_iff.mp hempty.symm
    exact hrest
  · exact fun h => ⟨[], [], rfl, h⟩

theorem ofEnd_nil : ofEnd case_sensitive [] = ⊤ := by
  rw [ofEnd, if_neg (by simp), ofBody, List.map_nil, List.prod_nil, one_mul]

/-- A `$` at the end is an anchor. -/
theorem ofEnd_dollar : ofEnd case_sensitive [0x24] = 1 := rfl

/-- Every other character stands for its own texts, a `^` or a `$` in front of others included. -/
theorem ofEnd_cons (h : ¬ (c = 0x24 ∧ regexp = [])) :
    ofEnd case_sensitive (c :: regexp) = ofChar case_sensitive c * ofEnd case_sensitive regexp := by
  cases regexp with
  | nil =>
    have hc : [c].getLast? ≠ some 0x24 := fun hlast => h ⟨Option.some.inj hlast, rfl⟩
    rw [ofEnd, if_neg hc, ofEnd_nil, ofBody, List.map_singleton, List.prod_singleton]
  | cons d regexp =>
    unfold ofEnd
    rw [List.getLast?_cons_cons, List.dropLast_cons_of_ne_nil (List.cons_ne_nil _ _)]
    split
    · rfl
    · rw [← mul_assoc]
      rfl

theorem mem_letter_mul_iff {l : Language UInt8} (hc : c ≠ 0x2a) :
    text ∈ ofChar case_sensitive c * l ↔
      ∃ d rest, text = d :: rest ∧ sameLetter case_sensitive c d = true ∧ rest ∈ l := by
  rw [ofChar, if_neg hc, Language.mem_mul]
  constructor
  · rintro ⟨-, ⟨d, rfl, hsame⟩, rest, hrest, rfl⟩
    exact ⟨d, rest, rfl, hsame, hrest⟩
  · rintro ⟨d, rest, rfl, hsame, hrest⟩
    exact ⟨[d], ⟨d, rfl, hsame⟩, rest, hrest, rfl⟩

/-- The loop of the star looks for a place where the rest of the pattern matches. -/
theorem matchStar_iff (hhere : ∀ text, matchHere case_sensitive regexp text = true ↔ text ∈ ofEnd case_sensitive regexp)
    (text : Bytes) : matchStar case_sensitive regexp text = true ↔ text ∈ ⊤ * ofEnd case_sensitive regexp := by
  induction text with
  | nil =>
    rw [matchStar, nil_mem_top_mul_iff, ← hhere]
    simp
  | cons d text ih =>
    rw [matchStar, cons_mem_top_mul_iff, ← hhere, ← ih]
    simp

/-- By induction on the pattern: each of its characters takes its own texts off the front. -/
theorem matchHere_iff (regexp text : Bytes) :
    matchHere case_sensitive regexp text = true ↔ text ∈ ofEnd case_sensitive regexp := by
  induction regexp generalizing text with
  | nil =>
    rw [matchHere, ofEnd_nil]
    exact iff_of_true rfl trivial
  | cons c regexp ih =>
    rw [matchHere.eq_def]
    dsimp only
    by_cases hstar : c = 0x2a
    · have hend : ¬ (c = 0x24 ∧ regexp = []) := fun h => absurd (hstar.symm.trans h.1) (by decide)
      rw [if_pos hstar, matchStar_iff ih, ofEnd_cons hend, ofChar, if_pos hstar]
    · rw [if_neg hstar]
      by_cases hend : c = 0x24 ∧ regexp = []
      · obtain ⟨rfl, rfl⟩ := hend
        rw [if_pos ⟨rfl, rfl⟩, ofEnd_dollar, Language.mem_one, decide_eq_true_iff]
      · rw [if_neg hend, ofEnd_cons hend, mem_letter_mul_iff hstar]
        cases text with
        | nil => simp
        | cons d text =>
          by_cases hsame : sameLetter case_sensitive c d = true
          · simp [hsame, ih]
          · simp [hsame]

/-- `regexMatch` looks for the whole pattern as the star looks for what follows it. -/
theorem matchAnywhere_eq (regexp text : Bytes) :
    matchAnywhere case_sensitive regexp text = matchStar case_sensitive regexp text := by
  induction text with
  | nil => rw [matchAnywhere, matchStar]
  | cons d text ih => rw [matchAnywhere, matchStar, ih]

end Agreement

/-- The matcher comes to an end on every pattern and text, and finds exactly the texts of the pattern. -/
theorem regexMatch_iff (regexp text : Bytes) (case_sensitive : Bool) :
    regexMatch regexp text case_sensitive = true ↔ text ∈ texts case_sensitive regexp := by
  rw [regexMatch, texts]
  by_cases hstart : regexp.head? = some 0x5e
  · rw [if_pos hstart, if_pos hstart]
    exact matchHere_iff regexp.tail text
  · rw [if_neg hstart, if_neg hstart]
    rw [matchAnywhere_eq]
    exact matchStar_iff (matchHere_iff regexp) text

end DuneWeaver.Regex
