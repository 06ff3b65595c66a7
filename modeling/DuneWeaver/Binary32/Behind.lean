import DuneWeaver.Binary32.Words

open Ascii

namespace Binary32

/-- No number goes on with the text. -/
def Ends (behind : List UInt8) : Prop := ∀ c, behind.head? = some c → numeric c = false

/-- What is read of a text, with more text behind what is left of it. -/
def followed {α : Type*} (behind : List UInt8) (read : α × List UInt8) : α × List UInt8 := (read.1, read.2 ++ behind)

section Behind

variable {text behind : List UInt8} {c : UInt8}

/-- White space ends a number, and so does the end of the text. -/
theorem ends_of_blank (hblank : ∀ c ∈ behind, isspace c = true) : Ends behind := by
  intro c hc
  rw [← Bool.not_eq_true]
  intro hnumeric
  have hspace := hblank c (List.mem_of_mem_head? hc)
  rw [(numeric_plain hnumeric).1] at hspace
  exact Bool.noConfusion hspace

theorem Ends.head_ne (h : Ends behind) (hc : numeric c = true) : behind.head? ≠ some c := by
  intro hhead
  rw [h c hhead] at hc
  exact Bool.noConfusion hc

/-- A character of a number stands in front only if it stood there before. -/
theorem Ends.head_iff (h : Ends behind) (hc : numeric c = true) :
    (text ++ behind).head? = some c ↔ text.head? = some c := by
  cases text with
  | nil => exact iff_of_false (h.head_ne hc) (by simp)
  | cons d text => rfl

theorem tail_behind (h : text.head? = some c) : (text ++ behind).tail = text.tail ++ behind := by
  cases text with
  | nil => exact absurd h (by simp)
  | cons d text => rfl

theorem Ends.takeWhile_eq (h : Ends behind) {p : UInt8 → Bool} (hp : ∀ c, p c = true → numeric c = true) :
    (text ++ behind).takeWhile p = text.takeWhile p := by
  induction text with
  | nil =>
    cases behind with
    | nil => rfl
    | cons d behind =>
      refine List.takeWhile_cons_of_neg fun hd => ?_
      exact h.head_ne (hp d hd) rfl
  | cons d text ih =>
    rw [List.cons_append, List.takeWhile_cons, List.takeWhile_cons, ih]

theorem Ends.dropWhile_eq (h : Ends behind) {p : UInt8 → Bool} (hp : ∀ c, p c = true → numeric c = true) :
    (text ++ behind).dropWhile p = text.dropWhile p ++ behind := by
  have hsplit : (text ++ behind).takeWhile p ++ (text ++ behind).dropWhile p =
      text.takeWhile p ++ (text.dropWhile p ++ behind) := by
    rw [List.takeWhile_append_dropWhile, ← List.append_assoc, List.takeWhile_append_dropWhile]
  rw [h.takeWhile_eq hp] at hsplit
  exact List.append_cancel_left hsplit

/-- A word does not reach into what stands behind. -/
theorem Ends.keyword_eq (h : Ends behind) {word : List UInt8} (hword : word.all numeric = true) :
    keyword word (text ++ behind) = (keyword word text).map (· ++ behind) := by
  unfold keyword
  by_cases hlong : word.length ≤ text.length
  · rw [List.take_append_of_le_length hlong, List.drop_append_of_le_length hlong]
    split_ifs
    · rfl
    · rfl
  · have hshort : (text.take word.length).map tolower ≠ word := by
      intro heq
      have hlength := congrArg List.length heq
      rw [List.length_map, List.length_take] at hlength
      omega
    rw [if_neg hshort, if_neg]
    · rfl
    intro heq
    -- the first character behind would belong to the word
    have hat : ((text ++ behind).take word.length)[text.length]? = behind.head? := by
      rw [List.getElem?_take_of_lt (by omega), List.getElem?_append_right le_rfl, Nat.sub_self, List.head?_eq_getElem?]
    have hcell : (((text ++ behind).take word.length).map tolower)[text.length]? = word[text.length]? := by rw [heq]
    rw [List.getElem?_map, hat, List.getElem?_eq_getElem (by omega)] at hcell
    obtain ⟨c, hc, hlower⟩ := Option.map_eq_some_iff.mp hcell
    refine h.head_ne (numeric_of_lower ?_) hc
    rw [hlower]
    exact List.all_eq_true.mp hword _ (List.getElem_mem _)

theorem Ends.signed_eq (h : Ends behind) : signed (text ++ behind) = followed behind (signed text) := by
  unfold signed followed
  simp only [h.head_iff (show numeric 45 = true by decide), h.head_iff (show numeric 43 = true by decide)]
  split_ifs with hminus hplus
  · rw [tail_behind hminus]
  · rw [tail_behind hplus]
  · rfl

theorem Ends.mantissa_eq (h : Ends behind) {digit : UInt8 → Bool} (hdigit : ∀ c, digit c = true → numeric c = true)
    (text : List UInt8) :
    mantissa digit (text ++ behind) =
      (mantissa digit text).map fun read => (read.1, followed behind read.2) := by
  unfold mantissa followed
  dsimp only
  rw [h.takeWhile_eq hdigit, h.dropWhile_eq hdigit]
  simp only [h.head_iff (show numeric 46 = true by decide)]
  by_cases hpoint : (text.dropWhile digit).head? = some 46
  · rw [if_pos hpoint, if_pos hpoint, if_pos hpoint, tail_behind hpoint, h.takeWhile_eq hdigit, h.dropWhile_eq hdigit]
    split_ifs
    · rfl
    · rfl
  · rw [if_neg hpoint, if_neg hpoint, if_neg hpoint]
    split_ifs
    · rfl
    · rfl

theorem Ends.exponent_eq (h : Ends behind) {letter : UInt8} (hletter : numeric letter = true) (text : List UInt8) :
    exponent letter (text ++ behind) = followed behind (exponent letter text) := by
  have hhead : (text ++ behind).head?.map tolower = some letter ↔ text.head?.map tolower = some letter := by
    cases text with
    | nil =>
      refine iff_of_false (fun hmap => ?_) (by simp)
      obtain ⟨c, hc, hlower⟩ := Option.map_eq_some_iff.mp hmap
      exact h.head_ne (numeric_of_lower (hlower ▸ hletter)) hc
    | cons d text => rfl
  unfold exponent
  by_cases hmark : text.head?.map tolower = some letter
  · obtain ⟨c, hc, -⟩ := Option.map_eq_some_iff.mp hmark
    rw [tail_behind hc, h.signed_eq]
    simp only [hhead, followed]
    rw [h.takeWhile_eq fun _ => numeric_of_isdigit, h.dropWhile_eq fun _ => numeric_of_isdigit]
    split_ifs with hpower hneg
    · simp [hneg]
    · simp [hneg]
    · rfl
  · simp only [hhead, hmark, false_and, if_false]
    rfl

end Behind

section Numbers

variable {text behind : List UInt8} {neg : Bool}

theorem Ends.decimal_eq (h : Ends behind) :
    decimal neg (text ++ behind) = (decimal neg text).map (followed behind) := by
  unfold decimal
  rw [h.mantissa_eq (fun _ => numeric_of_isdigit) text]
  cases mantissa isdigit text with
  | none => rfl
  | some read =>
    obtain ⟨whole, frac, rest⟩ := read
    have hexponent := h.exponent_eq (show numeric 101 = true by decide) rest
    simp [followed, hexponent]

theorem Ends.hexadecimal_eq (h : Ends behind) :
    hexadecimal neg (text ++ behind) = (hexadecimal neg text).map (followed behind) := by
  unfold hexadecimal
  rw [h.keyword_eq (by decide)]
  cases keyword [48, 120] text with
  | none => rfl
  | some digits =>
    have hmantissa := h.mantissa_eq (fun _ => numeric_of_hexDigit) digits
    cases hread : mantissa (fun c => (hexDigit c).isSome) digits with
    | none => simp [hmantissa, hread]
    | some read =>
      have hexponent := h.exponent_eq (show numeric 112 = true by decide) read.2.2
      simp [hmantissa, hread, followed, hexponent]

theorem Ends.infinity_eq (h : Ends behind) : infinity neg (text ++ behind) =
    (infinity neg text).map (followed behind) := by
  unfold infinity
  rw [h.keyword_eq (by decide), h.keyword_eq (by decide)]
  cases keyword [105, 110, 102, 105, 110, 105, 116, 121] text with
  | some rest => rfl
  | none => cases keyword [105, 110, 102] text <;> rfl

theorem numeric_of_payload {c : UInt8}
    (hc : ((hexDigit c).isSome || (97 ≤ tolower c && tolower c ≤ 122) || c = 95) = true) : numeric c = true := by
  simp only [Bool.or_eq_true] at hc
  rcases hc with (hhex | hletter) | hunder
  · exact numeric_of_hexDigit hhex
  · rw [numeric, hletter]
    simp
  · rw [of_decide_eq_true hunder]
    decide

theorem Ends.notANumber_eq (h : Ends behind) :
    notANumber (text ++ behind) = (notANumber text).map (followed behind) := by
  unfold notANumber
  rw [h.keyword_eq (by decide)]
  cases keyword [110, 97, 110] text with
  | none => rfl
  | some rest =>
    simp only [Option.map_some, Option.bind_eq_bind, Option.bind_some, h.head_iff (show numeric 40 = true by decide)]
    by_cases hopen : rest.head? = some 40
    · rw [tail_behind hopen, h.dropWhile_eq fun _ => numeric_of_payload]
      simp only [h.head_iff (show numeric 41 = true by decide)]
      by_cases hclose : (rest.tail.dropWhile fun c => (hexDigit c).isSome || (97 ≤ tolower c && tolower c ≤ 122) ||
          c = 95).head? = some 41
      · rw [if_pos ⟨hopen, hclose⟩, if_pos ⟨hopen, hclose⟩, tail_behind hclose]
        rfl
      · rw [if_neg fun hboth => hclose hboth.2, if_neg fun hboth => hclose hboth.2]
        rfl
    · rw [if_neg fun hboth => hopen hboth.1, if_neg fun hboth => hopen hboth.1]
      rfl

/-- White space behind a number is left over. -/
theorem strtof_behind (hblank : ∀ c ∈ behind, isspace c = true) (hbody : text ≠ [])
    (hbegins : ∀ c, text.head? = some c → isspace c = false) :
    strtof (text ++ behind) = (strtof text).map (followed behind) := by
  have hends := ends_of_blank hblank
  have hdrop (rest : List UInt8) : (text ++ rest).dropWhile isspace = text ++ rest := by
    obtain ⟨c, tail, rfl⟩ := List.exists_cons_of_ne_nil hbody
    exact List.dropWhile_cons_of_neg (by simp [hbegins c rfl])
  have htext := hdrop []
  rw [List.append_nil] at htext
  unfold strtof
  rw [hdrop behind, htext, hends.signed_eq]
  simp only [followed]
  rw [hends.hexadecimal_eq, hends.decimal_eq, hends.infinity_eq, hends.notANumber_eq]
  cases hexadecimal (signed text).1 (signed text).2 with
  | some read => rfl
  | none =>
    cases decimal (signed text).1 (signed text).2 with
    | some read => rfl
    | none =>
      cases infinity (signed text).1 (signed text).2 with
      | some read => rfl
      | none => cases notANumber (signed text).2 <;> rfl

/-- White space in front of a number is passed over. -/
theorem strtof_ahead {lead : List UInt8} (hblank : ∀ c ∈ lead, isspace c = true) :
    strtof (lead ++ text) = strtof text := by
  have hdrop : (lead ++ text).dropWhile isspace = text.dropWhile isspace := List.dropWhile_append_of_pos hblank
  rw [strtof, hdrop, strtof]

end Numbers

end Binary32
