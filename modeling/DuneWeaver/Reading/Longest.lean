import Mathlib.Data.List.TakeWhile
import Mathlib.Data.List.Infix
import Mathlib.Data.Option.Basic
import Mathlib.Tactic.Common

namespace Reading

variable {α β γ : Type*}

/-- A reader takes something off the front of a text. What it leaves is the end of the text, shorter than all of it.
What it reads without touching the end it reads without the end as well, and more text does not keep it from reading.
Of the texts it reads to their end it is known what they are. -/
structure Lawful (Reads : List α → β → Prop) (read : List α → Option (β × List α)) : Prop where
  whole : ∀ {text v}, read text = some (v, []) ↔ Reads text v
  suffix : ∀ {text v rest}, read text = some (v, rest) → rest <:+ text
  moves : ∀ {text v rest}, read text = some (v, rest) → rest.length < text.length
  front : ∀ {text behind v rest}, read (text ++ behind) = some (v, rest ++ behind) → read text = some (v, rest)
  grows : ∀ {text} behind, read (text ++ behind) = none → read text = none

/-- Something that can be read begins with the text and goes on behind it. -/
def GoesOn (Reads : List α → β → Prop) (text behind : List α) : Prop :=
  ∃ front rest v, text ++ behind = front ++ rest ∧ text.length < front.length ∧ Reads front v

/-- The test that the end of what was read is the end of the text. Where nothing is read, that is the beginning. -/
def ends (read : List α → Option (β × List α)) (nothing : β) (text behind : List α) : Option β :=
  match read (text ++ behind) with
  | some (v, rest) => if rest.length = behind.length then some v else none
  | none => if text.length = 0 then some nothing else none

variable {Reads : List α → β → Prop} {read : List α → Option (β × List α)} {text behind front rest : List α} {v w : β}

theorem Lawful.ne_nil (h : Lawful Reads read) (hreads : Reads text v) : text ≠ [] := by
  rintro rfl
  exact Nat.not_lt_zero _ (h.moves (h.whole.mpr hreads))

theorem Lawful.unique (h : Lawful Reads read) (hreads : Reads text v) (hother : Reads text w) : v = w := by
  rw [← h.whole] at hreads hother
  rw [hreads] at hother
  exact (Prod.mk.inj (Option.some.inj hother)).1

/-- A reader reads the longest front that there is. -/
theorem Lawful.read_longest (h : Lawful Reads read) (hread : read text = some (v, rest)) (hfront : Reads front w)
    {behind : List α} (htext : text = front ++ behind) : rest.length ≤ behind.length := by
  by_contra hlong
  obtain ⟨passed, hpassed⟩ := h.suffix hread
  obtain ⟨left, hleft⟩ : ∃ left, rest = left ++ behind := by
    have hsuffix : behind <:+ rest := by
      have hend : behind <:+ text := htext ▸ List.suffix_append front behind
      exact List.suffix_of_suffix_length_le hend ⟨passed, hpassed⟩ (by omega)
    obtain ⟨left, hleft⟩ := hsuffix
    exact ⟨left, hleft.symm⟩
  subst hleft
  rw [htext] at hread
  have hback := h.front hread
  rw [h.whole.mpr hfront] at hback
  have hnil : left = [] := (Prod.mk.inj (Option.some.inj hback)).2.symm
  rw [hnil, List.nil_append] at hlong
  exact hlong (Nat.le_refl _)

/-- What is read is a front that is read to its end. -/
theorem Lawful.read_front (h : Lawful Reads read) (hread : read text = some (v, rest)) :
    ∃ front, text = front ++ rest ∧ Reads front v := by
  obtain ⟨front, rfl⟩ := h.suffix hread
  have hfront : read front = some (v, []) := h.front hread
  exact ⟨front, rfl, h.whole.mp hfront⟩

/-- A reader stops at the end of a text exactly where the text is read to its end and does not go on. -/
theorem Lawful.read_iff (h : Lawful Reads read) :
    read (text ++ behind) = some (v, behind) ↔ Reads text v ∧ ¬GoesOn Reads text behind := by
  constructor
  · intro hread
    have hfront : read text = some (v, []) := h.front hread
    refine ⟨h.whole.mp hfront, ?_⟩
    rintro ⟨front, rest, w, heq, hlonger, hwhole⟩
    have hlongest := h.read_longest hread hwhole heq
    have hlength := congrArg List.length heq
    simp only [List.length_append] at hlength
    omega
  · rintro ⟨hwhole, hends⟩
    cases hread : read (text ++ behind) with
    | none =>
      have hnone := h.grows behind hread
      rw [h.whole.mpr hwhole] at hnone
      cases hnone
    | some result =>
      obtain ⟨w, rest⟩ := result
      obtain ⟨front, heq, hfront⟩ := h.read_front hread
      have hlength := congrArg List.length heq
      simp only [List.length_append] at hlength
      have hlongest := h.read_longest hread hwhole rfl
      have hshort : ¬text.length < front.length := fun hlonger => hends ⟨front, rest, w, heq, hlonger, hfront⟩
      obtain ⟨rfl, rfl⟩ := List.append_inj heq (by omega)
      rw [h.unique hwhole hfront]

/-- Nothing is read of a text in which nothing begins that is read to its end. -/
theorem Lawful.read_none_iff (h : Lawful Reads read) : read behind = none ↔ ¬GoesOn Reads [] behind := by
  constructor
  · rintro hnone ⟨front, rest, v, heq, _, hwhole⟩
    rw [List.nil_append] at heq
    rw [heq] at hnone
    have hfront := h.whole.mpr hwhole
    rw [h.grows rest hnone] at hfront
    cases hfront
  · intro hends
    cases hread : read behind with
    | none => rfl
    | some result =>
      obtain ⟨v, rest⟩ := result
      obtain ⟨front, heq, hwhole⟩ := h.read_front hread
      exact absurd ⟨front, rest, v, heq, List.length_pos_of_ne_nil (h.ne_nil hwhole), hwhole⟩ hends

theorem Lawful.ends_cons (h : Lawful Reads read) {nothing : β} (hne : text ≠ []) :
    ends read nothing text behind = some v ↔ Reads text v ∧ ¬GoesOn Reads text behind := by
  rw [← h.read_iff, ends]
  cases hread : read (text ++ behind) with
  | none => simp [hne]
  | some result =>
    obtain ⟨w, rest⟩ := result
    simp only [Option.ite_none_right_eq_some, Option.some.injEq, Prod.mk.injEq]
    constructor
    · rintro ⟨hlength, rfl⟩
      refine ⟨rfl, List.IsSuffix.eq_of_length ?_ hlength⟩
      exact List.suffix_of_suffix_length_le (h.suffix hread) (List.suffix_append text behind) hlength.le
    · rintro ⟨rfl, rfl⟩
      exact ⟨rfl, rfl⟩

theorem Lawful.ends_nil (h : Lawful Reads read) {nothing : β} :
    ends read nothing [] behind = if read behind = none then some nothing else none := by
  rw [ends, List.nil_append]
  cases hread : read behind with
  | none => rfl
  | some result =>
    have hmoves := h.moves hread
    rw [if_neg (Option.some_ne_none result)]
    exact if_neg hmoves.ne

/-- When the test accepts just what it should, with the value that it should: the empty text it refuses only where
something begins behind it, and any other text that is read to its end has to go on exactly where it is not good. -/
theorem Lawful.ends_exact_iff (h : Lawful Reads read) (nothing : β) (text behind : List α) (value : β → γ)
    (Good : List α → γ → Prop) (hgood : ∀ {text g}, Good text g → ∃ v, Reads text v ∧ value v = g) :
    (∀ g, (ends read nothing text behind).map value = some g ↔ Good text g) ↔
      (text = [] → GoesOn Reads [] behind) ∧
        ∀ v, Reads text v → (Good text (value v) ↔ ¬GoesOn Reads text behind) := by
  by_cases hne : text = []
  · subst hne
    have hbad : ∀ g, ¬Good [] g := by
      intro g hg
      obtain ⟨v, hwhole, _⟩ := hgood hg
      exact h.ne_nil hwhole rfl
    rw [h.ends_nil]
    have hnone : read behind = none ↔ ¬GoesOn Reads [] behind := h.read_none_iff
    constructor
    · intro hexact
      refine ⟨fun _ => ?_, fun v hwhole => absurd rfl (h.ne_nil hwhole)⟩
      by_contra hends
      have haccept := hexact (value nothing)
      rw [if_pos (hnone.mpr hends)] at haccept
      exact hbad _ (haccept.mp rfl)
    · rintro ⟨hgoes, _⟩ g
      rw [if_neg fun hread => hnone.mp hread (hgoes rfl)]
      exact iff_of_false (by simp) (hbad g)
  · have hends : ∀ g, (ends read nothing text behind).map value = some g ↔
        ∃ v, (Reads text v ∧ ¬GoesOn Reads text behind) ∧ value v = g := by
      intro g
      rw [Option.map_eq_some_iff]
      exact exists_congr fun v => and_congr_left fun _ => h.ends_cons hne
    simp only [hends, hne, false_implies, true_and]
    constructor
    · intro hexact v hwhole
      rw [← hexact (value v)]
      constructor
      · rintro ⟨w, ⟨_, hends⟩, _⟩
        exact hends
      · intro hends
        exact ⟨v, ⟨hwhole, hends⟩, rfl⟩
    · intro hexact g
      constructor
      · rintro ⟨v, ⟨hwhole, hends⟩, rfl⟩
        exact (hexact v hwhole).mpr hends
      · intro hg
        obtain ⟨v, hwhole, rfl⟩ := hgood hg
        exact ⟨v, ⟨hwhole, (hexact v hwhole).mp hg⟩, rfl⟩

section Combining

variable {Reads' : List α → β → Prop} {read' : List α → Option (β × List α)} {p : α → Bool}

theorem suffix_split {left : List α} (hsuffix : rest ++ behind <:+ left) (hleft : left <:+ text ++ behind) :
    ∃ middle, left = middle ++ rest ++ behind ∧ middle ++ rest <:+ text := by
  obtain ⟨middle, rfl⟩ := hsuffix
  obtain ⟨passed, hpassed⟩ := hleft
  refine ⟨middle, (List.append_assoc _ _ _).symm, passed, ?_⟩
  rw [← List.append_assoc, ← List.append_assoc] at hpassed
  rw [← List.append_assoc]
  exact List.append_cancel_right hpassed

/-- What is dropped off a text without touching its end is dropped without the end as well. -/
theorem dropWhile_front (h : (text ++ behind).dropWhile p = rest ++ behind) :
    text.dropWhile p = rest ∧ (text ++ behind).takeWhile p = text.takeWhile p := by
  have hrest : text.dropWhile p = rest := by
    rw [List.dropWhile_append] at h
    split at h
    next hempty =>
      rw [List.isEmpty_iff.mp hempty]
      have hlength := (List.dropWhile_suffix p (l := behind)).length_le
      rw [h, List.length_append] at hlength
      exact (List.eq_nil_of_length_eq_zero (by omega)).symm
    next => exact List.append_cancel_right h
  refine ⟨hrest, ?_⟩
  have hsplit := List.takeWhile_append_dropWhile (p := p) (l := text ++ behind)
  rw [h, ← List.append_assoc] at hsplit
  have htext := List.takeWhile_append_dropWhile (p := p) (l := text)
  rw [hrest] at htext
  exact List.append_cancel_right ((List.append_cancel_right hsplit).trans htext.symm)

/-- A reader that skips what may stand in front. -/
theorem Lawful.skipping (h : Lawful Reads read) (hhead : ∀ {text v}, Reads text v → ∀ c ∈ text.head?, p c = false) :
    Lawful (fun text v => ∃ gap body, text = gap ++ body ∧ (∀ c ∈ gap, p c = true) ∧ Reads body v)
      (fun text => read (text.dropWhile p)) where
  whole := by
    intro text v
    rw [h.whole]
    constructor
    · intro hreads
      refine ⟨text.takeWhile p, text.dropWhile p, List.takeWhile_append_dropWhile.symm, ?_, hreads⟩
      exact fun c hc => List.mem_takeWhile_imp hc
    · rintro ⟨gap, body, rfl, hgap, hreads⟩
      obtain ⟨c, tail, rfl⟩ := List.exists_cons_of_ne_nil (h.ne_nil hreads)
      rw [List.dropWhile_append_of_pos hgap, List.dropWhile_cons_of_neg (by simp [hhead hreads c rfl])]
      exact hreads
  suffix hread := (h.suffix hread).trans (List.dropWhile_suffix p)
  moves hread := (h.moves hread).trans_le (List.dropWhile_suffix p).length_le
  front := by
    intro text behind v rest hread
    rw [List.dropWhile_append] at hread
    split at hread
    next hempty =>
      have hmoves := h.moves hread
      have hlength := (List.dropWhile_suffix p (l := behind)).length_le
      rw [List.length_append] at hmoves
      omega
    next => exact h.front hread
  grows := by
    intro text behind hnone
    rw [List.dropWhile_append] at hnone
    split at hnone
    next hempty =>
      rw [List.isEmpty_iff.mp hempty]
      exact h.grows (behind.dropWhile p) hnone
    next => exact h.grows behind hnone

/-- A reader and another for what it does not read. -/
theorem Lawful.orElse (h : Lawful Reads read) (h' : Lawful Reads' read')
    (hapart : ∀ {text v}, Reads' text v → read text = none) :
    Lawful (fun text v => Reads text v ∨ Reads' text v) (fun text => read text <|> read' text) where
  whole := by
    intro text v
    rw [← h.whole, ← h'.whole]
    cases hread : read text with
    | none => simp
    | some result =>
      constructor
      · exact fun hwhole => .inl hwhole
      · rintro (hwhole | hwhole)
        · exact hwhole
        · rw [hapart (h'.whole.mp hwhole)] at hread
          cases hread
  suffix := by
    intro text v rest hread
    rcases (Option.orElse_eq_some _ _ _).mp hread with hread | ⟨_, hread⟩
    · exact h.suffix hread
    · exact h'.suffix hread
  moves := by
    intro text v rest hread
    rcases (Option.orElse_eq_some _ _ _).mp hread with hread | ⟨_, hread⟩
    · exact h.moves hread
    · exact h'.moves hread
  front := by
    intro text behind v rest hread
    apply (Option.orElse_eq_some _ _ _).mpr
    rcases (Option.orElse_eq_some _ _ _).mp hread with hread | ⟨hnone, hread⟩
    · exact .inl (h.front hread)
    · exact .inr ⟨h.grows behind hnone, h'.front hread⟩
  grows := by
    intro text behind hnone
    obtain ⟨hfirst, hsecond⟩ := (Option.orElse_eq_none _ _).mp hnone
    exact (Option.orElse_eq_none _ _).mpr ⟨h.grows behind hfirst, h'.grows behind hsecond⟩

/-- As many characters of a kind as there are, at least one. -/
theorem lawful_run (p : α → Bool) (value : List α → β) :
    Lawful (fun text v => (text ≠ [] ∧ ∀ c ∈ text, p c = true) ∧ value text = v)
      (fun text => if text.takeWhile p = [] then none else some (value (text.takeWhile p), text.dropWhile p)) where
  whole := by
    intro text v
    rw [Option.ite_none_left_eq_some, Option.some.injEq, Prod.mk.injEq, List.dropWhile_eq_nil_iff]
    constructor
    · rintro ⟨hne, hvalue, hall⟩
      have hself : text.takeWhile p = text := List.takeWhile_eq_self_iff.mpr hall
      rw [hself] at hne hvalue
      exact ⟨⟨hne, hall⟩, hvalue⟩
    · rintro ⟨⟨hne, hall⟩, hvalue⟩
      rw [List.takeWhile_eq_self_iff.mpr hall]
      exact ⟨hne, hvalue, hall⟩
  suffix := by
    intro text v rest hread
    rw [Option.ite_none_left_eq_some, Option.some.injEq, Prod.mk.injEq] at hread
    rw [← hread.2.2]
    exact List.dropWhile_suffix p
  moves := by
    intro text v rest hread
    rw [Option.ite_none_left_eq_some, Option.some.injEq, Prod.mk.injEq] at hread
    have hsplit := congrArg List.length (List.takeWhile_append_dropWhile (p := p) (l := text))
    have hpos := List.length_pos_of_ne_nil hread.1
    rw [List.length_append, hread.2.2] at hsplit
    omega
  front := by
    intro text behind v rest hread
    rw [Option.ite_none_left_eq_some, Option.some.injEq, Prod.mk.injEq] at hread ⊢
    obtain ⟨hrest, htake⟩ := dropWhile_front hread.2.2
    rw [htake] at hread
    exact ⟨hread.1, hread.2.1, hrest⟩
  grows := by
    intro text behind hnone
    cases text with
    | nil => rfl
    | cons c text =>
      rw [List.cons_append] at hnone
      by_cases hc : p c = true
      · rw [List.takeWhile_cons_of_pos hc, if_neg (List.cons_ne_nil _ _)] at hnone
        cases hnone
      · rw [List.takeWhile_cons_of_neg hc, if_pos rfl]

/-- What a reader does behind another one, where it may read nothing. -/
structure LawfulEnd (Ends : γ → List α → β → Prop) (readEnd : γ → List α → β × List α) : Prop where
  whole : ∀ {a text v}, readEnd a text = (v, []) ↔ Ends a text v
  suffix : ∀ {a text v rest}, readEnd a text = (v, rest) → rest <:+ text
  front : ∀ {a text behind v rest}, readEnd a (text ++ behind) = (v, rest ++ behind) → readEnd a text = (v, rest)

/-- A reader, and another behind it that the first one leaves alone. -/
theorem Lawful.andThen {Begins : List α → γ → Prop} {begin_ : List α → Option (γ × List α)}
    {Ends : γ → List α → β → Prop} {readEnd : γ → List α → β × List α} (h : Lawful Begins begin_)
    (h' : LawfulEnd Ends readEnd)
    (hstops : ∀ {front back a v}, Begins front a → Ends a back v → ¬GoesOn Begins front back) :
    Lawful (fun text v => ∃ front back a, text = front ++ back ∧ Begins front a ∧ Ends a back v)
      (fun text => (begin_ text).map fun read => readEnd read.1 read.2) where
  whole := by
    intro text v
    rw [Option.map_eq_some_iff]
    constructor
    · rintro ⟨⟨a, rest⟩, hbegin, hend⟩
      obtain ⟨front, htext, hfront⟩ := h.read_front hbegin
      exact ⟨front, rest, a, htext, hfront, h'.whole.mp hend⟩
    · rintro ⟨front, back, a, rfl, hfront, hback⟩
      exact ⟨(a, back), h.read_iff.mpr ⟨hfront, hstops hfront hback⟩, h'.whole.mpr hback⟩
  suffix := by
    intro text v rest hread
    obtain ⟨⟨a, left⟩, hbegin, hend⟩ := Option.map_eq_some_iff.mp hread
    exact (h'.suffix hend).trans (h.suffix hbegin)
  moves := by
    intro text v rest hread
    obtain ⟨⟨a, left⟩, hbegin, hend⟩ := Option.map_eq_some_iff.mp hread
    exact (h'.suffix hend).length_le.trans_lt (h.moves hbegin)
  front := by
    intro text behind v rest hread
    obtain ⟨⟨a, left⟩, hbegin, hend⟩ := Option.map_eq_some_iff.mp hread
    obtain ⟨middle, rfl, _⟩ := suffix_split (h'.suffix hend) (h.suffix hbegin)
    exact Option.map_eq_some_iff.mpr ⟨(a, middle ++ rest), h.front hbegin, h'.front hend⟩
  grows := by
    intro text behind hnone
    rw [Option.map_eq_none_iff] at hnone ⊢
    exact h.grows behind hnone

/-- A reader behind a mark of a fixed length. -/
theorem Lawful.marked (h : Lawful Reads read) (n : Nat) (mark : List α → Bool) :
    Lawful (fun text v => ∃ front body, text = front ++ body ∧ front.length = n ∧ mark front = true ∧ Reads body v)
      (fun text => if mark (text.take n) ∧ n ≤ text.length then read (text.drop n) else none) where
  whole := by
    intro text v
    rw [Option.ite_none_right_eq_some, h.whole]
    constructor
    · rintro ⟨⟨hmark, hlength⟩, hreads⟩
      have hsplit := List.take_append_drop n text
      exact ⟨text.take n, text.drop n, hsplit.symm, List.length_take_of_le hlength, hmark, hreads⟩
    · rintro ⟨front, body, rfl, rfl, hmark, hreads⟩
      rw [List.take_left, List.drop_left, List.length_append]
      exact ⟨⟨hmark, Nat.le_add_right _ _⟩, hreads⟩
  suffix := by
    intro text v rest hread
    rw [Option.ite_none_right_eq_some] at hread
    exact (h.suffix hread.2).trans (List.drop_suffix n text)
  moves := by
    intro text v rest hread
    rw [Option.ite_none_right_eq_some] at hread
    exact (h.moves hread.2).trans_le (List.drop_suffix n text).length_le
  front := by
    intro text behind v rest hread
    rw [Option.ite_none_right_eq_some] at hread ⊢
    obtain ⟨⟨hmark, hlength⟩, hread⟩ := hread
    have hmoves := h.moves hread
    rw [List.length_drop, List.length_append, List.length_append] at hmoves
    have hshort : n ≤ text.length := by omega
    rw [List.take_append_of_le_length hshort] at hmark
    rw [List.drop_append_of_le_length hshort] at hread
    exact ⟨⟨hmark, hshort⟩, h.front hread⟩
  grows := by
    intro text behind hnone
    by_cases hmark : mark (text.take n) ∧ n ≤ text.length
    · rw [if_pos hmark]
      rw [List.take_append_of_le_length hmark.2, List.drop_append_of_le_length hmark.2, if_pos] at hnone
      · exact h.grows behind hnone
      · rw [List.length_append]
        exact ⟨hmark.1, hmark.2.trans (Nat.le_add_right _ _)⟩
    · rw [if_neg hmark]

end Combining

end Reading
