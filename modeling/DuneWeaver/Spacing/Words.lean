import Mathlib.Tactic.Common
import Mathlib.Data.List.TakeWhile

namespace Spacing

variable {α τ : Type*} {space : α → Bool}

/-- Nothing but space. -/
def Blank (space : α → Bool) (gap : List α) : Prop := ∀ c ∈ gap, space c = true

instance (gap : List α) : Decidable (Blank space gap) := inferInstanceAs (Decidable (∀ c ∈ gap, space c = true))

/-- A text that neither begins nor ends in space. -/
structure Solid (space : α → Bool) (text : List α) : Prop where
  begins : ∃ c rest, text = c :: rest ∧ space c = false
  ends : ∃ front c, text = front ++ [c] ∧ space c = false

/-- A text without the space at its ends. -/
def trimmed (space : α → Bool) (text : List α) : List α :=
  ((text.dropWhile space).reverse.dropWhile space).reverse

theorem Solid.ne_nil {text : List α} (h : Solid space text) : text ≠ [] := by
  obtain ⟨c, rest, rfl, _⟩ := h.begins
  exact List.cons_ne_nil c rest

/-- What has no space in it is solid. -/
theorem Solid.of_plain {text : List α} (hne : text ≠ []) (hplain : ∀ c ∈ text, space c = false) : Solid space text where
  begins := by
    obtain ⟨c, rest, rfl⟩ := List.exists_cons_of_ne_nil hne
    exact ⟨c, rest, rfl, hplain c List.mem_cons_self⟩
  ends :=
    ⟨text.dropLast, text.getLast hne, (List.dropLast_concat_getLast hne).symm, hplain _ (List.getLast_mem hne)⟩

/-- Two solid texts are solid together, whatever stands between them. -/
theorem Solid.append {first last : List α} (hfirst : Solid space first) (middle : List α) (hlast : Solid space last) :
    Solid space (first ++ (middle ++ last)) where
  begins := by
    obtain ⟨c, rest, rfl, hc⟩ := hfirst.begins
    exact ⟨c, rest ++ (middle ++ last), rfl, hc⟩
  ends := by
    obtain ⟨front, c, rfl, hc⟩ := hlast.ends
    exact ⟨first ++ (middle ++ front), c, by simp only [List.append_assoc], hc⟩

theorem dropWhile_blank {gap : List α} (hgap : Blank space gap) (rest : List α) :
    (gap ++ rest).dropWhile space = rest.dropWhile space :=
  List.dropWhile_append_of_pos hgap

theorem trimmed_blank {gap : List α} (hgap : Blank space gap) : trimmed space gap = [] := by
  have hdrop : gap.dropWhile space = [] := List.dropWhile_eq_nil_iff.mpr hgap
  rw [trimmed, hdrop]
  rfl

theorem Solid.dropWhile {text : List α} (h : Solid space text) (rest : List α) :
    (text ++ rest).dropWhile space = text ++ rest := by
  obtain ⟨c, front, rfl, hc⟩ := h.begins
  exact List.dropWhile_cons_of_neg (by simp [hc])

theorem Blank.reverse {gap : List α} (h : Blank space gap) : Blank space gap.reverse :=
  fun c hc => h c (List.mem_reverse.mp hc)

theorem Solid.reverse {text : List α} (h : Solid space text) : Solid space text.reverse where
  begins := by
    obtain ⟨front, c, rfl, hc⟩ := h.ends
    exact ⟨c, front.reverse, by simp, hc⟩
  ends := by
    obtain ⟨c, rest, rfl, hc⟩ := h.begins
    exact ⟨rest.reverse, c, by simp, hc⟩

/-- The space around a solid text is taken away. -/
theorem trimmed_solid {lead text trail : List α} (hlead : Blank space lead) (htext : Solid space text)
    (htrail : Blank space trail) : trimmed space (lead ++ (text ++ trail)) = text := by
  rw [trimmed, dropWhile_blank hlead, htext.dropWhile, List.reverse_append, dropWhile_blank htrail.reverse]
  have hreverse := htext.reverse.dropWhile []
  rw [List.append_nil] at hreverse
  rw [hreverse, List.reverse_reverse]

/-- A text is space, or solid between the space at its ends. -/
theorem blank_or_solid (space : α → Bool) (text : List α) :
    Blank space text ∨ ∃ lead mid trail, text = lead ++ (mid ++ trail) ∧
      Blank space lead ∧ Solid space mid ∧ Blank space trail := by
  cases hrest : text.dropWhile space with
  | nil => exact .inl (List.dropWhile_eq_nil_iff.mp hrest)
  | cons c rest =>
    have hhead : ∀ {p : List α} {d tail}, p.dropWhile space = d :: tail → space d = false := by
      intro p d tail hp
      have hnot := List.head_dropWhile_not space (l := p) (by rw [hp]; exact List.cons_ne_nil _ _)
      simpa [hp] using hnot
    have hc : space c = false := hhead hrest
    cases hback : (c :: rest).reverse.dropWhile space with
    | nil =>
      have hblank := List.dropWhile_eq_nil_iff.mp hback c (List.mem_reverse.mpr List.mem_cons_self)
      rw [hc] at hblank
      exact Bool.noConfusion hblank
    | cons d front =>
      have hsplit : c :: rest = (d :: front).reverse ++ ((c :: rest).reverse.takeWhile space).reverse := by
        rw [← hback, ← List.reverse_append, List.takeWhile_append_dropWhile, List.reverse_reverse]
      refine .inr ⟨text.takeWhile space, (d :: front).reverse, ((c :: rest).reverse.takeWhile space).reverse, ?_,
        fun _ h => List.mem_takeWhile_imp h, ⟨?_, ?_⟩, Blank.reverse fun _ h => List.mem_takeWhile_imp h⟩
      · rw [← hsplit, ← hrest, List.takeWhile_append_dropWhile]
      · obtain ⟨e, mid, hmid⟩ := List.exists_cons_of_ne_nil (by simp : (d :: front).reverse ≠ [])
        rw [hmid, List.cons_append] at hsplit
        exact ⟨e, mid, hmid, (List.cons.inj hsplit).1 ▸ hc⟩
      · exact ⟨front.reverse, d, List.reverse_cons, hhead hback⟩

theorem blank_nil : Blank space ([] : List α) := fun _ h => absurd h List.not_mem_nil

theorem trimmed_self {text : List α} (h : Solid space text) : trimmed space text = text := by
  have htrimmed := trimmed_solid blank_nil h blank_nil
  rw [List.append_nil, List.nil_append] at htrimmed
  exact htrimmed

/-- A solid text in front stays. -/
theorem trimmed_begins {text : List α} (h : Solid space text) (behind : List α) :
    ∃ left, trimmed space (text ++ behind) = text ++ left := by
  rcases blank_or_solid space behind with hblank | ⟨lead, mid, trail, rfl, _, hmid, htrail⟩
  · exact ⟨[], by rw [List.append_nil]; exact trimmed_solid blank_nil h hblank⟩
  · have htrimmed := trimmed_solid blank_nil (h.append lead hmid) htrail
    rw [List.nil_append] at htrimmed
    exact ⟨lead ++ mid, by simpa only [List.append_assoc] using htrimmed⟩

theorem trimmed_trimmed (text : List α) : trimmed space (trimmed space text) = trimmed space text := by
  rcases blank_or_solid space text with hblank | ⟨lead, mid, trail, rfl, hlead, hmid, htrail⟩
  · rw [trimmed_blank hblank]
    rfl
  · rw [trimmed_solid hlead hmid htrail, trimmed_self hmid]

section Row

variable (text : τ → List α)

/-- The text of words with the space in front of each. -/
def row (words : List (List α × τ)) : List α := words.flatMap fun w => w.1 ++ text w.2

variable {text} {gap : List α} {first : τ} {words : List (List α × τ)}

theorem row_cons : row text ((gap, first) :: words) = gap ++ (text first ++ row text words) := by
  rw [row, List.flatMap_cons, List.append_assoc]
  rfl

/-- A row is solid but for the space in front. -/
theorem solid_row (hfirst : Solid space (text first)) (hwords : ∀ w ∈ words, Solid space (text w.2)) :
    Solid space (text first ++ row text words) := by
  induction words generalizing first with
  | nil =>
    rw [row, List.flatMap_nil, List.append_nil]
    exact hfirst
  | cons w words ih =>
    rw [row_cons]
    exact hfirst.append w.1 (ih (hwords w List.mem_cons_self) fun v hv => hwords v (List.mem_cons_of_mem _ hv))

end Row

section Cut

variable [DecidableEq α] {d : α}

theorem takeWhile_absent {front : List α} (hfront : d ∉ front) (rest : List α) :
    (front ++ rest).takeWhile (· ≠ d) = front ++ rest.takeWhile (· ≠ d) :=
  List.takeWhile_append_of_pos fun c hc => by
    rw [decide_eq_true_eq]
    rintro rfl
    exact hfront hc

theorem dropWhile_absent {front : List α} (hfront : d ∉ front) (rest : List α) :
    (front ++ rest).dropWhile (· ≠ d) = rest.dropWhile (· ≠ d) :=
  List.dropWhile_append_of_pos fun c hc => by
    rw [decide_eq_true_eq]
    rintro rfl
    exact hfront hc

theorem takeWhile_mark (rest : List α) : (d :: rest).takeWhile (· ≠ d) = [] :=
  List.takeWhile_cons_of_neg (by simp)

theorem dropWhile_mark (rest : List α) : (d :: rest).dropWhile (· ≠ d) = d :: rest :=
  List.dropWhile_cons_of_neg (by simp)

end Cut

end Spacing
