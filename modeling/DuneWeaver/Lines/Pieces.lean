import Mathlib.Tactic.Common
import Mathlib.Data.List.Basic
import Mathlib.Data.List.TakeWhile

namespace Lines

variable {α : Type*} (ends : α → Bool)

/-- A text cut at its line ends. What stands behind the last one is a piece of its own unless it is empty. -/
def pieces (text : List α) : List (List α) :=
  match (text.splitOnP ends).getLast? with
  | some [] => (text.splitOnP ends).dropLast
  | _ => text.splitOnP ends

/-- The first line of a text, as far as the text goes. -/
def piece (text : List α) : List α := text.takeWhile fun c => !ends c

/-- What is left of a text behind its first line end. -/
def behind (text : List α) : List α := (text.dropWhile fun c => !ends c).tail

variable {ends}

theorem piece_of_end {c : α} (hc : ends c = true) (text : List α) : piece ends (c :: text) = [] :=
  List.takeWhile_cons_of_neg (by simp [hc])

theorem piece_of_char {c : α} (hc : ends c = false) (text : List α) :
    piece ends (c :: text) = c :: piece ends text :=
  List.takeWhile_cons_of_pos (by simp [hc])

theorem behind_of_end {c : α} (hc : ends c = true) (text : List α) : behind ends (c :: text) = text := by
  rw [behind, List.dropWhile_cons_of_neg (by simp [hc]), List.tail_cons]

theorem behind_of_char {c : α} (hc : ends c = false) (text : List α) :
    behind ends (c :: text) = behind ends text := by
  rw [behind, List.dropWhile_cons_of_pos (by simp [hc]), behind]

theorem pieces_nil : pieces ends ([] : List α) = [] := by
  rfl

/-- The pieces are the first line, and the pieces of what is left behind it. -/
theorem pieces_of_ne_nil {text : List α} (h : text ≠ []) :
    pieces ends text = piece ends text :: pieces ends (behind ends text) := by
  have hplain : ∀ c ∈ piece ends text, ends c = false := by
    intro c hc
    simpa using List.mem_takeWhile_imp hc
  have htext : text = piece ends text ++ text.dropWhile fun c => !ends c := List.takeWhile_append_dropWhile.symm
  cases hrest : text.dropWhile fun c => !ends c with
  | nil =>
    rw [hrest, List.append_nil] at htext
    have hbehind : behind ends text = [] := by rw [behind, hrest, List.tail_nil]
    rw [hbehind, pieces_nil, ← htext]
    rw [← htext] at hplain
    unfold pieces
    rw [List.splitOnP_eq_singleton hplain, List.getLast?_singleton]
    split
    · next hempty => exact absurd (Option.some.inj hempty) h
    · rfl
  | cons c rest =>
    have hend : ends c = true := by
      have hhead := List.head_dropWhile_not (fun c => !ends c) (l := text) (by rw [hrest]; exact List.cons_ne_nil _ _)
      simpa [hrest] using hhead
    have hbehind : behind ends text = rest := by rw [behind, hrest, List.tail_cons]
    have hsplit : text.splitOnP ends = piece ends text :: rest.splitOnP ends := by
      conv_lhs => rw [htext, hrest]
      exact List.splitOnP_append_cons_of_forall_mem hplain c hend rest
    obtain ⟨first, more, hmore⟩ := List.exists_cons_of_ne_nil (List.splitOnP_ne_nil ends rest)
    unfold pieces
    rw [hbehind, hsplit, hmore, List.getLast?_cons_cons, List.dropLast_cons_cons]
    split
    · rfl
    · rfl

theorem length_behind_lt (ends : α → Bool) {text : List α} (h : text ≠ []) :
    (behind ends text).length < text.length := by
  have hle : (text.dropWhile fun c => !ends c).length ≤ text.length := (List.dropWhile_sublist _).length_le
  have hpos : 0 < text.length := List.length_pos_iff.mpr h
  unfold behind
  rw [List.length_tail]
  omega

theorem piece_append_behind (text : List α) :
    piece ends text ++ (behind ends text).filter (fun c => !ends c) = text.filter fun c => !ends c := by
  induction text with
  | nil => rfl
  | cons c text ih =>
    cases hc : ends c with
    | true => rw [piece_of_end hc, behind_of_end hc, List.nil_append, List.filter_cons_of_neg (by simp [hc])]
    | false =>
      rw [piece_of_char hc, behind_of_char hc, List.cons_append, ih, List.filter_cons_of_pos (by simp [hc])]

/-- The pieces hold the text without its line ends. -/
theorem flatten_pieces (text : List α) : (pieces ends text).flatten = text.filter fun c => !ends c := by
  by_cases h : text = []
  · subst h
    rfl
  · have hlt := length_behind_lt ends h
    rw [pieces_of_ne_nil h, List.flatten_cons, flatten_pieces (behind ends text), piece_append_behind]
termination_by text.length

theorem plain_of_mem_pieces {text line : List α} (hline : line ∈ pieces ends text) {c : α} (hc : c ∈ line) :
    ends c = false := by
  have hmem : c ∈ (pieces ends text).flatten := List.mem_flatten_of_mem hline hc
  rw [flatten_pieces, List.mem_filter] at hmem
  simpa using hmem.2

section Filter

variable {keep : α → Bool}

/-- Characters can be taken out of a text before it is cut or after, as long as its line ends stay. -/
theorem piece_filter (hkeep : ∀ c, ends c = true → keep c = true) (text : List α) :
    piece ends (text.filter keep) = (piece ends text).filter keep := by
  induction text with
  | nil => rfl
  | cons c text ih =>
    cases hend : ends c with
    | true => rw [List.filter_cons_of_pos (hkeep c hend), piece_of_end hend, piece_of_end hend, List.filter_nil]
    | false =>
      rw [piece_of_char hend]
      cases hc : keep c with
      | true => rw [List.filter_cons_of_pos hc, List.filter_cons_of_pos hc, piece_of_char hend, ih]
      | false => rw [List.filter_cons_of_neg (by simp [hc]), List.filter_cons_of_neg (by simp [hc]), ih]

theorem behind_filter (hkeep : ∀ c, ends c = true → keep c = true) (text : List α) :
    behind ends (text.filter keep) = (behind ends text).filter keep := by
  induction text with
  | nil => rfl
  | cons c text ih =>
    cases hend : ends c with
    | true => rw [List.filter_cons_of_pos (hkeep c hend), behind_of_end hend, behind_of_end hend]
    | false =>
      rw [behind_of_char hend, ← ih]
      cases hc : keep c with
      | true => rw [List.filter_cons_of_pos hc, behind_of_char hend]
      | false => rw [List.filter_cons_of_neg (by simp [hc])]

end Filter

end Lines
