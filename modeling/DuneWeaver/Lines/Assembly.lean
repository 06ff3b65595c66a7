import Mathlib.Tactic.Common
import Mathlib.Data.List.Basic

namespace Lines

variable {α : Type*} [DecidableEq α]

/-- The control characters of a text that is typed in line by line, and the
length its lines are cut off at. -/
structure Conventions (α : Type*) where
  cr : α
  lf : α
  bs : α
  max : Nat
  cr_ne_lf : cr ≠ lf
  bs_ne_cr : bs ≠ cr
  bs_ne_lf : bs ≠ lf

namespace Conventions

variable (conv : Conventions α)

/-- The characters that end a line. -/
def ends (c : α) : Bool := c = conv.cr || c = conv.lf

/-- The text without the line feeds that come directly after a carriage return.
`before` is what comes before the text. -/
def unpaired (before : Option α) (text : List α) : List α :=
  ((before :: text.map some).zip text).filterMap fun (previous, c) =>
    if previous = some conv.cr ∧ c = conv.lf then none else some c

/-- A line as it stands after its characters: a backspace deletes the last one,
and there is no room for more than `max`. -/
def edited (typed : List α) : List α :=
  typed.foldl (fun line c =>
    if c = conv.bs then line.dropLast
    else if line.length < conv.max then line ++ [c] else line) []

/-- The lines of a text: what stands before each line end. What stands after the
last one is no line yet. -/
def lines (text : List α) : List (List α) :=
  (((conv.unpaired none text).splitOnP conv.ends).dropLast).map conv.edited

end Conventions

/-- A line in the making, and whether the last character was a carriage return. -/
structure Partial (α : Type*) where
  line : List α := []
  afterCR : Bool := false
  deriving DecidableEq

namespace Partial

variable (conv : Conventions α)

/-- Take one character; a line end gives the line. -/
def take (s : Partial α) (c : α) : Partial α × Option (List α) :=
  if c = conv.lf then
    if s.afterCR then ({ s with afterCR := false }, none) else ({}, some s.line)
  else if c = conv.cr then ({ afterCR := true }, some s.line)
  else if c = conv.bs then ({ line := s.line.dropLast }, none)
  else ({ line := if s.line.length < conv.max then s.line ++ [c] else s.line }, none)

/-- Take the characters of a text, and collect the lines. -/
def feed (s : Partial α) : List α → Partial α × List (List α)
  | [] => (s, [])
  | c :: text =>
    (((s.take conv c).1.feed text).1, (s.take conv c).2.toList ++ ((s.take conv c).1.feed text).2)

theorem feed_append (s : Partial α) (first second : List α) :
    s.feed conv (first ++ second) =
      (((s.feed conv first).1.feed conv second).1,
        (s.feed conv first).2 ++ ((s.feed conv first).1.feed conv second).2) := by
  induction first generalizing s with
  | nil => rfl
  | cons c first ih => simp only [List.cons_append, feed, ih, List.append_assoc]

end Partial

namespace Conventions

variable (conv : Conventions α)

theorem unpaired_cons (before : Option α) (c : α) (text : List α) :
    conv.unpaired before (c :: text) =
      if before = some conv.cr ∧ c = conv.lf then conv.unpaired (some c) text
      else c :: conv.unpaired (some c) text := by
  unfold unpaired
  simp only [List.map_cons, List.zip_cons_cons, List.filterMap_cons]
  split_ifs <;> rfl

theorem edited_concat (typed : List α) (c : α) :
    conv.edited (typed ++ [c]) =
      if c = conv.bs then (conv.edited typed).dropLast
      else if (conv.edited typed).length < conv.max then conv.edited typed ++ [c]
      else conv.edited typed := by
  unfold edited
  rw [List.foldl_append]
  rfl

@[simp] theorem ends_lf : conv.ends conv.lf = true := by simp [ends]

@[simp] theorem ends_cr : conv.ends conv.cr = true := by simp [ends]

end Conventions

namespace Partial

variable (conv : Conventions α)

/-- The induction is on the text still to come; `typed` is what has come since the
last line end, and `before` the last character. -/
theorem feed_split (s : Partial α) (before : Option α) (typed text : List α)
    (hline : s.line = conv.edited typed) (hbefore : s.afterCR = true ↔ before = some conv.cr)
    (htyped : ∀ c ∈ typed, conv.ends c = false) :
    (s.feed conv text).2 =
      (((typed ++ conv.unpaired before text).splitOnP conv.ends).dropLast).map conv.edited := by
  induction text generalizing s before typed with
  | nil =>
    rw [show typed ++ conv.unpaired before [] = typed by simp [Conventions.unpaired],
      List.splitOnP_eq_singleton htyped]
    rfl
  | cons c text ih =>
    have hsplit : ∀ rest, conv.ends c = true →
        (((typed ++ c :: rest).splitOnP conv.ends).dropLast).map conv.edited =
          conv.edited typed :: ((rest.splitOnP conv.ends).dropLast).map conv.edited := by
      intro rest hend
      rw [List.splitOnP_append_cons_of_forall_mem htyped c hend]
      obtain ⟨first, more, hsplit⟩ := List.exists_cons_of_ne_nil (List.splitOnP_ne_nil conv.ends rest)
      rw [hsplit]
      rfl
    by_cases hlf : c = conv.lf
    · subst hlf
      have hfresh := ih {} (some conv.lf) [] rfl (by simpa using conv.cr_ne_lf.symm) (by simp)
      by_cases hpaired : before = some conv.cr
      · -- the second half of a CR LF pair ends no line
        have hcr := hbefore.mpr hpaired
        have hnext := ih { s with afterCR := false } (some conv.lf) typed hline
          (by simpa using conv.cr_ne_lf.symm) htyped
        rw [Conventions.unpaired_cons, if_pos ⟨hpaired, rfl⟩]
        simpa [feed, take, hcr] using hnext
      · have hcr : s.afterCR = false := by
          simpa using fun h => hpaired (hbefore.mp h)
        rw [Conventions.unpaired_cons, if_neg fun h => hpaired h.1, hsplit _ (by simp)]
        simpa [feed, take, hcr, hline] using hfresh
    · rw [Conventions.unpaired_cons, if_neg fun h => hlf h.2]
      by_cases hcr : c = conv.cr
      · subst hcr
        have hnext := ih { afterCR := true } (some conv.cr) [] rfl (by simp) (by simp)
        rw [hsplit _ (by simp)]
        simpa [feed, take, hlf, hline] using hnext
      · have hend : conv.ends c = false := by simp [Conventions.ends, hcr, hlf]
        have hmore : ∀ d ∈ typed ++ [c], conv.ends d = false := by
          intro d hd
          rcases List.mem_append.mp hd with hd | hd
          · exact htyped d hd
          · rwa [List.mem_singleton.mp hd]
        have hnext := fun line hline => ih { line := line } (some c) (typed ++ [c]) hline
          (by simpa using hcr) hmore
        simp only [List.append_assoc, List.singleton_append] at hnext
        unfold feed take
        rw [if_neg hlf, if_neg hcr]
        by_cases hbs : c = conv.bs
        · rw [if_pos hbs]
          have hdel : s.line.dropLast = conv.edited (typed ++ [c]) := by
            rw [Conventions.edited_concat, if_pos hbs, hline]
          exact hnext _ hdel
        · rw [if_neg hbs]
          have hadd : (if s.line.length < conv.max then s.line ++ [c] else s.line) =
              conv.edited (typed ++ [c]) := by
            rw [Conventions.edited_concat, if_neg hbs, hline]
          exact hnext _ hadd

/-- Feeding a text character by character gives its lines. -/
theorem feed_lines (text : List α) : (feed conv {} text).2 = conv.lines text :=
  feed_split conv {} none [] text rfl (by simp) (by simp)

/-- Take characters up to the first line that is complete. What is left of the
text comes last. -/
def next (s : Partial α) : List α → Partial α × Option (List α) × List α
  | [] => (s, none, [])
  | c :: text =>
    match s.take conv c with
    | (s', some line) => (s', some line, text)
    | (s', none) => s'.next text

/-- Either there is a complete line in the text, and the lines of the text are that
line and those of the rest, or all of the text is taken and there is none. -/
theorem next_spec (s : Partial α) (text : List α) :
    (∃ s' line rest, s.next conv text = (s', some line, rest) ∧
        s.feed conv text = ((s'.feed conv rest).1, line :: (s'.feed conv rest).2)) ∨
      ∃ s', s.next conv text = (s', none, []) ∧ s.feed conv text = (s', []) := by
  induction text generalizing s with
  | nil => exact .inr ⟨s, rfl, rfl⟩
  | cons c text ih =>
    rcases htake : s.take conv c with ⟨s', _ | line⟩
    · have hnext : s.next conv (c :: text) = s'.next conv text := by rw [next, htake]
      have hfeed : s.feed conv (c :: text) = s'.feed conv text := by rw [feed, htake]; rfl
      rw [hnext, hfeed]
      exact ih s'
    · have hnext : s.next conv (c :: text) = (s', some line, text) := by rw [next, htake]
      have hfeed : s.feed conv (c :: text) = ((s'.feed conv text).1, line :: (s'.feed conv text).2) := by
        rw [feed, htake]
        rfl
      exact .inl ⟨s', line, text, hnext, hfeed⟩

end Partial

end Lines
