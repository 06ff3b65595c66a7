import Mathlib.Tactic.Common
import Mathlib.Data.List.Basic
import Mathlib.Logic.Function.Basic

/-- A ring of cells that gives up its oldest entry for a new one once it is full. -/
structure RingBuffer (α : Type*) where
  cells : Nat → α
  head : Nat := 0
  count : Nat := 0

namespace RingBuffer

variable {α : Type*} {cap : Nat} {r : RingBuffer α} {stream : List α}

def push (cap : Nat) (x : α) (r : RingBuffer α) : RingBuffer α where
  cells := Function.update r.cells r.head x
  head := (r.head + 1) % cap
  count := if r.count < cap then r.count + 1 else r.count

/-- Where the oldest entry is. -/
def start (cap : Nat) (r : RingBuffer α) : Nat := (r.head + cap - r.count) % cap

/-- The `i`-th entry from the oldest. -/
def entry (cap : Nat) (r : RingBuffer α) (i : Nat) : α := r.cells ((r.start cap + i) % cap)

/-- The entries, the oldest first. -/
def entries (cap : Nat) (r : RingBuffer α) : List α := (List.range r.count).map (r.entry cap)

/-- The ring has been filled with a stream: what it holds is the end of it. -/
structure Holds (cap : Nat) (r : RingBuffer α) (stream : List α) : Prop where
  head : r.head = stream.length % cap
  count : r.count = min stream.length cap
  cells : ∀ i (hi : i < stream.length), stream.length ≤ i + cap → r.cells (i % cap) = stream[i]

theorem Holds.empty (cells : Nat → α) : Holds cap { cells := cells } [] :=
  ⟨(Nat.zero_mod cap).symm, (Nat.zero_min cap).symm, fun _ hi => absurd hi (Nat.not_lt_zero _)⟩

/-- Two positions of the stream that are less than a turn apart are in different cells. -/
theorem cell_ne {i n : Nat} (hlt : i < n) (hnear : n < i + cap) : i % cap ≠ n % cap := by
  intro heq
  have hdvd : cap ∣ n - i := Nat.dvd_of_mod_eq_zero (Nat.sub_mod_eq_zero_of_mod_eq heq.symm)
  have hle := Nat.le_of_dvd (by omega) hdvd
  omega

theorem Holds.push (h : Holds cap r stream) (x : α) : Holds cap (r.push cap x) (stream ++ [x]) := by
  have hlength : (stream ++ [x]).length = stream.length + 1 := by simp
  constructor
  · rw [hlength, RingBuffer.push, h.head, Nat.mod_add_mod]
  · rw [hlength, RingBuffer.push, h.count]
    dsimp only
    split_ifs <;> omega
  · intro i hi hnear
    rw [hlength] at hi hnear
    rw [RingBuffer.push, h.head]
    dsimp only
    by_cases hlast : i = stream.length
    · subst hlast
      rw [Function.update_self, List.getElem_concat_length rfl]
    · have hbefore : i < stream.length := by omega
      rw [Function.update_of_ne (cell_ne hbefore (by omega)), List.getElem_append_left hbefore]
      exact h.cells i hbefore (by omega)

/-- Pushing a whole list. -/
theorem Holds.foldl_push (h : Holds cap r stream) (more : List α) :
    Holds cap (more.foldl (fun r x => r.push cap x) r) (stream ++ more) := by
  induction more generalizing r stream with
  | nil =>
    rw [List.append_nil]
    exact h
  | cons x more ih =>
    have hnext := ih (h.push x)
    rw [List.append_assoc, List.singleton_append] at hnext
    exact hnext

/-- The `i`-th entry is the `i`-th of the end of the stream. -/
theorem Holds.entry_eq (h : Holds cap r stream) {i : Nat} (hi : i < r.count)
    (hlt : stream.length - r.count + i < stream.length) : r.entry cap i = stream[stream.length - r.count + i] := by
  have hcount := h.count
  have hcell : (r.start cap + i) % cap = (stream.length - r.count + i) % cap := by
    rw [start, Nat.mod_add_mod]
    by_cases hfull : stream.length < cap
    · have hhead : r.head = stream.length := by rw [h.head, Nat.mod_eq_of_lt hfull]
      have hturn : r.head + cap - r.count + i = stream.length - r.count + i + cap := by omega
      rw [hturn, Nat.add_mod_right]
    · have hwhole : r.head + cap - r.count + i = stream.length % cap + i := by
        rw [h.head]
        omega
      have hturn : stream.length + i = stream.length - r.count + i + cap := by omega
      rw [hwhole, Nat.mod_add_mod, hturn, Nat.add_mod_right]
  rw [entry, hcell]
  exact h.cells _ hlt (by omega)

theorem length_entries : (r.entries cap).length = r.count := by
  rw [entries, List.length_map, List.length_range]

/-- The entries are the end of the stream. -/
theorem Holds.entries_eq (h : Holds cap r stream) : r.entries cap = stream.drop (stream.length - r.count) := by
  have hcount := h.count
  apply List.ext_getElem
  · rw [length_entries, List.length_drop]
    omega
  · intro i hi hdrop
    rw [length_entries] at hi
    rw [List.getElem_drop]
    simp only [entries, List.getElem_map, List.getElem_range]
    rw [List.length_drop] at hdrop
    exact h.entry_eq hi (by omega)

end RingBuffer
