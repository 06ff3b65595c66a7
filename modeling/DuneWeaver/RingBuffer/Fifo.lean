import Mathlib.Tactic.Common
import Mathlib.Data.List.Basic
import Mathlib.Data.List.Chain
import Mathlib.Logic.Function.Basic

namespace RingIndex

variable {α : Type*} {n start tail head i j k : Nat}

/-- The index after another one, on a ring of `n` cells. -/
def next (n i : Nat) : Nat := if i + 1 = n then 0 else i + 1

def prev (n i : Nat) : Nat := (if i = 0 then n else i) - 1

/-- The cell that comes `i` cells after another. -/
def place (n start i : Nat) : Nat := (start + i) % n

/-- The cells from one cell on, as they come. -/
def span (n start count : Nat) : List Nat := (List.range count).map (place n start)

theorem place_lt (hn : 0 < n) : place n start i < n := Nat.mod_lt _ hn

theorem place_zero (h : start < n) : place n start 0 = start := by
  rw [place, Nat.add_zero, Nat.mod_eq_of_lt h]

theorem place_place (a b : Nat) : place n (place n start a) b = place n start (a + b) := by
  rw [place, place, place, Nat.mod_add_mod, Nat.add_assoc]

theorem next_eq_mod (h : i < n) : next n i = (i + 1) % n := by
  unfold next
  split
  case isTrue hlast => rw [hlast, Nat.mod_self]
  case isFalse hlast => rw [Nat.mod_eq_of_lt (by omega)]

theorem next_lt (h : i < n) : next n i < n := by
  rw [next_eq_mod h]
  exact Nat.mod_lt _ (by omega)

theorem next_place (hn : 0 < n) : next n (place n start i) = place n start (i + 1) := by
  rw [next_eq_mod (place_lt hn), place, Nat.mod_add_mod, place, Nat.add_assoc]

theorem prev_next : prev n (next n i) = i := by
  unfold prev next
  split
  case isTrue hlast => rw [if_pos rfl]; omega
  case isFalse hlast => rw [if_neg (by omega)]; omega

theorem prev_place (hn : 0 < n) : prev n (place n start (i + 1)) = place n start i := by
  rw [← next_place hn, prev_next]

/-- Less than a turn apart no two places are the same. -/
theorem place_ne (hlt : i < j) (hnear : j < i + n) : place n start i ≠ place n start j := by
  intro heq
  have hdvd : n ∣ start + j - (start + i) := Nat.dvd_of_mod_eq_zero (Nat.sub_mod_eq_zero_of_mod_eq heq.symm)
  have hle := Nat.le_of_dvd (by omega) hdvd
  omega

theorem place_inj (hi : i < n) (hj : j < n) : place n start i = place n start j ↔ i = j := by
  constructor
  · intro heq
    by_contra hne
    obtain hlt | hgt := Nat.lt_or_gt_of_ne hne
    · exact place_ne hlt (by omega) heq
    · exact place_ne hgt (by omega) heq.symm
  · rintro rfl
    rfl

/-- A turn later it is the same cell again. -/
theorem place_turn : place n start (i + n) = place n start i := by
  rw [place, ← Nat.add_assoc, Nat.add_mod_right, place]

theorem length_span : (span n start k).length = k := by simp [span]

theorem mem_span : i ∈ span n start k ↔ ∃ o < k, place n start o = i := by simp [span]

theorem span_succ (start count : Nat) : span n start (count + 1) = span n start count ++ [place n start count] := by
  rw [span, List.range_succ, List.map_append, List.map_singleton, span]

theorem span_cons (h : start < n) (count : Nat) :
    span n start (count + 1) = start :: span n (next n start) count := by
  have hfirst := place_zero h
  rw [span, List.range_succ_eq_map, List.map_cons, List.map_map, hfirst, span]
  congr 1
  apply List.map_congr_left
  intro o _
  change place n start (o + 1) = place n (next n start) o
  rw [← hfirst, next_place (by omega), place_place, place_place, Nat.zero_add, Nat.zero_add, Nat.add_comm]

/-- How many cells there are from `start` up to another one. -/
def gap (n start i : Nat) : Nat := if start ≤ i then i - start else i + n - start

theorem gap_lt (hstart : start < n) (hi : i < n) : gap n start i < n := by
  unfold gap
  split <;> omega

theorem place_gap (hstart : start < n) (hi : i < n) : place n start (gap n start i) = i := by
  unfold place gap
  split
  case isTrue hle => rw [Nat.add_sub_cancel' hle, Nat.mod_eq_of_lt hi]
  case isFalse hgt =>
    have hturn : start + (i + n - start) = i + n := by omega
    rw [hturn, Nat.add_mod_right, Nat.mod_eq_of_lt hi]

theorem gap_place (hstart : start < n) (hi : i < n) : gap n start (place n start i) = i := by
  have hn : 0 < n := by omega
  exact (place_inj (gap_lt hstart (place_lt hn)) hi).mp (place_gap hstart (place_lt hn))

/-- What a ring of cells holds from its tail up to its head. -/
def contents (n : Nat) (buffer : Nat → α) (tail head : Nat) : List α := (span n tail (gap n tail head)).map buffer

theorem gap_self (i : Nat) : gap n i i = 0 := by simp [gap]

theorem gap_next_tail (htail : tail < n) (hhead : head < n) (hne : head ≠ tail) :
    gap n tail head = gap n (next n tail) head + 1 := by
  unfold gap next
  split_ifs <;> omega

theorem gap_next_head (htail : tail < n) (hroom : next n head ≠ tail) :
    gap n tail (next n head) = gap n tail head + 1 := by
  unfold gap next at *
  split_ifs at * <;> omega

theorem length_contents (buffer : Nat → α) : (contents n buffer tail head).length = gap n tail head := by
  rw [contents, List.length_map, length_span]

theorem contents_self (buffer : Nat → α) (i : Nat) : contents n buffer i i = [] := by
  rw [contents, gap_self]
  rfl

/-- Two rings that agree but for the cell at the head hold the same. -/
theorem contents_update (htail : tail < n) (hhead : head < n) (buffer : Nat → α) (x : α) :
    contents n (Function.update buffer head x) tail head = contents n buffer tail head := by
  apply List.map_congr_left
  intro i hi
  obtain ⟨o, ho, rfl⟩ := mem_span.mp hi
  have hne : place n tail o ≠ head := by
    rw [← place_gap htail hhead]
    exact place_ne ho (Nat.lt_add_left o (gap_lt htail hhead))
  exact Function.update_of_ne hne x buffer

theorem contents_pop (htail : tail < n) (hhead : head < n) (hne : head ≠ tail) (buffer : Nat → α) :
    contents n buffer tail head = buffer tail :: contents n buffer (next n tail) head := by
  rw [contents, gap_next_tail htail hhead hne, span_cons htail, List.map_cons, contents]

theorem contents_push (htail : tail < n) (hhead : head < n) (hroom : next n head ≠ tail) (buffer : Nat → α) (x : α) :
    contents n (Function.update buffer head x) tail (next n head) = contents n buffer tail head ++ [x] := by
  have hkept := contents_update htail hhead buffer x
  rw [contents] at hkept
  rw [contents, gap_next_head htail hroom, span_succ, List.map_append, hkept, List.map_singleton,
    place_gap htail hhead, Function.update_self]

/-- With one cell to spare even after a push the ring holds less than `n - 1`. -/
theorem length_contents_lt (htail : tail < n) (hhead : head < n) (hroom : next n head ≠ tail) (buffer : Nat → α) :
    (contents n buffer tail head).length + 1 < n := by
  rw [length_contents, ← gap_next_head htail hroom]
  exact gap_lt htail (next_lt hhead)

theorem place_one (h : i < n) : place n i 1 = next n i := by
  rw [← place_zero h, next_place (by omega), place_zero h]

/-- An index that comes after another one, or is the same. -/
def Follows (n i j : Nat) : Prop := j = i ∨ j = next n i

/-- From every index of such a list the last one is not further than the list is long. -/
theorem last_near {l : List Nat} {last : Nat} (hchain : l.IsChain (Follows n)) (hlast : l.getLast? = some last)
    (hlt : last < n) (hi : i ∈ l) (hin : i < n) (hall : ∀ j ∈ l, j < n) : ∃ o < l.length, place n i o = last := by
  induction l generalizing i with
  | nil => simp at hi
  | cons a rest ih =>
    cases rest with
    | nil =>
      simp only [List.getLast?_singleton, Option.some.injEq] at hlast
      simp only [List.mem_singleton] at hi
      subst hi hlast
      exact ⟨0, by simp, place_zero hin⟩
    | cons b rest =>
      rw [List.getLast?_cons_cons] at hlast
      rw [List.isChain_cons_cons] at hchain
      have hbn : b < n := hall b (by simp)
      have hrest : ∀ j ∈ b :: rest, j < n := fun j hj => hall j (List.mem_cons_of_mem a hj)
      rcases List.mem_cons.mp hi with rfl | hlater
      · obtain ⟨o, ho, hplace⟩ := ih hchain.2 hlast (List.mem_cons_self) hbn hrest
        rcases hchain.1 with hsame | hnext
        · exact ⟨o, Nat.lt_succ_of_lt ho, by rw [← hsame]; exact hplace⟩
        · refine ⟨1 + o, by simp only [List.length_cons] at ho ⊢; omega, ?_⟩
          rw [← place_place, place_one hin, ← hnext]
          exact hplace
      · obtain ⟨o, ho, hplace⟩ := ih hchain.2 hlast hlater hin hrest
        exact ⟨o, Nat.lt_succ_of_lt ho, hplace⟩

/-- A list with less than `n` indices, each the same as the one before it or the next, leaves the
index after its last one free. -/
theorem next_last_notMem {l : List Nat} {last : Nat} (hchain : l.IsChain (Follows n)) (hlast : l.getLast? = some last)
    (hall : ∀ j ∈ l, j < n) (hlength : l.length < n) : next n last ∉ l := by
  intro hmem
  have hlt : last < n := hall last (List.mem_of_getLast? hlast)
  obtain ⟨o, ho, hplace⟩ := last_near hchain hlast hlt hmem (next_lt hlt) hall
  rw [← place_one hlt, place_place] at hplace
  have hstay : place n last 0 = place n last (1 + o) := by rw [place_zero hlt]; exact hplace.symm
  exact place_ne (by omega) (by omega) hstay

end RingIndex
