import Mathlib.Tactic.Common
import Mathlib.Data.List.Basic

namespace Spacing

variable {α : Type*} (filler : α)

/-- What is left of values with a number of marks in front of each, where a value without a mark is left out and every
mark but the last gives a filler. -/
def filled : List (Nat × α) → List α
  | [] => []
  | (0, _) :: rest => filled rest
  | (marks + 1, v) :: rest => List.replicate marks filler ++ v :: filled rest

/-- The marks make up for each other: where there have been more or fewer than values, the values are fillers,
and so are the ones that are left out. -/
def Balanced (surplus : Int) : List (Nat × α) → Prop
  | [] => surplus = 0
  | (marks, v) :: rest =>
    (surplus + marks - 1 ≠ 0 ∨ marks = 0 → v = filler) ∧ Balanced (surplus + marks - 1) rest

variable {filler}

/-- What stands before the values when it fills up what is left of them are fillers. -/
theorem eq_filler_of_filled {words : List (Nat × α)} (front : List α)
    (h : filled filler words = front ++ words.map Prod.snd) : ∀ v ∈ front, v = filler := by
  induction words generalizing front with
  | nil =>
    rw [filled, List.map_nil, List.append_nil] at h
    rw [← h]
    exact fun v hv => absurd hv List.not_mem_nil
  | cons w words ih =>
    obtain ⟨marks, v⟩ := w
    cases marks with
    | zero =>
      rw [filled, List.map_cons] at h
      exact fun u hu => ih (front ++ [v]) (by rw [h, List.append_assoc]; rfl) u (List.mem_append_left _ hu)
    | succ marks =>
      rw [filled, List.map_cons, List.append_eq_append_iff] at h
      rcases h with ⟨more, rfl, hmore⟩ | ⟨more, hfront, _⟩
      · intro u hu
        rcases List.mem_append.mp hu with hu | hu
        · exact List.eq_of_mem_replicate hu
        cases more with
        | nil => exact absurd hu List.not_mem_nil
        | cons first more =>
          obtain ⟨rfl, hrest⟩ := List.cons.inj hmore
          have hall := ih (more ++ [v]) (hrest.trans (by rw [List.append_assoc]; rfl))
          rcases List.mem_cons.mp hu with rfl | hu
          · exact hall u (List.mem_append_right _ List.mem_cons_self)
          · exact hall u (List.mem_append_left _ hu)
      · exact fun u hu => List.eq_of_mem_replicate (hfront ▸ List.mem_append_left _ hu)

/-- A value behind so many fillers. -/
theorem filled_behind {words : List (Nat × α)} {v : α} (n : Nat)
    (ih : ∀ n : Nat, List.replicate n filler ++ filled filler words = words.map Prod.snd ↔ Balanced filler n words) :
    List.replicate n filler ++ v :: filled filler words = v :: words.map Prod.snd ↔
      ((n : Int) ≠ 0 → v = filler) ∧ Balanced filler n words := by
  rw [← ih n]
  cases n with
  | zero => simp
  | succ n =>
    rw [List.replicate_succ, List.cons_append, List.cons_append, List.cons.injEq]
    constructor
    · rintro ⟨rfl, h⟩
      refine ⟨fun _ => rfl, ?_⟩
      rw [← h, ← List.cons_append, ← List.replicate_succ, List.replicate_succ', List.append_assoc]
      rfl
    · rintro ⟨hv, h⟩
      obtain rfl : v = filler := hv (by omega)
      refine ⟨rfl, ?_⟩
      rw [← h, ← List.cons_append, ← List.replicate_succ, List.replicate_succ', List.append_assoc]
      rfl

theorem filled_iff (words : List (Nat × α)) :
    (∀ n : Nat, List.replicate n filler ++ filled filler words = words.map Prod.snd ↔ Balanced filler n words) ∧
    ∀ n : Nat, filled filler words = List.replicate n filler ++ words.map Prod.snd ↔ Balanced filler (-n) words := by
  induction words with
  | nil => simp [filled, Balanced]
  | cons w words ih =>
    obtain ⟨marks, v⟩ := w
    obtain ⟨hmore, hless⟩ := ih
    cases marks with
    | zero =>
      have hout (n : Nat) : filled filler words = List.replicate n filler ++ v :: words.map Prod.snd ↔
          v = filler ∧ Balanced filler (-(n + 1 : Nat)) words := by
        rw [← hless (n + 1)]
        constructor
        · intro h
          obtain rfl : v = filler := eq_filler_of_filled (List.replicate n filler ++ [v])
            (by rw [h, List.append_assoc]; rfl) v (List.mem_append_right _ List.mem_cons_self)
          refine ⟨rfl, ?_⟩
          rw [h, List.replicate_succ', List.append_assoc]
          rfl
        · rintro ⟨rfl, h⟩
          rw [h, List.replicate_succ', List.append_assoc]
          rfl
      refine ⟨fun n => ?_, fun n => ?_⟩
      · rw [filled, List.map_cons, Balanced]
        cases n with
        | zero =>
          rw [List.replicate_zero, List.nil_append]
          have h := hout 0
          rw [List.replicate_zero, List.nil_append] at h
          rw [h]
          simp
        | succ n =>
          have hsurplus : ((n + 1 : Nat) : Int) + (0 : Nat) - 1 = n := by omega
          rw [List.replicate_succ, List.cons_append, List.cons.injEq, hmore n, hsurplus]
          simp [eq_comm]
      · have hsurplus : -(n : Int) + (0 : Nat) - 1 = -(n + 1 : Nat) := by omega
        rw [filled, List.map_cons, Balanced, hout n, hsurplus]
        simp
    | succ marks =>
      have hpos : ¬marks + 1 = 0 := by omega
      refine ⟨fun n => ?_, fun n => ?_⟩
      · have hsurplus : (n : Int) + (marks + 1 : Nat) - 1 = (n + marks : Nat) := by omega
        rw [filled, List.map_cons, Balanced, ← List.append_assoc, List.replicate_append_replicate,
          filled_behind (n + marks) hmore, hsurplus]
        simp only [hpos, or_false]
      · rw [filled, List.map_cons, Balanced]
        rcases Nat.lt_or_ge marks n with hlt | hle
        · obtain ⟨short, rfl⟩ : ∃ short, n = marks + (short + 1) := ⟨n - marks - 1, by omega⟩
          have hsurplus : -((marks + (short + 1) : Nat) : Int) + (marks + 1 : Nat) - 1 = -(short + 1 : Nat) := by omega
          have hne : -((short + 1 : Nat) : Int) ≠ 0 := by omega
          rw [← List.replicate_append_replicate, List.append_assoc, List.append_cancel_left_eq, List.replicate_succ,
            List.cons_append, List.cons.injEq, hsurplus, ← hless (short + 1)]
          constructor
          · rintro ⟨rfl, h⟩
            refine ⟨fun _ => rfl, ?_⟩
            rw [h, List.replicate_succ', List.append_assoc]
            rfl
          · rintro ⟨hv, h⟩
            obtain rfl : v = filler := hv (.inl hne)
            refine ⟨rfl, ?_⟩
            rw [h, List.replicate_succ', List.append_assoc]
            rfl
        · have hsurplus : -(n : Int) + (marks + 1 : Nat) - 1 = (marks - n : Nat) := by omega
          have hsplit : List.replicate marks filler =
              List.replicate n filler ++ List.replicate (marks - n) filler := by
            rw [List.replicate_append_replicate, Nat.add_sub_cancel' hle]
          rw [hsplit, List.append_assoc, List.append_cancel_left_eq, filled_behind (marks - n) hmore, hsurplus]
          simp only [hpos, or_false]

/-- What is left of values is all of them exactly if the marks are balanced. -/
theorem filled_eq_iff (words : List (Nat × α)) :
    filled filler words = words.map Prod.snd ↔ Balanced filler 0 words :=
  (filled_iff words).1 0

end Spacing
