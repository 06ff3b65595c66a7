import Mathlib.Algebra.Order.Group.Defs
import Mathlib.Algebra.Order.Group.MinMax
import Mathlib.Tactic.Common
import Mathlib.Tactic.Abel
import Mathlib.Tactic.Linarith

/-- A stretch of a path that ends in a stop. `cap` bounds the level at its beginning, and
`gain` what can be gained or lost on the way to its end. -/
structure Stretch (K : Type*) where
  cap : K
  gain : K

namespace Stretch

variable {K : Type*} [AddCommGroup K] [LinearOrder K]

/-- The highest level at which the path can be entered, if it is to be at 0 at its
end. -/
def limit : List (Stretch K) → K
  | [] => 0
  | s :: rest => min s.cap (limit rest + s.gain)

/-- A plan gives every stretch of a path the level at which it is entered. -/
abbrev Plan (K : Type*) := List (Stretch K × K)

/-- Every stretch entered at its limit: what remains to be seen is whether these levels
can be gained. -/
def limited : List (Stretch K) → Plan K
  | [] => []
  | s :: rest => (s, limit (s :: rest)) :: limited rest

/-- The plan for the rest of a path whose first stretch, `s`, is entered at `v`: as high
as the limits and the gains allow. -/
def follow (v : K) (s : Stretch K) : List (Stretch K) → Plan K
  | [] => []
  | t :: rest =>
    let w := min (limit (t :: rest)) (v + s.gain)
    (t, w) :: follow w t rest

/-- No stretch but the first is entered above its cap, the level can be changed as
planned on the way through each stretch, and the last one ends in a stop. -/
def Feasible : Plan K → Prop
  | [] => True
  | [(s, v)] => v ≤ s.gain
  | (s, v) :: (t, w) :: rest => w ≤ t.cap ∧ |w - v| ≤ s.gain ∧ Feasible ((t, w) :: rest)

/-- Neither caps nor gains are negative. -/
def Sound (path : List (Stretch K)) : Prop := ∀ s ∈ path, 0 ≤ s.cap ∧ 0 ≤ s.gain

variable {path rest ext : List (Stretch K)} {s t : Stretch K} {v w : K}

@[simp] theorem limited_nil : limited ([] : List (Stretch K)) = [] := rfl

@[simp] theorem limited_cons (s : Stretch K) (rest : List (Stretch K)) :
    limited (s :: rest) = (s, limit (s :: rest)) :: limited rest := rfl

@[simp] theorem follow_nil (v : K) (s : Stretch K) : follow v s [] = [] := rfl

@[simp] theorem follow_cons (v : K) (s t : Stretch K) (rest : List (Stretch K)) :
    follow v s (t :: rest) = (t, min (limit (t :: rest)) (v + s.gain)) ::
      follow (min (limit (t :: rest)) (v + s.gain)) t rest := rfl

theorem Sound.tail (h : Sound (s :: rest)) : Sound rest := fun t ht => h t (List.mem_cons_of_mem _ ht)

theorem limit_le_cap : limit (s :: rest) ≤ s.cap := min_le_left _ _

theorem limit_le_gain : limit (s :: rest) ≤ limit rest + s.gain := min_le_right _ _

/-- Below its cap the limit comes from what follows. -/
theorem limit_eq_gain (h : limit (s :: rest) < s.cap) : limit (s :: rest) = limit rest + s.gain := by
  obtain hsame | hsame := min_choice s.cap (limit rest + s.gain)
  · exact absurd hsame h.ne
  · exact hsame

@[simp] theorem follow_map_fst (v : K) (s : Stretch K) (path : List (Stretch K)) :
    (follow v s path).map Prod.fst = path := by
  induction path generalizing v s with
  | nil => rfl
  | cons t rest ih =>
    unfold follow
    dsimp only
    rw [List.map_cons, ih]

/-- The second stretch is entered within its cap. -/
theorem follow_le_cap {p : Stretch K × K} (hp : p ∈ (follow v s path).head?) : p.2 ≤ p.1.cap := by
  cases path with
  | nil => cases hp
  | cons t rest =>
    obtain rfl := Option.some.inj hp
    exact (min_le_left _ _).trans limit_le_cap

variable {plan plan' before : Plan K}

theorem Feasible.tail {p : Stretch K × K} (h : Feasible (p :: plan)) : Feasible plan := by
  cases plan with
  | nil => trivial
  | cons q rest => exact h.2.2

theorem Feasible.suffix (h : Feasible (before ++ plan)) : Feasible plan := by
  induction before with
  | nil => exact h
  | cons q before ih => exact ih h.tail

/-- What is planned anew from a stretch on fits what was planned before it. -/
theorem Feasible.replan {p : Stretch K × K} (h : Feasible (before ++ p :: plan)) (hnew : Feasible (p :: plan')) :
    Feasible (before ++ p :: plan') := by
  induction before with
  | nil => exact hnew
  | cons q before ih =>
    cases before with
    | nil => exact ⟨h.1, h.2.1, hnew⟩
    | cons r before => exact ⟨h.1, h.2.1, ih h.2.2⟩

/-- The stretch at place `k` behind `s` is entered at its cap, or below its limit
because no more could be gained. -/
def Breaks (v : K) (s : Stretch K) : List (Stretch K) → Nat → Prop
  | [], _ => False
  | t :: rest, k =>
    let w := min (limit (t :: rest)) (v + s.gain)
    match k with
    | 0 => w < limit (t :: rest) ∨ w = t.cap
    | k + 1 => Breaks w t rest k

/-- A path is followed on from any of its places. -/
theorem follow_resume (h : (follow v s path).take (before.length + 1) = before ++ [(t, w)]) :
    follow v s path = before ++ (t, w) :: follow w t (path.drop (before.length + 1)) := by
  induction before generalizing v s path with
  | nil =>
    cases path with
    | nil => cases h
    | cons u rest =>
      obtain ⟨rfl, rfl⟩ := Prod.ext_iff.mp (List.cons.inj h).1
      rfl
  | cons q before ih =>
    cases path with
    | nil => cases h
    | cons u rest =>
      obtain ⟨rfl, hrest⟩ := List.cons.inj h
      rw [follow_cons, ih hrest]
      rfl

theorem Breaks.resume {k : Nat} (h : (follow v s path).take (before.length + 1) = before ++ [(t, w)])
    (hbreaks : Breaks w t (path.drop (before.length + 1)) k) : Breaks v s path (before.length + 1 + k) := by
  induction before generalizing v s path with
  | nil =>
    cases path with
    | nil => cases h
    | cons u rest =>
      obtain ⟨rfl, rfl⟩ := Prod.ext_iff.mp (List.cons.inj h).1
      rw [List.length_nil, Nat.zero_add, Nat.add_comm]
      exact hbreaks
  | cons q before ih =>
    cases path with
    | nil => cases h
    | cons u rest =>
      obtain ⟨rfl, hrest⟩ := List.cons.inj h
      have hbehind := ih hrest hbreaks
      rw [List.length_cons, Nat.add_right_comm]
      exact hbehind

theorem Breaks.lt_length {k : Nat} (h : Breaks v s path k) : k < path.length := by
  induction path generalizing v s k with
  | nil => exact absurd h id
  | cons t rest ih =>
    cases k with
    | zero => exact Nat.succ_pos _
    | succ k => exact Nat.succ_lt_succ (ih h)

variable [IsOrderedAddMonoid K]

theorem limit_nonneg (h : Sound path) : 0 ≤ limit path := by
  induction path with
  | nil => exact le_rfl
  | cons s rest ih =>
    obtain ⟨hcap, hgain⟩ := h s List.mem_cons_self
    exact le_min hcap (add_nonneg (ih h.tail) hgain)

/-- A longer path can be entered no slower. -/
theorem limit_le_append (path : List (Stretch K)) (h : Sound (path ++ ext)) : limit path ≤ limit (path ++ ext) := by
  induction path with
  | nil => exact limit_nonneg h
  | cons s rest ih =>
    have hrest := ih (Sound.tail h)
    exact min_le_min le_rfl (add_le_add hrest le_rfl)

/-- Every stretch of the path is entered below its cap at the limit, because the next
one is. -/
def Braking : List (Stretch K) → Prop
  | [] => True
  | s :: rest => limit (s :: rest) < s.cap ∧ Braking rest

/-- What a longer path changes is braking to the end. -/
theorem braking_of_limit_lt (h : limit path < limit (path ++ ext)) : Braking path := by
  induction path with
  | nil => trivial
  | cons s rest ih =>
    have hcap : limit (s :: rest) < s.cap := h.trans_le limit_le_cap
    have hgain := limit_eq_gain hcap
    have hrest : limit rest + s.gain < limit (rest ++ ext) + s.gain :=
      hgain ▸ h.trans_le limit_le_gain
    exact ⟨hcap, ih (lt_of_add_lt_add_right hrest)⟩

/-- Braking goes on to the end. -/
theorem Braking.not_breaks (h : Braking path) (hsound : Sound (s :: path))
    (henter : limit path ≤ v + s.gain) (k : Nat) : ¬ Breaks v s path k := by
  induction path generalizing v s k with
  | nil => exact id
  | cons t rest ih =>
    have hlevel : min (limit (t :: rest)) (v + s.gain) = limit (t :: rest) := min_eq_left henter
    unfold Breaks
    rw [hlevel]
    cases k with
    | zero =>
      rintro (hless | hcap)
      · exact lt_irrefl _ hless
      · exact h.1.ne hcap
    | succ k =>
      apply ih h.2 hsound.tail
      have hbraking := limit_eq_gain h.1
      have hgain := (hsound.tail t List.mem_cons_self).2
      rw [hbraking, add_assoc]
      exact le_add_of_nonneg_right (add_nonneg hgain hgain)

/-- Before a break, and at it, no continuation of the path changes the level. -/
theorem Breaks.level_eq {k : Nat} (h : Breaks v s (t :: rest) k) (hsound : Sound (s :: t :: rest ++ ext)) :
    min (limit (t :: (rest ++ ext))) (v + s.gain) = min (limit (t :: rest)) (v + s.gain) := by
  have hgrows : limit (t :: rest) ≤ limit (t :: (rest ++ ext)) := limit_le_append (t :: rest) hsound.tail
  obtain hsame | hmore := hgrows.eq_or_lt
  · rw [← hsame]
  · have hbraking : Braking (t :: rest) := braking_of_limit_lt hmore
    have hfinite : Sound (s :: t :: rest) := by
      intro u hu
      exact hsound u (List.mem_append_left _ hu)
    have hshort : v + s.gain < limit (t :: rest) := by
      by_contra henter
      exact hbraking.not_breaks hfinite (not_lt.mp henter) k h
    rw [min_eq_right hshort.le, min_eq_right (hshort.trans hmore).le]

/-- Up to a break the levels are final: no continuation of the path changes them. -/
theorem Breaks.follow_append {k : Nat} (h : Breaks v s path k) (hsound : Sound (s :: path ++ ext)) :
    (follow v s (path ++ ext)).take (k + 1) = (follow v s path).take (k + 1) := by
  induction path generalizing v s k with
  | nil => exact absurd h id
  | cons t rest ih =>
    rw [List.cons_append, follow_cons, follow_cons, h.level_eq hsound, List.take_succ_cons, List.take_succ_cons]
    cases k with
    | zero => rfl
    | succ k => rw [ih h hsound.tail]

/-- A break stays one. -/
theorem Breaks.append {k : Nat} (h : Breaks v s path k) (hsound : Sound (s :: path ++ ext)) :
    Breaks v s (path ++ ext) k := by
  induction path generalizing v s k with
  | nil => exact absurd h id
  | cons t rest ih =>
    have hlevel := h.level_eq hsound
    have hgrows : limit (t :: rest) ≤ limit (t :: (rest ++ ext)) := limit_le_append (t :: rest) hsound.tail
    rw [List.cons_append]
    unfold Breaks
    rw [hlevel]
    cases k with
    | zero => exact h.imp_left fun hless => hless.trans_le hgrows
    | succ k => exact ih h hsound.tail

/-- A feasible plan keeps within the limits. -/
theorem Feasible.level_le (h : Feasible ((s, v) :: plan)) : v ≤ limit (plan.map Prod.fst) + s.gain := by
  induction plan generalizing s v with
  | nil =>
    rw [List.map_nil]
    exact h.trans_eq (zero_add _).symm
  | cons q rest ih =>
    obtain ⟨t, w⟩ := q
    obtain ⟨hcap, hreach, hrest⟩ := h
    have hw : w ≤ limit (t :: rest.map Prod.fst) := le_min hcap (ih hrest)
    have hdrop : v - w ≤ s.gain := (neg_sub w v) ▸ (neg_le_abs _).trans hreach
    calc v = v - w + w := (sub_add_cancel v w).symm
      _ ≤ s.gain + limit (t :: rest.map Prod.fst) := add_le_add hdrop hw
      _ = limit (t :: rest.map Prod.fst) + s.gain := add_comm _ _

/-- Entered within its limit, a path is followed feasibly. -/
theorem feasible_follow (hsound : Sound (s :: path)) (h : v ≤ limit path + s.gain) :
    Feasible ((s, v) :: follow v s path) := by
  induction path generalizing s v with
  | nil => exact h.trans_eq (zero_add _)
  | cons t rest ih =>
    have hgain := (hsound s List.mem_cons_self).2
    have hlevel : min (limit (t :: rest)) (v + s.gain) ≤ limit (t :: rest) := min_le_left _ _
    refine ⟨hlevel.trans limit_le_cap, ?_, ih hsound.tail (hlevel.trans limit_le_gain)⟩
    rw [abs_le]
    constructor
    · rw [neg_le_sub_iff_le_add, ← min_add_add_right]
      exact le_min h (le_add_of_le_of_nonneg (le_add_of_nonneg_right hgain) hgain)
    · rw [sub_le_iff_le_add']
      exact min_le_right _ _

/-- From the second stretch on a path is followed feasibly in any case. -/
theorem feasible_follow_rest (hsound : Sound path) (v : K) (s : Stretch K) : Feasible (follow v s path) := by
  cases path with
  | nil => trivial
  | cons t rest =>
    apply feasible_follow hsound
    exact (min_le_left _ _).trans limit_le_gain

end Stretch
