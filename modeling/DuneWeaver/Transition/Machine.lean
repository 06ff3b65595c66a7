import Mathlib.Tactic.Common
import Mathlib.Data.List.Basic

namespace Machine

variable {σ τ ω : Type*} {step : σ → Option (List ω × σ)} {step' : τ → Option (List ω × τ)}

/-- What a machine that runs by itself puts out in its first `n` steps. It has stopped when
`step` gives nothing. -/
def outputs (step : σ → Option (List ω × σ)) : Nat → σ → List ω
  | 0, _ => []
  | n + 1, s =>
    match step s with
    | none => []
    | some (out, s') => out ++ outputs step n s'

/-- The state after `n` steps, or the one the machine has stopped in before. -/
def advance (step : σ → Option (List ω × σ)) : Nat → σ → σ
  | 0, s => s
  | n + 1, s =>
    match step s with
    | none => s
    | some (_, s') => advance step n s'

/-- `n` steps lead from one state to another and put out `out`. -/
inductive Path (step : σ → Option (List ω × σ)) : Nat → σ → List ω → σ → Prop
  | nil (s : σ) : Path step 0 s [] s
  | cons {n : Nat} {s s' s'' : σ} {out rest : List ω} (hstep : step s = some (out, s'))
      (hpath : Path step n s' rest s'') : Path step (n + 1) s (out ++ rest) s''

/-- One machine does what the other one does as often as it likes. -/
def Same (step : σ → Option (List ω × σ)) (step' : τ → Option (List ω × τ)) (s : σ) (t : τ) : Prop :=
  (∀ n, ∃ m, outputs step' m t = outputs step n s) ∧ ∀ m, ∃ n, outputs step' m t <+: outputs step n s

theorem outputs_stopped {s : σ} (h : step s = none) (n : Nat) : outputs step n s = [] := by
  cases n with
  | zero => rfl
  | succ n =>
    unfold outputs
    rw [h]

theorem outputs_succ {s s' : σ} {out : List ω} (h : step s = some (out, s')) (n : Nat) :
    outputs step (n + 1) s = out ++ outputs step n s' := by
  rw [outputs, h]

theorem advance_stopped {s : σ} (h : step s = none) (n : Nat) : advance step n s = s := by
  cases n with
  | zero => rfl
  | succ n =>
    unfold advance
    rw [h]

theorem advance_succ {s s' : σ} {out : List ω} (h : step s = some (out, s')) (n : Nat) :
    advance step (n + 1) s = advance step n s' := by
  rw [advance, h]

/-- A machine that has stopped puts out nothing more. -/
theorem outputs_prefix_of_stopped {s : σ} {n : Nat} {out : List ω} (hout : outputs step n s = out)
    (hstop : step (advance step n s) = none) (m : Nat) : outputs step m s <+: out := by
  subst hout
  induction n generalizing s m with
  | zero =>
    have hnone : outputs step m s = [] := outputs_stopped hstop m
    rw [hnone]
    exact List.nil_prefix
  | succ n ih =>
    cases hstep : step s with
    | none =>
      rw [outputs_stopped hstep m]
      exact List.nil_prefix
    | some result =>
      obtain ⟨out, s'⟩ := result
      rw [advance_succ hstep] at hstop
      cases m with
      | zero => exact List.nil_prefix
      | succ m =>
        rw [outputs_succ hstep, outputs_succ hstep]
        exact (List.prefix_append_right_inj _).mpr (ih hstop m)

/-- What holds in the states up to the one the machine stops in holds for good. -/
theorem forall_advance {P : σ → Prop} {s : σ} {n : Nat} (hstop : step (advance step n s) = none)
    (h : ∀ k, k < n + 1 → P (advance step k s)) (k : Nat) : P (advance step k s) := by
  induction n generalizing s k with
  | zero =>
    have hstopped : advance step k s = s := advance_stopped hstop k
    rw [hstopped]
    exact h 0 Nat.one_pos
  | succ n ih =>
    cases hstep : step s with
    | none =>
      rw [advance_stopped hstep k]
      exact h 0 (Nat.succ_pos _)
    | some result =>
      obtain ⟨out, s'⟩ := result
      rw [advance_succ hstep] at hstop
      cases k with
      | zero => exact h 0 (Nat.succ_pos _)
      | succ k =>
        rw [advance_succ hstep]
        apply ih hstop
        intro k hk
        have hlater := h (k + 1) (Nat.succ_lt_succ hk)
        rw [advance_succ hstep] at hlater
        exact hlater

namespace Path

variable {n m k : Nat} {s s' s'' : σ} {out rest : List ω}

theorem single (h : step s = some (out, s')) : Path step 1 s out s' := by
  have hpath := Path.cons h (Path.nil s')
  rw [List.append_nil] at hpath
  exact hpath

/-- A step that puts out nothing. -/
theorem silent (h : step s = some ([], s')) (hpath : Path step n s' rest s'') :
    Path step (n + 1) s rest s'' := Path.cons h hpath

theorem trans (h : Path step n s out s') (h' : Path step m s' rest s'') :
    Path step (n + m) s (out ++ rest) s'' := by
  induction h with
  | nil s =>
    rw [Nat.zero_add]
    exact h'
  | cons hstep _ ih =>
    rw [Nat.add_right_comm, List.append_assoc]
    exact Path.cons hstep (ih h')

/-- The path is what the machine does first. -/
theorem outputs_add (h : Path step n s out s') (m : Nat) : outputs step (n + m) s = out ++ outputs step m s' := by
  induction h with
  | nil s =>
    rw [Nat.zero_add]
    rfl
  | cons hstep _ ih =>
    rw [Nat.add_right_comm, outputs_succ hstep, ih, List.append_assoc]

theorem outputs_prefix (h : Path step n s out s') (hk : k ≤ n) : outputs step k s <+: out := by
  induction h generalizing k with
  | nil s =>
    obtain rfl := Nat.le_zero.mp hk
    exact List.nil_prefix
  | cons hstep _ ih =>
    cases k with
    | zero => exact List.nil_prefix
    | succ k =>
      rw [outputs_succ hstep]
      exact List.prefix_append_right_inj _ |>.mpr (ih (Nat.le_of_succ_le_succ hk))

end Path

/-- The simulation rule. When every step of one machine, in a state that is good, is matched by at
least one step of the other, and the other stops when the one does, then both do the same from
related states on, provided that all states on the way are good. -/
theorem same_of_simulation {R : σ → τ → Prop} {G : σ → Prop}
    (hstep : ∀ s t out s', R s t → G s → step s = some (out, s') →
      ∃ n t', Path step' (n + 1) t out t' ∧ R s' t')
    (hstop : ∀ s t, R s t → step s = none → step' t = none) {s : σ} {t : τ} (h : R s t)
    (hgood : ∀ n, G (advance step n s)) : Same step step' s t := by
  constructor
  · intro n
    induction n generalizing s t with
    | zero => exact ⟨0, rfl⟩
    | succ n ih =>
      cases hs : step s with
      | none =>
        rw [outputs_stopped hs]
        exact ⟨0, rfl⟩
      | some result =>
        obtain ⟨out, s'⟩ := result
        obtain ⟨k, t', hpath, hnext⟩ := hstep s t out s' h (hgood 0) hs
        have hrest : ∀ n, G (advance step n s') := by
          intro n
          have hlater := hgood (n + 1)
          rw [advance_succ hs] at hlater
          exact hlater
        obtain ⟨m, hm⟩ := ih hnext hrest
        refine ⟨k + 1 + m, ?_⟩
        rw [hpath.outputs_add, outputs_succ hs, hm]
  · intro m
    induction m using Nat.strongRecOn generalizing s t with
    | ind m ih =>
      cases hs : step s with
      | none =>
        rw [outputs_stopped (hstop s t h hs)]
        exact ⟨0, List.nil_prefix⟩
      | some result =>
        obtain ⟨out, s'⟩ := result
        obtain ⟨k, t', hpath, hnext⟩ := hstep s t out s' h (hgood 0) hs
        have hrest : ∀ n, G (advance step n s') := by
          intro n
          have hlater := hgood (n + 1)
          rw [advance_succ hs] at hlater
          exact hlater
        by_cases hshort : m ≤ k + 1
        · refine ⟨1, ?_⟩
          rw [outputs_succ hs]
          exact (hpath.outputs_prefix hshort).trans (List.prefix_append _ _)
        · obtain ⟨n, hn⟩ := ih (m - (k + 1)) (by omega) hnext hrest
          refine ⟨n + 1, ?_⟩
          have hsplit : m = k + 1 + (m - (k + 1)) := by omega
          rw [hsplit, hpath.outputs_add, outputs_succ hs]
          exact List.prefix_append_right_inj _ |>.mpr hn

end Machine
