import Mathlib.Tactic.Common
import Mathlib.Data.List.Basic

namespace Transition

variable {σ τ α ω : Type*}

/-- The state a deterministic machine reaches by performing the actions of a
list in order. -/
def run (step : σ → α → σ) (s : σ) (actions : List α) : σ := actions.foldl step s

@[simp] theorem run_nil (step : σ → α → σ) (s : σ) : run step s [] = s := rfl

@[simp] theorem run_cons (step : σ → α → σ) (s : σ) (a : α) (actions : List α) :
    run step s (a :: actions) = run step (step s a) actions := rfl

theorem run_append (step : σ → α → σ) (s : σ) (first second : List α) :
    run step s (first ++ second) = run step (run step s first) second := by
  simp [run, List.foldl_append]

/-- `P` holds in every state the run passes through, its first and last
included. -/
def Always (step : σ → α → σ) (P : σ → Prop) : σ → List α → Prop
  | s, [] => P s
  | s, a :: actions => P s ∧ Always step P (step s a) actions

/-- Every action of the run satisfies `Q` in the state it is performed in. -/
def Throughout (step : σ → α → σ) (Q : σ → α → Prop) : σ → List α → Prop
  | _, [] => True
  | s, a :: actions => Q s a ∧ Throughout step Q (step s a) actions

variable {step : σ → α → σ} {P I : σ → Prop} {Q Bad : σ → α → Prop}

instance decidableThroughout [∀ s a, Decidable (Q s a)] (s : σ) :
    (actions : List α) → Decidable (Throughout step Q s actions)
  | [] => .isTrue trivial
  | a :: actions =>
    have := decidableThroughout (step s a) actions
    inferInstanceAs (Decidable (Q s a ∧ _))

theorem Always.head {s : σ} {actions : List α} (h : Always step P s actions) : P s := by
  cases actions with
  | nil => exact h
  | cons a actions => exact h.1

theorem Always.last {s : σ} {actions : List α} (h : Always step P s actions) :
    P (run step s actions) := by
  induction actions generalizing s with
  | nil => exact h
  | cons a actions ih => exact ih h.2

theorem Always.mono {P' : σ → Prop} (himp : ∀ s, P s → P' s) {s : σ} {actions : List α}
    (h : Always step P s actions) : Always step P' s actions := by
  induction actions generalizing s with
  | nil => exact himp s h
  | cons a actions ih => exact ⟨himp s h.1, ih h.2⟩

theorem Throughout.mono {Q' : σ → α → Prop} (himp : ∀ s a, Q s a → Q' s a) {s : σ}
    {actions : List α} (h : Throughout step Q s actions) : Throughout step Q' s actions := by
  induction actions generalizing s with
  | nil => trivial
  | cons a actions ih => exact ⟨himp s a h.1, ih h.2⟩

theorem Throughout.and {Q' : σ → α → Prop} {s : σ} {actions : List α} (h : Throughout step Q s actions)
    (h' : Throughout step Q' s actions) : Throughout step (fun s a => Q s a ∧ Q' s a) s actions := by
  induction actions generalizing s with
  | nil => trivial
  | cons a actions ih => exact ⟨⟨h.1, h'.1⟩, ih h.2 h'.2⟩

/-- What holds throughout a run holds throughout the part it begins with. -/
theorem Throughout.front {s : σ} {first second : List α} (h : Throughout step Q s (first ++ second)) :
    Throughout step Q s first := by
  induction first generalizing s with
  | nil => trivial
  | cons a first ih => exact ⟨h.1, ih h.2⟩

/-- The last action of the run satisfies it in the state the others reach. -/
theorem Throughout.last {s : σ} {actions : List α} {a : α} (h : Throughout step Q s (actions ++ [a])) :
    Q (run step s actions) a := by
  induction actions generalizing s with
  | nil => exact h.1
  | cons b actions ih => exact ih h.2

theorem throughout_of_forall (hall : ∀ s a, Q s a) (s : σ) (actions : List α) :
    Throughout step Q s actions := by
  induction actions generalizing s with
  | nil => trivial
  | cons a actions ih => exact ⟨hall s a, ih (step s a)⟩

/-- A condition on the actions alone. -/
theorem throughout_of_mem {C : α → Prop} {actions : List α} (hall : ∀ a ∈ actions, C a) (s : σ) :
    Throughout step (fun _ a => C a) s actions := by
  induction actions generalizing s with
  | nil => trivial
  | cons a actions ih =>
    have hrest : ∀ b ∈ actions, C b := fun b hb => hall b (List.mem_cons_of_mem _ hb)
    exact ⟨hall a List.mem_cons_self, ih hrest (step s a)⟩

/-- The invariant rule. An invariant that holds at the start and that every
action allowed by `Q` preserves holds in every state of a run whose actions
are all allowed. -/
theorem always_of_invariant (hstep : ∀ s a, I s → Q s a → I (step s a)) {s : σ}
    {actions : List α} (hs : I s) (hall : Throughout step Q s actions) :
    Always step I s actions := by
  induction actions generalizing s with
  | nil => exact hs
  | cons a actions ih => exact ⟨hs, ih (hstep s a hs hall.1) hall.2⟩

/-- The invariant rule for runs that are not restricted. -/
theorem always_of_step (hstep : ∀ s a, I s → I (step s a)) {s : σ} (hs : I s)
    (actions : List α) : Always step I s actions := by
  induction actions generalizing s with
  | nil => exact hs
  | cons a actions ih => exact ⟨hs, ih (hstep s a hs)⟩

/-- When one step keeps the property exactly if it is not a bad step, a run
keeps the property in all its states exactly if it has no bad step. -/
theorem always_iff_throughout_not
    (hinv : ∀ s a, I s → Q s a → P s → I (step s a))
    (hexact : ∀ s a, I s → Q s a → P s → (P (step s a) ↔ ¬ Bad s a)) {s : σ}
    {actions : List α} (hs : I s) (hP : P s) (hall : Throughout step Q s actions) :
    Always step P s actions ↔ Throughout step (fun s a => ¬ Bad s a) s actions := by
  induction actions generalizing s with
  | nil => exact iff_of_true hP trivial
  | cons a actions ih =>
    have hnext : I (step s a) := hinv s a hs hall.1 hP
    have hiff := hexact s a hs hall.1 hP
    constructor
    · rintro ⟨_, hrest⟩
      exact ⟨hiff.mp hrest.head, (ih hnext hrest.head hall.2).mp hrest⟩
    · rintro ⟨hgood, hrest⟩
      have hPnext := hiff.mpr hgood
      exact ⟨hP, (ih hnext hPnext hall.2).mpr hrest⟩

/-- The same for a property that needs no further invariant. -/
theorem always_iff_of_step_iff (hexact : ∀ s a, P s → (P (step s a) ↔ ¬ Bad s a)) {s : σ}
    (hP : P s) (actions : List α) :
    Always step P s actions ↔ Throughout step (fun s a => ¬ Bad s a) s actions := by
  induction actions generalizing s with
  | nil => exact iff_of_true hP trivial
  | cons a actions ih =>
    constructor
    · rintro ⟨_, hrest⟩
      exact ⟨(hexact s a hP).mp hrest.head, (ih hrest.head).mp hrest⟩
    · rintro ⟨hgood, hrest⟩
      have hnext := (hexact s a hP).mpr hgood
      exact ⟨hP, (ih hnext).mpr hrest⟩

/-- What an invariant and a condition on the actions give at every single action
holds throughout a run whose actions meet the condition. -/
theorem throughout_of_invariant {Q' : σ → α → Prop} (hstep : ∀ s a, I s → Q s a → I (step s a))
    (himp : ∀ s a, I s → Q s a → Q' s a) {s : σ} {actions : List α} (hs : I s)
    (hall : Throughout step Q s actions) : Throughout step Q' s actions := by
  induction actions generalizing s with
  | nil => trivial
  | cons a actions ih => exact ⟨himp s a hs hall.1, ih (hstep s a hs hall.1) hall.2⟩

/-- Two conditions on actions that agree wherever an invariant holds agree along
a run when one of them keeps the invariant. -/
theorem throughout_iff_of_invariant {Q' : σ → α → Prop} (hstep : ∀ s a, I s → Q s a → I (step s a))
    (hiff : ∀ s a, I s → (Q' s a ↔ Q s a)) {s : σ} (hs : I s) (actions : List α) :
    Throughout step Q' s actions ↔ Throughout step Q s actions := by
  induction actions generalizing s with
  | nil => exact Iff.rfl
  | cons a actions ih =>
    constructor
    · rintro ⟨hhead, hrest⟩
      have hgood := (hiff s a hs).mp hhead
      exact ⟨hgood, (ih (hstep s a hs hgood)).mp hrest⟩
    · rintro ⟨hgood, hrest⟩
      exact ⟨(hiff s a hs).mpr hgood, (ih (hstep s a hs hgood)).mpr hrest⟩

/-- What the run puts out, action by action. -/
def trace (step : σ → α → σ) (out : σ → α → List ω) : σ → List α → List ω
  | _, [] => []
  | s, a :: actions => out s a ++ trace step out (step s a) actions

theorem trace_append (out : σ → α → List ω) (s : σ) (first second : List α) :
    trace step out s (first ++ second) = trace step out s first ++ trace step out (run step s first) second := by
  induction first generalizing s with
  | nil => rfl
  | cons a first ih => simp only [List.cons_append, trace, run_cons, ih, List.append_assoc]

/-- The budget rule. When every step pays for what it puts out, a run puts out no more than the
budget it starts with. -/
theorem length_trace_le_of_budget (budget : σ → Nat) {out : σ → α → List ω}
    (hstep : ∀ s a, I s → Q s a → I (step s a))
    (hpays : ∀ s a, I s → Q s a → (out s a).length + budget (step s a) ≤ budget s) {s : σ} {actions : List α}
    (hs : I s) (hall : Throughout step Q s actions) : (trace step out s actions).length ≤ budget s := by
  induction actions generalizing s with
  | nil => exact Nat.zero_le _
  | cons a actions ih =>
    have hhead := hpays s a hs hall.1
    have hrest := ih (hstep s a hs hall.1) hall.2
    rw [trace, List.length_append]
    omega

end Transition
