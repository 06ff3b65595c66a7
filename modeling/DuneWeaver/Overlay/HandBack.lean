import DuneWeaver.Transition.Run
import Mathlib.Logic.Function.Basic

namespace Overlay

variable {κ ω : Type*} [DecidableEq κ]

/-- Values behind overrides. While writes go to the values themselves the
overrides are handed back by a poll, which sees only whether that was different
when it last came. -/
@[ext]
structure Store (κ ω : Type*) where
  backing : κ → ω
  pending : κ → Option ω := fun _ => none
  direct : Bool
  seen : Bool := false
  /-- What was written last, which nothing looks at. -/
  last : κ → Option ω := fun _ => none

inductive Event (κ ω : Type*) where
  | put (k : κ) (v : ω)
  | turn (direct : Bool)
  | poll

namespace Store

/-- What stands for a key: its override, or else its value. -/
def effective (m : Store κ ω) (k : κ) : ω := (m.pending k).getD (m.backing k)

def step (m : Store κ ω) : Event κ ω → Store κ ω
  | .put k v =>
    let m := { m with last := Function.update m.last k (some v) }
    if m.direct then { m with backing := Function.update m.backing k v }
    else { m with pending := Function.update m.pending k (some v) }
  | .turn direct => { m with direct }
  | .poll =>
    let m := if m.seen && m.direct then { m with backing := m.effective, pending := fun _ => none } else m
    { m with seen := !m.direct }

/-- Nothing is written behind an override, and while there is one writes do not
go back to the values before a poll has seen that they did not. -/
def Careful (m : Store κ ω) : Event κ ω → Prop
  | .put k _ => m.direct = true → m.pending k = none
  | .turn direct => m.direct = false → direct = true → m.seen = true ∨ ∀ k, m.pending k = none
  | .poll => True

/-- What stands for a key is what was written last, and an override that should
be handed back will be. -/
structure Current (m : Store κ ω) : Prop where
  last : ∀ k v, m.last k = some v → m.effective k = v
  due : m.direct = true → m.seen = true ∨ ∀ k, m.pending k = none

/-- Every value is the one that was written last, without an override. -/
def Settled (m : Store κ ω) : Prop := ∀ k, m.pending k = none ∧ ∀ v, m.last k = some v → m.backing k = v

variable {m : Store κ ω} {e : Event κ ω}

theorem step_put_direct (hdirect : m.direct = true) (k : κ) (v : ω) : m.step (.put k v) =
    { m with last := Function.update m.last k (some v), backing := Function.update m.backing k v } := by
  rw [step]
  exact if_pos hdirect

theorem step_put_behind (hdirect : m.direct = false) (k : κ) (v : ω) : m.step (.put k v) =
    { m with last := Function.update m.last k (some v), pending := Function.update m.pending k (some v) } := by
  rw [step]
  exact if_neg (by rw [hdirect]; exact Bool.false_ne_true)

theorem step_poll_due (hdue : (m.seen && m.direct) = true) : m.step .poll =
    { m with backing := m.effective, pending := fun _ => none, seen := !m.direct } := by
  rw [step, if_pos hdue]

theorem step_poll_else (helse : (m.seen && m.direct) = false) : m.step .poll = { m with seen := !m.direct } := by
  rw [step, if_neg (by rw [helse]; exact Bool.false_ne_true)]

theorem Current.put {k : κ} {v : ω} (h : m.Current) (hcareful : m.Careful (.put k v)) :
    (m.step (.put k v)).Current := by
  cases hdirect : m.direct with
  | true =>
    have hnone : m.pending k = none := hcareful hdirect
    rw [step_put_direct hdirect]
    refine ⟨fun k' v' hlast => ?_, h.due⟩
    change Function.update m.last k (some v) k' = some v' at hlast
    change (m.pending k').getD (Function.update m.backing k v k') = v'
    by_cases hsame : k' = k
    · rw [hsame, Function.update_self] at hlast ⊢
      rw [hnone]
      exact Option.some.inj hlast
    · rw [Function.update_of_ne hsame] at hlast ⊢
      exact h.last k' v' hlast
  | false =>
    rw [step_put_behind hdirect]
    refine ⟨fun k' v' hlast => ?_, fun hturned => by rw [hdirect] at hturned; cases hturned⟩
    change Function.update m.last k (some v) k' = some v' at hlast
    change (Function.update m.pending k (some v) k').getD (m.backing k') = v'
    by_cases hsame : k' = k
    · rw [hsame, Function.update_self] at hlast ⊢
      exact Option.some.inj hlast
    · rw [Function.update_of_ne hsame] at hlast ⊢
      exact h.last k' v' hlast

theorem Current.poll (h : m.Current) : (m.step .poll).Current := by
  have hcases : (m.seen && m.direct) = true ∨ (m.seen && m.direct) = false := (Bool.eq_false_or_eq_true _)
  rcases hcases with hflush | hkeep
  · rw [step_poll_due hflush]
    exact ⟨h.last, fun _ => .inr fun _ => rfl⟩
  · rw [step_poll_else hkeep]
    refine ⟨h.last, fun hdirect => .inr ?_⟩
    have hseen : m.seen = false := by rwa [show m.direct = true from hdirect, Bool.and_true] at hkeep
    rcases h.due hdirect with hdue | hnone
    · rw [hseen] at hdue
      exact Bool.noConfusion hdue
    · exact hnone

theorem Current.step (h : m.Current) (hcareful : m.Careful e) : (m.step e).Current := by
  cases e with
  | put k v => exact h.put hcareful
  | turn direct =>
    refine ⟨h.last, fun hdirect => ?_⟩
    cases hbefore : m.direct with
    | true => exact h.due hbefore
    | false => exact hcareful hbefore hdirect
  | poll => exact h.poll

/-- A poll while writes go to the values leaves them settled. -/
theorem Current.settled (h : m.Current) (hdirect : m.direct = true) : (m.step .poll).Settled := by
  have hafter := h.poll
  have hstill : (m.step .poll).direct = true := by
    rw [Store.step]
    split
    · exact hdirect
    · exact hdirect
  have hseen : (m.step .poll).seen = false := by
    rw [Store.step]
    split
    · exact congrArg Bool.not hdirect
    · exact congrArg Bool.not hdirect
  have hnone : ∀ k, (m.step .poll).pending k = none := by
    rcases hafter.due hstill with hdue | hnone
    · rw [hseen] at hdue
      exact Bool.noConfusion hdue
    · exact hnone
  refine fun k => ⟨hnone k, fun v hlast => ?_⟩
  have heffective := hafter.last k v hlast
  rwa [effective, hnone k] at heffective

omit [DecidableEq κ] in
theorem current_of_fresh (hpending : ∀ k, m.pending k = none) (hlast : ∀ k, m.last k = none) : m.Current where
  last k v h := by
    rw [hlast k] at h
    cases h
  due _ := .inr hpending

end Store

end Overlay
