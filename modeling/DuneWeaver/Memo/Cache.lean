import Mathlib.Tactic.Common

namespace Memo

variable {α κ β : Type*} {compute : α → β} {key : κ} {content : α} {cache : Option (κ × β)}

/-- What is kept for the key of a content is what is computed of it. -/
def Fresh (compute : α → β) (key : κ) (content : α) (cache : Option (κ × β)) : Prop :=
  ∀ value, cache = some (key, value) → value = compute content

theorem fresh_none : Fresh compute key content none := fun value h => by cases h

section Lookup

variable [DecidableEq κ]

/-- What is computed of a content, or what was kept for its key. Whatever is answered is kept for the key. -/
def lookup (compute : α → β) (key : κ) (content : α) (cache : Option (κ × β)) : β × Option (κ × β) :=
  match cache with
  | some (kept, value) => if kept = key then (value, cache) else (compute content, some (key, compute content))
  | none => (compute content, some (key, compute content))

/-- A cache is right about a content exactly if the answer is. -/
theorem fresh_iff : Fresh compute key content cache ↔ (lookup compute key content cache).1 = compute content := by
  cases cache with
  | none => exact iff_of_true fresh_none rfl
  | some entry =>
    obtain ⟨kept, value⟩ := entry
    rw [lookup]
    by_cases hkey : kept = key
    · subst hkey
      rw [if_pos rfl]
      exact ⟨fun h => h value rfl, fun h other hother => (Prod.mk.inj (Option.some.inj hother)).2 ▸ h⟩
    · rw [if_neg hkey]
      exact iff_of_true (fun other hother => absurd (Prod.mk.inj (Option.some.inj hother)).1 hkey) rfl

/-- Two computations are looked up alike if something is kept for the key, or they agree on the content. -/
theorem lookup_congr {compute' : α → β}
    (h : (∀ value, cache ≠ some (key, value)) → compute' content = compute content) :
    lookup compute' key content cache = lookup compute key content cache := by
  cases cache with
  | none =>
    have hsame := h fun value habsurd => by cases habsurd
    rw [lookup, lookup, hsame]
  | some entry =>
    obtain ⟨kept, value⟩ := entry
    rw [lookup, lookup]
    by_cases hkey : kept = key
    · rw [if_pos hkey, if_pos hkey]
    · have hsame := h fun other hother => hkey (Prod.mk.inj (Option.some.inj hother)).1
      rw [if_neg hkey, if_neg hkey, hsame]

/-- A cache that is right is right behind an answer too. -/
theorem Fresh.lookup (h : Fresh compute key content cache) :
    Fresh compute key content (lookup compute key content cache).2 := by
  cases cache with
  | none => exact fun value hvalue => (Prod.mk.inj (Option.some.inj hvalue)).2.symm
  | some entry =>
    obtain ⟨kept, value⟩ := entry
    rw [Memo.lookup]
    by_cases hkey : kept = key
    · rw [if_pos hkey]
      exact h
    · rw [if_neg hkey]
      exact fun other hother => (Prod.mk.inj (Option.some.inj hother)).2.symm

end Lookup

end Memo
