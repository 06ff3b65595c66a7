import Mathlib.Data.List.Basic

namespace Framing

/-- The stream contains the payloads, in this order and each in a frame of its own;
the frames are numbered from `n` on. What lies between the frames is arbitrary. -/
inductive Carries {α P : Type*} (frame : ℕ → P → List α) : ℕ → List α → List P → Prop
  | nothing (n : ℕ) (stream : List α) : Carries frame n stream []
  | noise (n : ℕ) (a : α) (stream : List α) (payloads : List P) :
      Carries frame n stream payloads → Carries frame n (a :: stream) payloads
  | framed (n : ℕ) (p : P) (stream : List α) (payloads : List P) :
      Carries frame (n + 1) stream payloads → Carries frame n (frame n p ++ stream) (p :: payloads)

variable {α P : Type*} {frame : ℕ → P → List α} {n : ℕ} {stream rest : List α} {payloads more : List P}

/-- The frames of a sequence of payloads, with nothing between them. -/
def frames (frame : ℕ → P → List α) (n : ℕ) : List P → List α
  | [] => []
  | p :: payloads => frame n p ++ frames frame (n + 1) payloads

theorem frames_concat (payloads : List P) (p : P) :
    frames frame n (payloads ++ [p]) = frames frame n payloads ++ frame (n + payloads.length) p := by
  induction payloads generalizing n with
  | nil => simp [frames]
  | cons q payloads ih =>
    have hcount : n + 1 + payloads.length = n + (payloads.length + 1) := by omega
    simp only [List.cons_append, frames, ih, List.length_cons, List.append_assoc, hcount]

/-- Noise in front of a stream changes nothing of what it carries. -/
theorem Carries.behind (hcarries : Carries frame n stream payloads) (noise : List α) :
    Carries frame n (noise ++ stream) payloads := by
  induction noise with
  | nil => exact hcarries
  | cons a noise ih => exact .noise n a _ _ ih

/-- What follows a stream goes on with the numbers where the stream stopped. -/
theorem Carries.append (hcarries : Carries frame n stream payloads)
    (hmore : Carries frame (n + payloads.length) rest more) :
    Carries frame n (stream ++ rest) (payloads ++ more) := by
  induction hcarries with
  | nothing n stream => exact Carries.behind (by simpa using hmore) stream
  | noise n a stream payloads _ ih => exact .noise n a _ _ (ih hmore)
  | framed n p stream payloads _ ih =>
    have hcount : n + (payloads.length + 1) = n + 1 + payloads.length := by omega
    rw [List.length_cons, hcount] at hmore
    rw [List.append_assoc, List.cons_append]
    exact .framed n p _ _ (ih hmore)

/-- One more frame, after any noise. -/
theorem Carries.concat (hcarries : Carries frame n stream payloads) (noise : List α) (p : P) :
    Carries frame n (stream ++ (noise ++ frame (n + payloads.length) p)) (payloads ++ [p]) := by
  have hframed : Carries frame (n + payloads.length) (frame (n + payloads.length) p ++ []) [p] :=
    .framed _ p [] [] (.nothing _ _)
  rw [List.append_nil] at hframed
  exact hcarries.append (hframed.behind noise)

theorem Carries.append_right (hcarries : Carries frame n stream payloads) (rest : List α) :
    Carries frame n (stream ++ rest) payloads := by
  simpa using hcarries.append (.nothing (n + payloads.length) rest)

end Framing
