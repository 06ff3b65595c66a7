import Mathlib.Tactic.Common
import Mathlib.Data.List.Basic
import Mathlib.Data.List.Range

namespace Rounds

/-- What a server does for a slot. -/
inductive Output where
  | prepare (slot : Nat)
  | serve (slot : Nat)
  deriving DecidableEq

/-- Where the server stands with the slot whose turn it is. -/
inductive Stage where
  | choosing (prepared : Bool)
  | preparing
  | serving
  | finished
  deriving DecidableEq

/-- A server that serves `n` slots in rounds. Before a slot is served it may be prepared. -/
structure Server where
  turn : Nat := 0
  stage : Stage := .choosing false
  deriving DecidableEq

/-- The server finishes only at the end of a round. -/
inductive Step (n : Nat) : Server → List Output → Server → Prop
  | wait (s : Server) : Step n s [] s
  | prepare (turn : Nat) : Step n ⟨turn, .choosing false⟩ [.prepare (turn % n)] ⟨turn, .preparing⟩
  | ready (turn : Nat) : Step n ⟨turn, .preparing⟩ [] ⟨turn, .choosing true⟩
  | serve (turn : Nat) (prepared : Bool) :
    Step n ⟨turn, .choosing prepared⟩ [.serve (turn % n)] ⟨turn, .serving⟩
  | next (turn : Nat) : Step n ⟨turn, .serving⟩ [] ⟨turn + 1, .choosing false⟩
  | finish (turn : Nat) (hround : (turn + 1) % n = 0) : Step n ⟨turn, .serving⟩ [] ⟨turn + 1, .finished⟩

/-- Only a server that is serving finishes. -/
theorem Step.of_finished {n : Nat} {s s' : Server} {out : List Output} (h : Step n s out s')
    (hfinished : s'.stage = .finished) : s.stage = .finished ∨ s.stage = .serving := by
  cases h with
  | wait => exact .inl hfinished
  | finish => exact .inr rfl
  | prepare => cases hfinished
  | ready => cases hfinished
  | serve => cases hfinished
  | next => cases hfinished

/-- What is done for a slot, which may be prepared. -/
def item (slot : Nat) (prepared : Bool) : List Output :=
  (if prepared then [.prepare slot] else []) ++ [.serve slot]

/-- What is done for the first turns. The list says for each of them whether its slot was prepared. -/
def schedule (n : Nat) (turns : List Bool) : List Output :=
  turns.zipIdx.flatMap fun (prepared, turn) => item (turn % n) prepared

/-- The slots that were served. -/
def served (trace : List Output) : List Nat :=
  trace.filterMap fun output =>
    match output with
    | .prepare _ => none
    | .serve slot => some slot

theorem schedule_concat (n : Nat) (turns : List Bool) (prepared : Bool) :
    schedule n (turns ++ [prepared]) = schedule n turns ++ item (turns.length % n) prepared := by
  unfold schedule
  rw [List.zipIdx_append, List.flatMap_append]
  simp

theorem served_append (trace rest : List Output) : served (trace ++ rest) = served trace ++ served rest :=
  List.filterMap_append

theorem served_item (slot : Nat) (prepared : Bool) : served (item slot prepared) = [slot] := by
  cases prepared with
  | false => rfl
  | true => rfl

/-- Every turn serves its slot once. -/
theorem served_schedule (n : Nat) (turns : List Bool) :
    served (schedule n turns) = (List.range turns.length).map (· % n) := by
  induction turns using List.reverseRecOn with
  | nil => rfl
  | append_singleton turns prepared ih =>
    rw [schedule_concat, served_append, ih, served_item, List.length_append, List.length_singleton, List.range_succ,
      List.map_append, List.map_singleton]

/-- The turns of whole rounds and of a part of one go through the slots in order. -/
theorem range_mod {n r : Nat} (rounds : Nat) (hr : r ≤ n) :
    (List.range (rounds * n + r)).map (· % n) = (List.replicate rounds (List.range n)).flatten ++ List.range r := by
  have hpart : ∀ k ≤ n, (List.range k).map (· % n) = List.range k := by
    intro k hk
    have hsmall : (List.range k).map (· % n) = (List.range k).map id := by
      apply List.map_congr_left
      intro slot hmem
      exact Nat.mod_eq_of_lt ((List.mem_range.mp hmem).trans_le hk)
    rw [hsmall, List.map_id]
  induction rounds with
  | zero =>
    rw [Nat.zero_mul, Nat.zero_add, hpart r hr]
    rfl
  | succ rounds ih =>
    have hsum : (rounds + 1) * n + r = n + (rounds * n + r) := by
      rw [Nat.succ_mul]
      omega
    have hshift : (· % n) ∘ (n + ·) = (· % n) := by
      funext slot
      exact Nat.add_mod_left n slot
    rw [hsum, List.range_add, List.map_append, List.map_map, hshift, ih, hpart n le_rfl, List.replicate_succ,
      List.flatten_cons, List.append_assoc]

namespace Server

/-- The turns that have been served. -/
def turns (s : Server) : Nat := if s.stage = .serving then s.turn + 1 else s.turn

/-- What has been done for a slot that has not been served yet. -/
def begun (n : Nat) (s : Server) : List Output :=
  match s.stage with
  | .choosing true | .preparing => [.prepare (s.turn % n)]
  | _ => []

end Server

/-- The server has done what the schedule says, up to where it stands. -/
def Scheduled (n : Nat) (s : Server) (trace : List Output) : Prop :=
  (∃ turns : List Bool, turns.length = s.turns ∧ trace = schedule n turns ++ s.begun n) ∧
    (s.stage = .finished → s.turns % n = 0)

theorem Scheduled.init (n : Nat) : Scheduled n {} [] := ⟨⟨[], rfl, rfl⟩, nofun⟩

theorem Scheduled.step {n : Nat} {s s' : Server} {trace out : List Output} (h : Scheduled n s trace)
    (hstep : Step n s out s') : Scheduled n s' (trace ++ out) := by
  obtain ⟨⟨turns, hlength, rfl⟩, hfinished⟩ := h
  cases hstep with
  | wait =>
    rw [List.append_nil]
    exact ⟨⟨turns, hlength, rfl⟩, hfinished⟩
  | prepare turn =>
    refine ⟨⟨turns, hlength, ?_⟩, nofun⟩
    rw [List.append_assoc]
    rfl
  | ready turn =>
    refine ⟨⟨turns, hlength, ?_⟩, nofun⟩
    rw [List.append_nil]
    rfl
  | serve turn prepared =>
    have hturn : turns.length = turn := hlength
    refine ⟨⟨turns ++ [prepared], ?_, ?_⟩, nofun⟩
    · rw [List.length_append, hturn]
      rfl
    · rw [schedule_concat, hturn, List.append_assoc, List.append_assoc]
      cases prepared with
      | false => rfl
      | true => rfl
  | next turn =>
    refine ⟨⟨turns, hlength, ?_⟩, nofun⟩
    rw [List.append_nil]
    rfl
  | finish turn hround =>
    refine ⟨⟨turns, hlength, ?_⟩, fun _ => hround⟩
    rw [List.append_nil]
    rfl

/-- Round after round every slot is served once, in order. -/
theorem Scheduled.served_rounds {n : Nat} {s : Server} {trace : List Output} (h : Scheduled n s trace) (hn : 0 < n) :
    served trace = (List.replicate (s.turns / n) (List.range n)).flatten ++ List.range (s.turns % n) := by
  obtain ⟨⟨turns, hlength, rfl⟩, -⟩ := h
  have hbegun : served (s.begun n) = [] := by
    unfold Server.begun
    split <;> rfl
  rw [served_append, hbegun, List.append_nil, served_schedule, hlength, ← range_mod _ (Nat.mod_lt _ hn).le,
    Nat.div_add_mod']

/-- Every turn is over that the list stands for, and nothing more than the preparation of the next
one is done. So the slots are served in order, round after round. -/
structure InRounds (n : Nat) (turns : List Bool) (trace : List Output) : Prop where
  scheduled : trace = schedule n turns ∨ trace = schedule n turns ++ [.prepare (turns.length % n)]
  served : served trace =
    (List.replicate (turns.length / n) (List.range n)).flatten ++ List.range (turns.length % n)

theorem Scheduled.inRounds {n : Nat} {s : Server} {trace : List Output} (h : Scheduled n s trace) (hn : 0 < n) :
    ∃ turns, InRounds n turns trace ∧ (s.stage = .finished → turns.length % n = 0 ∧ trace = schedule n turns) := by
  have hserved := h.served_rounds hn
  obtain ⟨⟨turns, hlength, htrace⟩, hfinished⟩ := h
  rw [← hlength] at hserved hfinished
  refine ⟨turns, ⟨?_, hserved⟩, fun hover => ⟨hfinished hover, ?_⟩⟩
  · obtain ⟨turn, stage⟩ := s
    rw [htrace]
    unfold Server.begun
    unfold Server.turns at hlength
    cases stage with
    | choosing prepared =>
      cases prepared with
      | false => exact .inl (List.append_nil _)
      | true =>
        rw [hlength]
        exact .inr rfl
    | preparing =>
      rw [hlength]
      exact .inr rfl
    | serving => exact .inl (List.append_nil _)
    | finished => exact .inl (List.append_nil _)
  · have hnothing : s.begun n = [] := by
      unfold Server.begun
      rw [hover]
    rw [htrace, hnothing, List.append_nil]

end Rounds
