import DuneWeaver.Bytes
import DuneWeaver.RingBuffer.Window
import Mathlib.Data.Nat.Digits.Defs

namespace DuneWeaver

def kCapacity : Nat := 8192

/-- The rolling capture of the log. `message_level` is the channel's. -/
structure RingLog extends RingBuffer UInt8 where
  message_level : Nat

namespace RingLog

/-- A log before its first line; what the cells hold then does not matter. -/
def fresh (cells : Nat → UInt8) (message_level : Nat) : RingLog := { cells, message_level }

def ringPush (r : RingLog) (c : UInt8) : RingLog := { r with toRingBuffer := r.toRingBuffer.push kCapacity c }

/-- `"[+%lu] "` of the seconds since boot. -/
def uptime (millis : UInt32) : Bytes := bytes "[+" ++ digits (millis.toNat / 1000) ++ bytes "] "

/-- One call of `print_msg`, with the clock it finds. -/
structure Call where
  level : Nat
  msg : Bytes
  millis : UInt32

/-- The line that a call logs. -/
def Call.line (call : Call) : Bytes := uptime call.millis ++ c_str call.msg ++ [10]

def print_msg (r : RingLog) (call : Call) : RingLog :=
  if r.message_level < call.level then r
  else
    let r := (uptime call.millis).foldl ringPush r
    let r := (c_str call.msg).foldl ringPush r
    r.ringPush 10

/-- The loop of `snapshot` to the first newline. -/
def boundary (r : RingLog) (i : Nat) : Nat :=
  if i < r.count ∧ r.entry kCapacity i ≠ 10 then boundary r (i + 1) else i
termination_by r.count - i

/-- The loop of `snapshot` that copies into `out`. -/
def copy (outlen : Nat) (r : RingLog) (i : Nat) (out : Bytes) : Bytes :=
  if i < r.count ∧ out.length < outlen then copy outlen r (i + 1) (out ++ [r.entry kCapacity i]) else out
termination_by r.count - i

/-- What `snapshot` leaves in a buffer of `outlen` bytes. -/
def snapshot (outlen : Nat) (r : RingLog) : Bytes :=
  -- the oldest entry of a full ring is usually a part of a line
  let i := if r.count = kCapacity then r.boundary 0 + 1 else 0
  r.copy outlen i []

/-- All lines that the calls have logged. -/
def logged (message_level : Nat) (calls : List Call) : Bytes :=
  ((calls.filter fun call => call.level ≤ message_level).map Call.line).flatten

/-- The text ends where a line does, or has not begun. -/
def AtBoundary (text : Bytes) : Prop := text = [] ∨ [10] <:+ text

theorem foldl_ringPush (r : RingLog) (text : Bytes) :
    text.foldl ringPush r = { r with toRingBuffer := text.foldl (fun r c => r.push kCapacity c) r.toRingBuffer } := by
  induction text generalizing r with
  | nil => rfl
  | cons c text ih =>
    rw [List.foldl_cons, ih]
    rfl

variable {r : RingLog} {stream : Bytes} {call : Call}

theorem print_msg_level (r : RingLog) (call : Call) : (r.print_msg call).message_level = r.message_level := by
  unfold print_msg
  split_ifs
  · rfl
  · simp only [foldl_ringPush, ringPush]

/-- A call puts its line behind the others, or nothing if it is above the level. -/
theorem print_msg_holds (h : RingBuffer.Holds kCapacity r.toRingBuffer stream) :
    RingBuffer.Holds kCapacity (r.print_msg call).toRingBuffer
      (stream ++ if call.level ≤ r.message_level then call.line else []) := by
  unfold print_msg
  by_cases hlevel : r.message_level < call.level
  · rw [if_pos hlevel, if_neg (by omega), List.append_nil]
    exact h
  · rw [if_neg hlevel, if_pos (by omega), Call.line]
    have hprefix := h.foldl_push (uptime call.millis)
    have htext := hprefix.foldl_push (c_str call.msg)
    have hline := htext.push 10
    simp only [List.append_assoc, foldl_ringPush, ringPush] at hline ⊢
    exact hline

/-- After all the calls, the ring has been filled with all the lines. -/
theorem foldl_print_msg_holds (h : RingBuffer.Holds kCapacity r.toRingBuffer stream) (calls : List Call) :
    RingBuffer.Holds kCapacity (calls.foldl print_msg r).toRingBuffer (stream ++ logged r.message_level calls) := by
  induction calls generalizing r stream with
  | nil =>
    rw [logged, List.filter_nil, List.map_nil, List.flatten_nil, List.append_nil]
    exact h
  | cons call calls ih =>
    have hprinted : RingBuffer.Holds kCapacity (r.print_msg call).toRingBuffer
        (stream ++ if call.level ≤ r.message_level then call.line else []) := print_msg_holds h
    have hnext := ih hprinted
    rw [print_msg_level, List.append_assoc] at hnext
    have hlines : logged r.message_level (call :: calls) =
        (if call.level ≤ r.message_level then call.line else []) ++ logged r.message_level calls := by
      unfold logged
      by_cases hlevel : call.level ≤ r.message_level
      · rw [List.filter_cons_of_pos (by simpa using hlevel), if_pos hlevel, List.map_cons, List.flatten_cons]
      · rw [List.filter_cons_of_neg (by simpa using hlevel), if_neg hlevel, List.nil_append]
    rw [hlines]
    exact hnext

/-- The lines together end where a line does. -/
theorem logged_atBoundary (message_level : Nat) (calls : List Call) : AtBoundary (logged message_level calls) := by
  unfold logged
  generalize calls.filter (fun call => decide (call.level ≤ message_level)) = shown
  rcases List.eq_nil_or_concat shown with rfl | ⟨front, last, rfl⟩
  · exact .inl rfl
  · right
    rw [List.concat_eq_append, List.map_append, List.flatten_append, List.map_singleton, List.flatten_singleton,
      Call.line, ← List.append_assoc]
    exact List.suffix_append _ _

/-- The first loop stops at a newline, or has passed all entries. -/
theorem boundary_spec (r : RingLog) {i : Nat} (hi : i ≤ r.count) :
    r.boundary i ≤ r.count ∧ (r.boundary i < r.count → r.entry kCapacity (r.boundary i) = 10) := by
  fun_induction boundary r i with
  | case1 i hgo ih => exact ih hgo.1
  | case2 i hstop =>
    refine ⟨hi, fun hlt => ?_⟩
    by_contra hother
    exact hstop ⟨hlt, hother⟩

/-- With room for all of them, the second loop copies the entries from the `i`-th on. -/
theorem copy_eq {outlen : Nat} (hroom : r.count ≤ outlen) {i : Nat} {out : Bytes} (hout : out.length ≤ i) :
    r.copy outlen i out = out ++ (r.entries kCapacity).drop i := by
  fun_induction copy outlen r i out with
  | case1 i out hgo ih =>
    have hi : i < (r.entries kCapacity).length := by
      rw [RingBuffer.length_entries]
      exact hgo.1
    have hentry : (r.entries kCapacity)[i] = r.entry kCapacity i := by
      simp only [RingBuffer.entries, List.getElem_map, List.getElem_range]
    rw [ih (by simpa using hout), List.append_assoc, List.singleton_append, List.drop_eq_getElem_cons hi, hentry]
  | case2 i out hstop =>
    have hend : r.count ≤ i := by
      by_contra hmore
      exact hstop ⟨by omega, by omega⟩
    rw [List.drop_eq_nil_of_le (by rw [RingBuffer.length_entries]; exact hend), List.append_nil]

/-- What is copied into a buffer of the size of the ring is the end of the stream, from
where a line of it begins. -/
theorem Holds.snapshot (h : RingBuffer.Holds kCapacity r.toRingBuffer stream) (hstream : AtBoundary stream)
    {outlen : Nat}
    (hroom : kCapacity ≤ outlen) : ∃ earlier, stream = earlier ++ r.snapshot outlen ∧ AtBoundary earlier := by
  have hcount := h.count
  have hcopy (i : Nat) : r.copy outlen i [] = stream.drop (stream.length - r.count + i) := by
    rw [copy_eq (by omega) (Nat.zero_le i), List.nil_append, h.entries_eq, List.drop_drop]
  unfold RingLog.snapshot
  by_cases hfull : r.count = kCapacity
  · rw [if_pos hfull]
    dsimp only
    rw [hcopy]
    refine ⟨stream.take (stream.length - r.count + (r.boundary 0 + 1)), (List.take_append_drop _ _).symm, ?_⟩
    obtain ⟨hinside, hnewline⟩ := r.boundary_spec (Nat.zero_le r.count)
    by_cases hfound : r.boundary 0 < r.count
    · right
      have hlt : stream.length - r.count + r.boundary 0 < stream.length := by omega
      have hlast : stream[stream.length - r.count + r.boundary 0] = 10 := by
        rw [← hnewline hfound]
        exact (h.entry_eq hfound hlt).symm
      rw [← Nat.add_assoc, List.take_succ_eq_append_getElem hlt, hlast]
      exact List.suffix_append _ _
    · rw [List.take_of_length_le (by omega)]
      exact hstream
  · rw [if_neg hfull]
    dsimp only
    refine ⟨[], ?_, .inl rfl⟩
    rw [hcopy, show stream.length - r.count + 0 = 0 by omega, List.drop_zero, List.nil_append]

/-- Whatever has been logged, the snapshot is the end of it and starts with a whole line. -/
theorem snapshot_keeps_lines (cells : Nat → UInt8) (message_level : Nat) (calls : List Call) {outlen : Nat}
    (hroom : kCapacity ≤ outlen) :
    ∃ earlier, logged message_level calls = earlier ++
      (calls.foldl print_msg (fresh cells message_level)).snapshot outlen ∧
      AtBoundary earlier := by
  have hholds := foldl_print_msg_holds (r := fresh cells message_level) (RingBuffer.Holds.empty cells) calls
  rw [List.nil_append] at hholds
  exact Holds.snapshot hholds (logged_atBoundary message_level calls) hroom

/-- Five hundred lines, of more than the ring holds. -/
def readyLines : List Call := List.replicate 500 ⟨3, bytes "Ready for the next pattern", 2500⟩

theorem snapshot_keeps_wrapped_lines :
    kCapacity < (logged 5 readyLines).length ∧
      ∃ earlier, logged 5 readyLines =
          earlier ++ (readyLines.foldl print_msg (fresh (fun _ => 0) 5)).snapshot kCapacity ∧
        AtBoundary earlier := by
  refine ⟨?_, snapshot_keeps_lines (fun _ => 0) 5 readyLines (Nat.le_refl kCapacity)⟩
  have hline : (Call.line ⟨3, bytes "Ready for the next pattern", 2500⟩).length = 32 := by decide
  unfold logged readyLines
  rw [List.filter_replicate, if_pos (by decide), List.map_replicate, List.length_flatten, List.map_replicate, hline,
    List.sum_replicate_nat]
  decide

end RingLog

end DuneWeaver
