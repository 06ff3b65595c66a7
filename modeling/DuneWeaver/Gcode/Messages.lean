import DuneWeaver.Gcode.Collapse
import Mathlib.Data.List.Infix

namespace DuneWeaver

variable {V : Type*} {env : CommentEnv V}

/-- The text of a message from an index of the comment on: its parameters replaced by their values. -/
def CommentEnv.expanded (env : CommentEnv V) (comment : Bytes) : Nat → Nat → Bytes → Bytes
  | turns, index, format =>
    if index < comment.length then
      match turns with
      | 0 => []
      | turns + 1 =>
        let c := comment.getD index 0
        if c = 0x25 then
          match decode_format_string comment index with
          | some (index, format) => env.expanded comment turns (index + 1) format
          | none => c :: env.expanded comment turns (index + 1) format
        else if c = 0x23 then
          match env.read_number comment index with
          | (some number, passed) =>
            env.print format number ++ env.expanded comment turns (index + passed + 1) format
          | (none, passed) => c :: env.expanded comment turns (index + passed + 1) format
        else c :: env.expanded comment turns (index + 1) format
    else []

theorem decode_format_string_index {comment format : Bytes} {index last : Nat}
    (h : decode_format_string comment index = some (last, format)) : index < last := by
  unfold decode_format_string at h
  dsimp only at h
  split_ifs at h
  all_goals
    rw [Option.some.injEq, Prod.mk.injEq] at h
    omega

section Loop

variable {comment : Bytes} {turns index msgindex : Nat} {format msg : Bytes}

/-- The loop stays in the buffer when the text fits it, and leaves the text there. -/
theorem comment_loop_fits (hturns : comment.length - index ≤ turns)
    (hfits : msgindex + (env.expanded comment turns index format).length < msg.length) :
    ∃ msg', comment_loop env comment turns index format msg msgindex =
        some (msg', msgindex + (env.expanded comment turns index format).length) ∧ msg'.length = msg.length ∧
      msg'.take (msgindex + (env.expanded comment turns index format).length) =
        msg.take msgindex ++ env.expanded comment turns index format := by
  induction turns generalizing index format msg msgindex with
  | zero =>
    have hend : ¬index < comment.length := by omega
    rw [comment_loop, CommentEnv.expanded, if_neg hend, if_neg hend]
    exact ⟨msg, rfl, rfl, (List.append_nil _).symm⟩
  | succ turns ih =>
    -- one character of the comment that is copied to the message
    have hcopy : ∀ (c : UInt8) (next : Nat), comment.length - next ≤ turns →
        msgindex + (c :: env.expanded comment turns next format).length < msg.length →
        ∃ msg', ((store msg msgindex c).bind fun msg =>
            comment_loop env comment turns next format msg (msgindex + 1)) =
            some (msg', msgindex + (c :: env.expanded comment turns next format).length) ∧
          msg'.length = msg.length ∧
          msg'.take (msgindex + (c :: env.expanded comment turns next format).length) =
            msg.take msgindex ++ c :: env.expanded comment turns next format := by
      intro c next hnext hroom
      rw [List.length_cons] at hroom
      obtain ⟨stored, hstore, hlength, htake⟩ := store_fits c (by omega : msgindex < msg.length)
      have hlater : msgindex + 1 + (env.expanded comment turns next format).length < stored.length := by omega
      obtain ⟨last, hloop, hlength', htake'⟩ := ih hnext hlater
      have hsum : msgindex + (c :: env.expanded comment turns next format).length =
          msgindex + 1 + (env.expanded comment turns next format).length := by rw [List.length_cons]; omega
      refine ⟨last, ?_, hlength'.trans hlength, ?_⟩
      · rw [hstore, Option.bind_some, hloop, hsum]
      · rw [hsum, htake', htake, List.append_assoc]
        rfl
    by_cases hmore : index < comment.length
    · rw [comment_loop, if_pos hmore]
      rw [CommentEnv.expanded, if_pos hmore] at hfits ⊢
      dsimp only at hfits ⊢
      by_cases hpercent : comment.getD index 0 = 0x25
      · rw [if_pos hpercent] at hfits ⊢
        rw [if_pos hpercent]
        cases hformat : decode_format_string comment index with
        | some found =>
          obtain ⟨last, format'⟩ := found
          have hlater := decode_format_string_index hformat
          rw [hformat] at hfits
          exact ih (by omega) hfits
        | none =>
          rw [hformat] at hfits
          exact hcopy _ _ (by omega) hfits
      · rw [if_neg hpercent] at hfits ⊢
        rw [if_neg hpercent]
        by_cases hparam : comment.getD index 0 = 0x23
        · rw [if_pos hparam] at hfits ⊢
          rw [if_pos hparam]
          rcases hread : env.read_number comment index with ⟨found, passed⟩
          rw [hread] at hfits
          cases found with
          | none => exact hcopy _ _ (by omega) hfits
          | some number =>
            dsimp only at hfits ⊢
            rw [List.length_append] at hfits
            obtain ⟨stored, hstore, hlength, htake⟩ :=
              sprintf_fits (by omega : msgindex + (env.print format number).length < msg.length)
            have hlater : msgindex + (env.print format number).length +
                (env.expanded comment turns (index + passed + 1) format).length < stored.length := by omega
            obtain ⟨last, hloop, hlength', htake'⟩ :=
              ih (by omega : comment.length - (index + passed + 1) ≤ turns) hlater
            refine ⟨last, ?_, hlength'.trans hlength, ?_⟩
            · rw [hstore, Option.bind_some, hloop, List.length_append, Nat.add_assoc]
            · rw [List.length_append, ← Nat.add_assoc, htake', htake, List.append_assoc]
        · rw [if_neg hparam] at hfits ⊢
          rw [if_neg hparam]
          exact hcopy _ _ (by omega) hfits
    · rw [comment_loop, CommentEnv.expanded, if_neg hmore, if_neg hmore]
      exact ⟨msg, rfl, rfl, (List.append_nil _).symm⟩

end Loop

section Comment

/-- The text that a comment is to print. -/
def CommentEnv.message (env : CommentEnv V) (comment : Bytes) : Option Bytes :=
  if ¬bytes "MSG" <:+: comment ∧ ((comment.take 6).map toupper = bytes "DEBUG," ∨
      (comment.take 6).map toupper = bytes "PRINT,") then
    some (env.expanded comment comment.length 6 (bytes "%lf"))
  else none

/-- What is logged for a comment. -/
def CommentEnv.logged (env : CommentEnv V) (comment : Bytes) : List CommentLog :=
  match env.message comment with
  | some text => [if (comment.take 6).map toupper = bytes "DEBUG," then .debug (c_str text) else .print (c_str text)]
  | none => if bytes "MSG" <:+: comment then [.msg (comment.drop 4)] else []

/-- The message of a comment and its NUL fit the buffer. -/
def CommentEnv.Fits (env : CommentEnv V) (comment : Bytes) : Prop :=
  ∀ text, env.message comment = some text → text.length < msgSize

theorem c_str_drop {comment : Bytes} (rest : Bytes) {n : Nat} (hzero : 0 ∉ comment) (h : n ≤ comment.length) :
    c_str ((comment ++ 0 :: rest).drop n) = comment.drop n := by
  rw [List.drop_append_of_le_length h, c_str_before_nul]
  exact c_str_eq_self fun hin => hzero (List.mem_of_mem_drop hin)

theorem msg_length {comment : Bytes} (h : bytes "MSG" <:+: comment) (hne : comment ≠ bytes "MSG") :
    4 ≤ comment.length := by
  have hthree : (bytes "MSG").length = 3 := by decide
  have hle := h.length_le
  have hlength : comment.length ≠ 3 := fun heq => hne (h.eq_of_length (by rw [hthree, heq])).symm
  omega

theorem gcode_comment_msg_fits {comment : Bytes} (rest : Bytes) (hzero : 0 ∉ comment) (h : env.Fits comment) :
    ∃ log, gcode_comment_msg env (comment ++ 0 :: rest) = some log ∧
      (comment ≠ bytes "MSG" → log = env.logged comment) := by
  unfold gcode_comment_msg CommentEnv.logged
  dsimp only
  rw [c_str_before_nul, c_str_eq_self hzero]
  by_cases hmsg : bytes "MSG" <:+: comment
  · rw [if_pos hmsg, CommentEnv.message, if_neg (fun h => h.1 hmsg)]
    refine ⟨_, rfl, fun hne => ?_⟩
    simp only [if_pos hmsg]
    rw [c_str_drop rest hzero (msg_length hmsg hne)]
  · rw [if_neg hmsg]
    by_cases hprint : (comment.take 6).map toupper = bytes "DEBUG," ∨ (comment.take 6).map toupper = bytes "PRINT,"
    · have hmessage : env.message comment = some (env.expanded comment comment.length 6 (bytes "%lf")) := by
        rw [CommentEnv.message, if_pos ⟨hmsg, hprint⟩]
      have hroom := h _ hmessage
      have hempty : 0 + (env.expanded comment comment.length 6 (bytes "%lf")).length <
          (List.replicate msgSize (0 : UInt8)).length := by
        rw [List.length_replicate]
        omega
      obtain ⟨msg, hloop, hlength, htake⟩ :=
        comment_loop_fits (by omega : comment.length - 6 ≤ comment.length) hempty
      rw [Nat.zero_add, List.take_zero, List.nil_append] at htake
      rw [Nat.zero_add] at hloop
      rw [List.length_replicate] at hlength
      obtain ⟨last, hstore, -, hlast⟩ :=
        store_fits 0 (by omega : (env.expanded comment comment.length 6 (bytes "%lf")).length < msg.length)
      have hstr : c_str last = c_str (env.expanded comment comment.length 6 (bytes "%lf")) := by
        rw [← List.take_append_drop ((env.expanded comment comment.length 6 (bytes "%lf")).length + 1) last, hlast,
          htake,
          List.append_assoc]
        exact c_str_before_nul _ _
      rw [if_pos hprint, hloop, hmessage, Option.bind_some, hstore, Option.map_some, hstr]
      exact ⟨_, rfl, fun _ => rfl⟩
    · rw [if_neg hprint, CommentEnv.message, if_neg (fun h => hprint h.2)]
      refine ⟨_, rfl, fun _ => ?_⟩
      simp only [if_neg hmsg]

end Comment

end DuneWeaver
