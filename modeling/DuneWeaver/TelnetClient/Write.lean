import DuneWeaver.TelnetClient.Read

namespace DuneWeaver.Telnet

def bufsize : Nat := 128

/-- What of a call of `write` has to do with the socket: the calls of
`_wifiClient->write` to come take so many bytes at most, and all of them once the list
is over. -/
structure Outlet where
  client : TelnetClient := {}
  answers : List Nat
  delivered : Bytes := []
  deriving DecidableEq

namespace Outlet

/-- `_wifiClient->write(modbuf, k)`, and the number it returns. -/
def send (o : Outlet) (modbuf : Bytes) : Nat × Outlet :=
  match o.answers with
  | [] => (modbuf.length, { o with delivered := o.delivered ++ modbuf })
  | answer :: answers =>
    (min answer modbuf.length, { o with answers, delivered := o.delivered ++ modbuf.take answer })

end Outlet

/-- The loop that fills `modbuf`, with the text that remains. It leaves room for a line
feed as the last character. -/
@[grind =] def fill (modbuf : Bytes) (lastchar : UInt8) : Bytes → Bytes × UInt8 × Bytes
  | [] => (modbuf, lastchar, [])
  | c :: rem =>
    if modbuf.length < bufsize - 1 then
      let modbuf := if c = 0x0a ∧ lastchar ≠ 0x0d then modbuf ++ [0x0d] else modbuf
      fill (modbuf ++ [c]) c rem
    else (modbuf, lastchar, c :: rem)

theorem length_fill_le (modbuf : Bytes) (lastchar : UInt8) (rem : Bytes) :
    (fill modbuf lastchar rem).2.2.length ≤ rem.length := by
  induction rem generalizing modbuf lastchar with
  | nil => exact Nat.le_refl _
  | cons c rem ih =>
    rw [fill]
    split
    · exact Nat.le_succ_of_le (ih _ _)
    · exact Nat.le_refl _

theorem length_fill_lt (lastchar : UInt8) {rem : Bytes} (hrem : rem ≠ []) :
    (fill [] lastchar rem).2.2.length < rem.length := by
  obtain ⟨c, rem, rfl⟩ := List.exists_cons_of_ne_nil hrem
  rw [fill, if_pos (by decide)]
  exact Nat.lt_succ_of_le (length_fill_le _ _ _)

namespace Outlet

/-- The loop of `write`. -/
def writeLoop (connected : Bool) (o : Outlet) (lastchar : UInt8) (rem : Bytes) : Outlet :=
  if rem = [] then o
  else
    let filled := fill [] lastchar rem
    if filled.1.length ≠ 0 then
      let (nWritten, o) := o.send filled.1
      if nWritten = 0 then { o with client := o.client.closeOnDisconnect connected }
      else writeLoop connected o filled.2.1 filled.2.2
    else writeLoop connected o filled.2.1 filled.2.2
termination_by rem.length
decreasing_by
  · exact length_fill_lt lastchar (by assumption)
  · exact length_fill_lt lastchar (by assumption)

def write (connected : Bool) (o : Outlet) (text : Bytes) : Outlet := o.writeLoop connected 0 text

end Outlet

/-- A text with a CR in front of each LF that no CR stands before. -/
@[grind =] def crlf (previous : Option UInt8) : Bytes → Bytes
  | [] => []
  | c :: text =>
    if c = 0x0a ∧ previous ≠ some 0x0d then 0x0d :: c :: crlf (some c) text else c :: crlf (some c) text

/-- What `modbuf` holds each time it goes to the socket, in a call of `write`. -/
def chunks (lastchar : UInt8) (rem : Bytes) : List Bytes :=
  if rem = [] then []
  else (fill [] lastchar rem).1 :: chunks (fill [] lastchar rem).2.1 (fill [] lastchar rem).2.2
termination_by rem.length
decreasing_by exact length_fill_lt lastchar (by assumption)

/-- What a socket with these answers delivers of the chunks it is offered. -/
@[grind =] def accepted : List Nat → List Bytes → Bytes
  | [], chunks => chunks.flatten
  | _, [] => []
  | answer :: answers, chunk :: chunks => chunk.take answer ++ accepted answers chunks

/-- The socket takes each chunk whole. -/
def Whole (answers : List Nat) (chunks : List Bytes) : Prop := ∀ offer ∈ chunks.zip answers, offer.1.length ≤ offer.2

instance (answers : List Nat) (chunks : List Bytes) : Decidable (Whole answers chunks) :=
  List.decidableBAll _ (chunks.zip answers)

/-- Filling takes a front of the text, and puts it into the buffer with the CRs. -/
theorem fill_spec (rem modbuf : Bytes) (lastchar : UInt8) :
    ∃ used, rem = used ++ (fill modbuf lastchar rem).2.2 ∧
      (fill modbuf lastchar rem).1 = modbuf ++ crlf (some lastchar) used ∧
      (fill modbuf lastchar rem).2.1 = used.getLast?.getD lastchar := by
  induction rem generalizing modbuf lastchar with
  | nil => exact ⟨[], rfl, by simp [fill, crlf], rfl⟩
  | cons c rem ih =>
    by_cases hroom : modbuf.length < bufsize - 1
    · obtain ⟨used, hrem, hmodbuf, hlast⟩ :=
        ih ((if c = 0x0a ∧ lastchar ≠ 0x0d then modbuf ++ [0x0d] else modbuf) ++ [c]) c
      refine ⟨c :: used, ?_, ?_, ?_⟩
      · rw [fill, if_pos hroom, List.cons_append, ← hrem]
      · rw [fill, if_pos hroom, hmodbuf, crlf]
        by_cases hfeed : c = 0x0a ∧ lastchar ≠ 0x0d
        · simp [hfeed]
        · have hsome : ¬(c = 0x0a ∧ some lastchar ≠ some 0x0d) := by simpa using hfeed
          rw [if_neg hfeed, if_neg hsome]
          simp
      · rw [fill, if_pos hroom, hlast, List.getLast?_cons]
        simp
    · exact ⟨[], by rw [fill, if_neg hroom]; rfl, by simp [fill, hroom, crlf], by simp [fill, hroom]⟩

/-- Two places are left whenever a character is put into the buffer. -/
theorem length_fill_fits (rem modbuf : Bytes) (lastchar : UInt8) (hfits : modbuf.length ≤ bufsize) :
    (fill modbuf lastchar rem).1.length ≤ bufsize := by
  induction rem generalizing modbuf lastchar with
  | nil => exact hfits
  | cons c rem ih =>
    rw [fill]
    split
    · next hroom =>
      apply ih
      unfold bufsize at hroom ⊢
      split
      · rw [List.length_append, List.length_append, List.length_singleton, List.length_singleton]
        omega
      · rw [List.length_append, List.length_singleton]
        omega
    · exact hfits

theorem length_chunk_le (lastchar : UInt8) (rem : Bytes) : ∀ chunk ∈ chunks lastchar rem, chunk.length ≤ bufsize := by
  rw [chunks]
  split
  · simp
  · next hrem =>
    rw [List.forall_mem_cons]
    exact ⟨length_fill_fits rem [] lastchar (Nat.zero_le _), length_chunk_le _ _⟩
termination_by rem.length
decreasing_by exact length_fill_lt lastchar (by assumption)

theorem crlf_append (previous : Option UInt8) (first second : Bytes) :
    crlf previous (first ++ second) = crlf previous first ++ crlf (first.getLast?.or previous) second := by
  induction first generalizing previous with
  | nil => rfl
  | cons c first ih =>
    have hlast : ((c :: first).getLast?).or previous = first.getLast?.or (some c) := by
      rw [List.getLast?_cons]
      cases first.getLast? <;> rfl
    rw [List.cons_append, crlf, crlf, ih, hlast]
    split <;> rfl

theorem crlf_ne_nil (previous : Option UInt8) {text : Bytes} (htext : text ≠ []) : crlf previous text ≠ [] := by
  obtain ⟨c, text, rfl⟩ := List.exists_cons_of_ne_nil htext
  rw [crlf]
  split
  · exact List.cons_ne_nil _ _
  · exact List.cons_ne_nil _ _

theorem flatten_chunks (lastchar : UInt8) (rem : Bytes) : (chunks lastchar rem).flatten = crlf (some lastchar) rem := by
  rw [chunks]
  split
  · next hrem => rw [hrem]; rfl
  · next hrem =>
    obtain ⟨used, hused, hmodbuf, hlast⟩ := fill_spec rem [] lastchar
    have ih := flatten_chunks (fill [] lastchar rem).2.1 (fill [] lastchar rem).2.2
    have hprevious : used.getLast?.or (some lastchar) = some (used.getLast?.getD lastchar) := by
      cases used.getLast? <;> rfl
    rw [List.flatten_cons, ih, hmodbuf, List.nil_append]
    conv_rhs => rw [hused, crlf_append, hprevious, ← hlast]
termination_by rem.length
decreasing_by exact length_fill_lt lastchar (by assumption)

theorem chunk_ne_nil (lastchar : UInt8) {rem : Bytes} (hrem : rem ≠ []) : (fill [] lastchar rem).1 ≠ [] := by
  obtain ⟨used, hused, hmodbuf, -⟩ := fill_spec rem [] lastchar
  rw [hmodbuf, List.nil_append]
  apply crlf_ne_nil
  rintro rfl
  have hlt := length_fill_lt lastchar hrem
  have hlen := congrArg List.length hused
  rw [List.nil_append] at hlen
  omega

/-- With answers that are positive a call offers all of its text. -/
theorem writeLoop_eq (connected : Bool) (o : Outlet) (lastchar : UInt8) (rem : Bytes)
    (hpositive : ∀ answer ∈ o.answers, 0 < answer) :
    o.writeLoop connected lastchar rem =
      { o with
        answers := o.answers.drop (chunks lastchar rem).length
        delivered := o.delivered ++ accepted o.answers (chunks lastchar rem) } := by
  by_cases hrem : rem = []
  · rw [Outlet.writeLoop, if_pos hrem, chunks, if_pos hrem]
    cases o with
    | mk client answers delivered => cases answers <;> simp [accepted]
  · have hchunk := chunk_ne_nil lastchar hrem
    have hlength : (fill [] lastchar rem).1.length ≠ 0 := fun h => hchunk (List.length_eq_zero_iff.mp h)
    rw [Outlet.writeLoop, if_neg hrem, if_pos hlength, chunks, if_neg hrem]
    cases hanswers : o.answers with
    | nil =>
      have hsend : o.send (fill [] lastchar rem).1 =
          ((fill [] lastchar rem).1.length, { o with delivered := o.delivered ++ (fill [] lastchar rem).1 }) := by
        simp [Outlet.send, hanswers]
      have ih := writeLoop_eq connected { o with delivered := o.delivered ++ (fill [] lastchar rem).1 }
        (fill [] lastchar rem).2.1 (fill [] lastchar rem).2.2 (by simpa using hpositive)
      rw [hsend]
      dsimp only
      rw [if_neg hlength, ih]
      simp [hanswers, accepted]
    | cons answer answers =>
      rw [hanswers, List.forall_mem_cons] at hpositive
      have hsend : o.send (fill [] lastchar rem).1 =
          (min answer (fill [] lastchar rem).1.length,
            { o with answers, delivered := o.delivered ++ (fill [] lastchar rem).1.take answer }) := by
        simp [Outlet.send, hanswers]
      have hsome : min answer (fill [] lastchar rem).1.length ≠ 0 := by
        have := hpositive.1
        omega
      have ih := writeLoop_eq connected
        { o with answers, delivered := o.delivered ++ (fill [] lastchar rem).1.take answer }
        (fill [] lastchar rem).2.1 (fill [] lastchar rem).2.2 hpositive.2
      rw [hsend]
      dsimp only
      rw [if_neg hsome, ih]
      simp [accepted]
termination_by rem.length
decreasing_by
  · exact length_fill_lt lastchar (by assumption)
  · exact length_fill_lt lastchar (by assumption)

/-- A socket that takes the chunks whole delivers them all, and any other fewer bytes. -/
theorem accepted_whole {answers : List Nat} {offered : List Bytes} (h : Whole answers offered) :
    accepted answers offered = offered.flatten := by
  induction offered generalizing answers with
  | nil => cases answers <;> rfl
  | cons chunk offered ih =>
    cases answers with
    | nil => rfl
    | cons answer answers =>
      rw [Whole, List.zip_cons_cons, List.forall_mem_cons] at h
      rw [accepted, List.take_of_length_le h.1, ih h.2, List.flatten_cons]

theorem length_accepted_le (answers : List Nat) (offered : List Bytes) :
    (accepted answers offered).length ≤ offered.flatten.length := by
  induction offered generalizing answers with
  | nil => cases answers <;> exact Nat.le_refl _
  | cons chunk offered ih =>
    cases answers with
    | nil => exact Nat.le_refl _
    | cons answer answers =>
      have := ih answers
      rw [accepted, List.flatten_cons, List.length_append, List.length_append, List.length_take]
      omega

theorem length_accepted_lt {answers : List Nat} {offered : List Bytes} (h : ¬Whole answers offered) :
    (accepted answers offered).length < offered.flatten.length := by
  induction offered generalizing answers with
  | nil => exact absurd (fun offer hoffer => absurd hoffer (by simp)) h
  | cons chunk offered ih =>
    cases answers with
    | nil => exact absurd (fun offer hoffer => absurd hoffer (by simp)) h
    | cons answer answers =>
      have hle := length_accepted_le answers offered
      rw [accepted, List.flatten_cons, List.length_append, List.length_append, List.length_take]
      by_cases hchunk : chunk.length ≤ answer
      · have hmore : ¬Whole answers offered := by
          intro hwhole
          apply h
          rw [Whole, List.zip_cons_cons, List.forall_mem_cons]
          exact ⟨hchunk, hwhole⟩
        have := ih hmore
        omega
      · omega

theorem accepted_eq_iff (answers : List Nat) (offered : List Bytes) :
    accepted answers offered = offered.flatten ↔ Whole answers offered := by
  constructor
  · intro heq
    by_contra hnot
    have hlt := length_accepted_lt hnot
    rw [heq] at hlt
    exact Nat.lt_irrefl _ hlt
  · exact accepted_whole

/-- The first byte of a call reaches the socket. -/
theorem head_accepted (answers : List Nat) (hpositive : ∀ answer ∈ answers, 0 < answer) (lastchar : UInt8)
    (rem : Bytes) :
    (accepted answers (chunks lastchar rem)).head? = (crlf (some lastchar) rem).head? := by
  by_cases hrem : rem = []
  · rw [chunks, if_pos hrem, hrem]
    cases answers <;> rfl
  · have hflatten := flatten_chunks lastchar rem
    rw [chunks, if_neg hrem] at hflatten ⊢
    obtain ⟨c, chunk, hchunk⟩ := List.exists_cons_of_ne_nil (chunk_ne_nil lastchar hrem)
    rw [hchunk] at hflatten ⊢
    rw [← hflatten]
    cases answers with
    | nil => rfl
    | cons answer answers =>
      obtain ⟨n, hn⟩ := Nat.exists_eq_succ_of_ne_zero (hpositive answer List.mem_cons_self).ne'
      rw [hn]
      rfl

/-- The calls of `write`, each with the answer `connected()` has for it. -/
structure Call where
  text : Bytes
  connected : Bool := true
  deriving DecidableEq

/-- A client that writes, and the text it was given. -/
structure Output where
  outlet : Outlet
  text : Bytes := []
  deriving DecidableEq

def Output.step (o : Output) (call : Call) : Output :=
  { outlet := o.outlet.write call.connected call.text, text := o.text ++ call.text }

/-- What the socket has is the text, with the CRs. -/
def Output.Translated (o : Output) : Prop := o.outlet.delivered = crlf none o.text

/-- A call that begins with a LF behind a CR, or that the socket takes in part. -/
def Spoils (o : Output) (call : Call) : Prop :=
  (call.text.head? = some 0x0a ∧ o.text.getLast? = some 0x0d) ∨ ¬Whole o.outlet.answers (chunks 0 call.text)

instance (o : Output) (call : Call) : Decidable (Spoils o call) := inferInstanceAs (Decidable (_ ∨ _))

def Accepting (o : Output) : Prop := ∀ answer ∈ o.outlet.answers, 0 < answer

theorem Accepting.step {o : Output} (h : Accepting o) (call : Call) : Accepting (o.step call) := by
  unfold Accepting Output.step Outlet.write
  rw [writeLoop_eq call.connected o.outlet 0 call.text h]
  exact fun answer hanswer => h answer (List.mem_of_mem_drop hanswer)

/-- Only a CR makes a difference, and only to a LF. -/
theorem crlf_previous {previous : Option UInt8} {text : Bytes} (h : text.head? ≠ some 0x0a ∨ previous ≠ some 0x0d) :
    crlf previous text = crlf (some 0) text := by
  cases text with
  | nil => rfl
  | cons c text =>
    rcases h with hhead | hprevious
    · have hc : c ≠ 0x0a := by simpa using hhead
      simp [crlf, hc]
    · simp [crlf, hprevious]

theorem translated_step_iff {o : Output} (haccepting : Accepting o) (htranslated : o.Translated) (call : Call) :
    (o.step call).Translated ↔ ¬Spoils o call := by
  have hor : o.text.getLast?.or none = o.text.getLast? := Option.or_none
  have hstep : (o.step call).Translated ↔
      accepted o.outlet.answers (chunks 0 call.text) = crlf o.text.getLast? call.text := by
    unfold Output.Translated Output.step Outlet.write
    rw [writeLoop_eq call.connected o.outlet 0 call.text haccepting, crlf_append, hor, htranslated]
    exact List.append_right_inj (crlf none o.text)
  rw [hstep]
  by_cases hsplit : call.text.head? = some 0x0a ∧ o.text.getLast? = some 0x0d
  · refine iff_of_false (fun heq => ?_) (not_not_intro (.inl hsplit))
    have hhead := head_accepted o.outlet.answers haccepting 0 call.text
    rw [heq, hsplit.2] at hhead
    obtain ⟨text, htext⟩ : ∃ text, call.text = 0x0a :: text := by
      cases hcall : call.text with
      | nil => simp [hcall] at hsplit
      | cons c text => exact ⟨text, by simpa [hcall] using hsplit.1⟩
    rw [htext] at hhead
    exact absurd hhead (by simp [crlf])
  · have hsame : crlf o.text.getLast? call.text = crlf (some 0) call.text := crlf_previous (not_and_or.mp hsplit)
    rw [hsame, ← flatten_chunks, accepted_eq_iff]
    exact ⟨fun hwhole hspoils => hspoils.elim hsplit fun hnot => hnot hwhole,
      fun hnot => by_contra fun hwhole => hnot (.inr hwhole)⟩

/-- The socket has the text after every call exactly in the runs in which no call begins
with a LF behind the CR of another and the socket takes every chunk whole: the character
before is forgotten between the calls, and what the socket leaves of a chunk is lost. The
chunks stay within the buffer in every run. -/
theorem write_translates_iff (answers : List Nat) (hpositive : ∀ answer ∈ answers, 0 < answer) (calls : List Call) :
    (Transition.Always Output.step Output.Translated { outlet := { answers } } calls ↔
      Transition.Throughout Output.step (fun o call => ¬Spoils o call) { outlet := { answers } } calls) ∧
    ∀ call ∈ calls, ∀ chunk ∈ chunks 0 call.text, chunk.length ≤ bufsize := by
  have hexact : ∀ (o : Output) (call : Call), Accepting o → True → o.Translated →
      ((o.step call).Translated ↔ ¬Spoils o call) :=
    fun _ call haccepting _ htranslated => translated_step_iff haccepting htranslated call
  have hinv : ∀ (o : Output) (call : Call), Accepting o → True → o.Translated → Accepting (o.step call) :=
    fun _ call haccepting _ _ => haccepting.step call
  have hstart : Output.Translated { outlet := { answers } } := rfl
  refine ⟨?_, fun call _ => length_chunk_le 0 call.text⟩
  exact Transition.always_iff_throughout_not hinv hexact hpositive hstart
    (Transition.throughout_of_forall (fun _ _ => trivial) _ calls)

/-- A socket that takes all it is offered. -/
theorem write_unlimited (connected : Bool) {o : Outlet} (hanswers : o.answers = []) (text : Bytes) :
    o.write connected text = { o with delivered := o.delivered ++ crlf (some 0) text } := by
  have hpositive : ∀ answer ∈ o.answers, 0 < answer := by simp [hanswers]
  rw [Outlet.write, writeLoop_eq connected o 0 text hpositive, ← flatten_chunks]
  simp [hanswers, accepted]

theorem chunks_ok : chunks 0 (bytes "ok\n") = [bytes "ok\r\n"] := by
  rw [chunks, if_neg (by decide), chunks, if_pos (by decide)]
  decide

/-- A line in one call, and a socket with room for it. -/
theorem write_translates_line :
    Transition.Always Output.step Output.Translated { outlet := { answers := [5] } } [{ text := bytes "ok\n" }] := by
  refine (write_translates_iff [5] (by decide) [{ text := bytes "ok\n" }]).1.mpr ⟨?_, trivial⟩
  change ¬((bytes "ok\n").head? = some 0x0a ∧ ([] : Bytes).getLast? = some 0x0d ∨ ¬Whole [5] (chunks 0 (bytes "ok\n")))
  rw [chunks_ok]
  decide

/-- A line whose CR and LF come in two calls gets a second CR, and a socket with room
for two bytes leaves a line without its end. -/
theorem write_spoils :
    (Transition.run Output.step { outlet := { answers := [] } }
        [{ text := bytes "ok\r" }, { text := bytes "\n" }]).outlet.delivered = bytes "ok\r\r\n" ∧
      crlf none (bytes "ok\r\n") = bytes "ok\r\n" ∧
      (Transition.run Output.step { outlet := { answers := [2] } } [{ text := bytes "ok\n" }]).outlet.delivered =
        bytes "ok" ∧
      ¬Output.Translated (Transition.run Output.step { outlet := { answers := [] } }
        [{ text := bytes "ok\r" }, { text := bytes "\n" }]) := by
  have hsplit : (Transition.run Output.step { outlet := { answers := [] } }
      [{ text := bytes "ok\r" }, { text := bytes "\n" }]).outlet.delivered = bytes "ok\r\r\n" := by
    simp only [Transition.run_cons, Transition.run_nil, Output.step, write_unlimited]
    decide
  refine ⟨hsplit, by decide, ?_, fun htranslated => ?_⟩
  · simp only [Transition.run_cons, Transition.run_nil, Output.step, Outlet.write]
    rw [writeLoop_eq true { answers := [2] } 0 (bytes "ok\n") (by decide), chunks_ok]
    decide
  · unfold Output.Translated at htranslated
    rw [hsplit] at htranslated
    exact absurd htranslated (by decide)

end DuneWeaver.Telnet
