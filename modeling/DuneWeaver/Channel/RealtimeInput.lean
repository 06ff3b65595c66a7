import DuneWeaver.Channel.LineAssembly

namespace DuneWeaver.Channel

/-- What a realtime input makes the machine do in a state. -/
def action (state : State) : RtInput → Option RtAction
  | .command code => (Cmd.ofCode code).bind (execute_realtime_command state)
  | _ => none

/-- What the decoder of a channel makes of a byte that the channel receives. -/
def hear (u : UTF8) (byte : UInt8) : UTF8 × Option RtInput :=
  if is_realtime_command byte then
    ((handleRealtimeCharacter { utf8 := u } byte).1.utf8, (handleRealtimeCharacter { utf8 := u } byte).2)
  else (u, none)

/-- What it makes of a byte stream. -/
def hears (u : UTF8) : List UInt8 → UTF8 × List RtInput
  | [] => (u, [])
  | byte :: bytes =>
    ((hears (hear u byte).1 bytes).1, (hear u byte).2.toList ++ (hears (hear u byte).1 bytes).2)

/-- The bytes a channel takes: those that are pushed, and those a call of
`pollLine` reads. -/
def takes (c : Channel) : Input → List UInt8
  | .push byte => [byte]
  | .arrive _ => []
  | .poll accepts => c.rx.take (c.rx.length - (c.pollLine accepts).channel.rx.length)

/-- What it hears among them. -/
def realtime (c : Channel) : Input → List RtInput
  | .push byte => (c.push byte).2.toList
  | .arrive _ => []
  | .poll accepts => (c.pollLine accepts).realtime

section Hearing

variable {c : Channel} {u : UTF8}

@[simp] theorem action_code (state : State) (cmd : Cmd) :
    action state (.command cmd.code) = execute_realtime_command state cmd := by
  simp [action]

/-- The decoder is all that counts for what a channel hears. -/
theorem handleRealtimeCharacter_hear (byte : UInt8) (hrealtime : is_realtime_command byte = true) :
    hear c.utf8 byte = ((c.handleRealtimeCharacter byte).1.utf8, (c.handleRealtimeCharacter byte).2) := by
  unfold hear
  rw [if_pos hrealtime]
  unfold handleRealtimeCharacter
  split_ifs
  · rfl
  · dsimp only
    split
    · rfl
    · rfl
    · unfold realtimeInput
      split_ifs <;> rfl

theorem hear_text (byte : UInt8) (htext : is_realtime_command byte = false) : hear u byte = (u, none) := by
  unfold hear
  rw [htext]
  rfl

/-- The decoder hears exactly the bytes that are taken. -/
def Hears (c : Channel) (rx : List UInt8) (polled : Polled) : Prop :=
  ∃ taken, rx = taken ++ polled.channel.rx ∧ hears c.utf8 taken = (polled.channel.utf8, polled.realtime)

private theorem hears_cons {c' : Channel} {byte : UInt8} {rx : List UInt8} {input : Option RtInput}
    {polled : Polled} (hear_byte : hear c.utf8 byte = (c'.utf8, input)) (hrest : Hears c' rx polled) :
    Hears c (byte :: rx) { polled with realtime := input.toList ++ polled.realtime } := by
  obtain ⟨taken, hrx, hheard⟩ := hrest
  refine ⟨byte :: taken, by rw [hrx]; rfl, ?_⟩
  rw [hears, hear_byte, hheard]

private theorem hears_text {c' : Channel} {byte : UInt8} {rx : List UInt8} {polled : Polled}
    (htext : is_realtime_command byte = false) (hutf8 : c'.utf8 = c.utf8) (hrest : Hears c' rx polled) :
    Hears c (byte :: rx) polled := by
  have hear_byte : hear c.utf8 byte = (c'.utf8, none) := by rw [hear_text byte htext, hutf8]
  have h := hears_cons hear_byte hrest
  simpa using h

theorem stash_hears (rx : List UInt8) : c.Hears rx (c.stash rx) := by
  induction rx generalizing c with
  | nil => exact ⟨[], rfl, rfl⟩
  | cons byte rx ih =>
    rw [stash]
    dsimp only
    split_ifs with hrealtime
    · exact hears_cons (handleRealtimeCharacter_hear (c := { c with active := true }) byte hrealtime) ih
    · refine hears_text (by simpa using hrealtime) ?_ ih
      unfold enqueue
      split_ifs <;> rfl

theorem collect_hears (rx : List UInt8) : c.Hears rx (c.collect rx) := by
  induction rx generalizing c with
  | nil => exact ⟨[], rfl, rfl⟩
  | cons byte rx ih =>
    rw [collect]
    dsimp only
    split_ifs with hrealtime
    · exact hears_cons (handleRealtimeCharacter_hear (c := { c with active := true }) byte hrealtime) ih
    · have htext : is_realtime_command byte = false := by simpa using hrealtime
      rw [lineComplete_eq]
      split
      · next c' line hcomplete =>
        obtain ⟨rfl, -⟩ := Prod.mk.inj hcomplete
        refine ⟨[byte], rfl, ?_⟩
        rw [hears, hear_text byte htext]
        rfl
      · next c' hcomplete =>
        obtain ⟨rfl, -⟩ := Prod.mk.inj hcomplete
        exact hears_text htext rfl ih

theorem drain_hears (queue : List UInt8) : c.Hears c.rx (c.drain queue) := by
  induction queue generalizing c with
  | nil => exact collect_hears (c := { c with queue := [] }) c.rx
  | cons byte queue ih =>
    rw [drain, lineComplete_eq]
    split
    · next c' line hcomplete =>
      obtain ⟨rfl, -⟩ := Prod.mk.inj hcomplete
      exact ⟨[], rfl, rfl⟩
    · next c' hcomplete =>
      obtain ⟨rfl, -⟩ := Prod.mk.inj hcomplete
      exact ih (c := c.withPartial _)

theorem pollLine_hears (accepts : Bool) : c.Hears c.rx (c.pollLine accepts) := by
  unfold pollLine
  split_ifs
  · exact ⟨[], rfl, rfl⟩
  · exact drain_hears c.queue
  · exact stash_hears c.rx

theorem step_hears (input : Input) :
    hears c.utf8 (c.takes input) = ((c.step input).utf8, c.realtime input) := by
  cases input with
  | push byte =>
    simp only [takes, hears, step, realtime, push]
    split_ifs with hrealtime
    · rw [handleRealtimeCharacter_hear byte hrealtime]
      simp
    · rw [hear_text byte (by simpa using hrealtime)]
      unfold enqueue
      split_ifs <;> rfl
  | arrive byte => rfl
  | poll accepts =>
    obtain ⟨taken, hrx, hheard⟩ := pollLine_hears (c := c) accepts
    have htaken : c.takes (.poll accepts) = taken := by
      simp only [takes]
      generalize c.pollLine accepts = polled at hrx ⊢
      rw [hrx]
      simp
    rw [htaken, hheard]
    rfl

theorem hears_append (first second : List UInt8) :
    hears u (first ++ second) =
      ((hears (hears u first).1 second).1, (hears u first).2 ++ (hears (hears u first).1 second).2) := by
  induction first generalizing u with
  | nil => rfl
  | cons byte first ih => simp only [List.cons_append, hears, ih, List.append_assoc]

theorem run_hears (c : Channel) (inputs : List Input) :
    hears c.utf8 (Transition.trace step takes c inputs) =
      ((Transition.run step c inputs).utf8, Transition.trace step realtime c inputs) := by
  induction inputs generalizing c with
  | nil => rfl
  | cons input inputs ih =>
    rw [Transition.trace, hears_append, step_hears, ih]
    rfl

end Hearing

/-- The bytes trigger the command: it is executed once, and nothing else is. -/
def Triggers (u : UTF8) (bytes : List UInt8) (cmd : Cmd) : Prop := (hears u bytes).2 = [.command cmd.code]

/-- No realtime command of the stream is lost: every ASCII realtime character
triggers its command, and so does every encoding of an extended one. -/
structure NothingLost (stream : List UInt8) : Prop where
  ascii : ∀ before (cmd : Cmd) after, cmd.ascii = true → stream = before ++ cmd.code :: after →
    Triggers (hears {} before).1 [cmd.code] cmd
  extended : ∀ before (cmd : Cmd) after, cmd.ascii = false → stream = before ++ 0xc2 :: cmd.code :: after →
    Triggers (hears {} before).1 [0xc2, cmd.code] cmd

/-- Every ASCII realtime character of the stream comes while the decoder is not in
the midst of a sequence. -/
def AsciiOutsideSequences (stream : List UInt8) : Prop :=
  ∀ before (cmd : Cmd) after, cmd.ascii = true → stream = before ++ cmd.code :: after → (hears {} before).1.state = 0

section Triggering

variable {u : UTF8} {cmd : Cmd}

/-- Neither glitch bytes nor text are among the codes. -/
theorem code_realtime (cmd : Cmd) :
    is_realtime_command cmd.code = true ∧ cmd.code &&& 0xf8 ≠ 0xf8 ∧ cmd.code < 0xbf := by
  cases cmd <;> decide

theorem code_input (cmd : Cmd) (c : Channel) :
    (c.realtimeInput cmd.code.toNat).2 = some (.command cmd.code) := by
  cases cmd <;> rfl

theorem ascii_code (hascii : cmd.ascii = true) : cmd.code &&& 0xc0 ≠ 0x80 := by
  revert hascii
  cases cmd <;> decide

/-- What is heard of a code that the decoder passes through. -/
theorem hear_value {u' : UTF8} (hdecode : u.decode cmd.code = (u', .value cmd.code.toNat)) :
    (hear u cmd.code).2 = some (.command cmd.code) := by
  obtain ⟨hrealtime, hvalid, _⟩ := code_realtime cmd
  unfold hear handleRealtimeCharacter
  rw [if_pos hrealtime, if_neg hvalid, hdecode]
  exact code_input cmd _

theorem hear_error {u' : UTF8} {byte : UInt8} (hrealtime : is_realtime_command byte = true)
    (hvalid : byte &&& 0xf8 ≠ 0xf8) (hdecode : u.decode byte = (u', .error)) : hear u byte = (u', none) := by
  unfold hear handleRealtimeCharacter
  rw [if_pos hrealtime, if_neg hvalid, hdecode]

theorem triggers_ascii_iff (hascii : cmd.ascii = true) : Triggers u [cmd.code] cmd ↔ u.state = 0 := by
  obtain ⟨hrealtime, hvalid, hlt⟩ := code_realtime cmd
  constructor
  · intro htriggers
    by_contra hstate
    have hlost := hear_error hrealtime hvalid (UTF8.decode_breaks hstate (ascii_code hascii))
    simp [Triggers, hears, hlost] at htriggers
  · intro hstate
    have hheard := hear_value (UTF8.decode_extended hstate hlt)
    simp [Triggers, hears, hheard]

/-- From every state of the decoder: in the midst of a sequence the first byte is
swallowed and the second one passes through as it is. -/
theorem triggers_extended (hextended : cmd.ascii = false) : Triggers u [0xc2, cmd.code] cmd := by
  obtain ⟨hrealtime, hvalid, hlt⟩ := code_realtime cmd
  by_cases hstate : u.state = 0
  · have hlead : hear u 0xc2 = ({ state := 1, num := 2 }, none) := by
      have hdecode : u.decode 0xc2 = ({ state := 1, num := 2 }, .pending) := by
        unfold UTF8.decode
        rw [if_neg (by simpa using hstate)]
        rfl
      unfold hear handleRealtimeCharacter
      rw [hdecode]
      rfl
    have hdecode : ({ state := 1, num := 2 } : UTF8).decode cmd.code =
        ({ state := 0, num := cmd.code.toNat }, .value cmd.code.toNat) := by
      cases cmd <;> first | rfl | simp [Cmd.ascii, Cmd.code] at hextended
    simp [Triggers, hears, hlead, hear_value hdecode]
  · have hlead : hear u 0xc2 = ({ u with state := 0 }, none) :=
      hear_error (by decide) (by decide) (UTF8.decode_breaks hstate (by decide))
    have hheard := hear_value (u := { u with state := 0 }) (UTF8.decode_extended rfl hlt)
    simp [Triggers, hears, hlead, hheard]

end Triggering

/-- Whatever bytes a channel takes, by whatever calls: no realtime command among
them is lost exactly if every ASCII realtime character comes outside of the
multi-byte sequences. -/
theorem realtime_commands_are_heard (inputs : List Input) :
    (hears {} (Transition.trace step takes {} inputs)).2 = Transition.trace step realtime {} inputs ∧
      (NothingLost (Transition.trace step takes {} inputs) ↔
        AsciiOutsideSequences (Transition.trace step takes {} inputs)) := by
  refine ⟨by rw [run_hears {} inputs], ?_⟩
  constructor
  · intro hlossless before cmd after hascii hstream
    exact (triggers_ascii_iff hascii).mp (hlossless.ascii before cmd after hascii hstream)
  · intro houtside
    refine ⟨?_, ?_⟩
    · intro before cmd after hascii hstream
      exact (triggers_ascii_iff hascii).mpr (houtside before cmd after hascii hstream)
    · intro before cmd after hextended _
      exact triggers_extended hextended

/-- A stray lead byte, some text, and a feed hold. -/
theorem feed_hold_after_lead_byte_is_lost :
    ¬ ∀ inputs : List Input, NothingLost (Transition.trace step takes {} inputs) := by
  intro hall
  have hlost := (hall [.push 0xc3, .push 0x47, .push 0x0a, .push 0x21]).ascii [0xc3, 0x47, 0x0a] .FeedHold []
    rfl rfl
  simp [Triggers, show (hears (hears {} [0xc3, 0x47, 0x0a]).1 [Cmd.FeedHold.code]).2 = [] by decide] at hlost

end DuneWeaver.Channel
