import DuneWeaver.Channel.Channel
import DuneWeaver.Lines.Assembly
import DuneWeaver.Transition.Run

namespace DuneWeaver.Channel

/-- How lines are typed into a channel: one byte of the line buffer is for the NUL. -/
def typing : Lines.Conventions UInt8 where
  cr := 0x0d
  lf := 0x0a
  bs := 0x08
  max := maxLine - 1
  cr_ne_lf := by decide
  bs_ne_cr := by decide
  bs_ne_lf := by decide

/-- What happens to a channel: a byte is pushed, or arrives where `read()` finds
it, or the channel is polled. -/
inductive Input where
  | push (byte : UInt8)
  | arrive (byte : UInt8)
  | poll (accepts : Bool)
  deriving DecidableEq

def step (c : Channel) : Input → Channel
  | .push byte => (c.push byte).1
  | .arrive byte => { c with rx := c.rx ++ [byte] }
  | .poll accepts => (c.pollLine accepts).channel

/-- The lines that are delivered. -/
def delivered (c : Channel) : Input → List Bytes
  | .poll accepts => (c.pollLine accepts).line.toList
  | _ => []

/-- The text in the bytes: all but the realtime characters. -/
def textOf (stream : List UInt8) : List UInt8 := stream.filter fun byte => !is_realtime_command byte

/-- The byte stream a channel is given. -/
def stream (inputs : List Input) : List UInt8 :=
  inputs.flatMap fun
    | .push byte => [byte]
    | .arrive byte => [byte]
    | .poll _ => []

/-- The receive queue is below its limit: no byte of the text is dropped. -/
def HasRoom (c : Channel) : Input → Prop
  | .push byte => is_realtime_command byte = false → c.queue.length < maxRxQueue
  | .arrive _ => True
  | .poll accepts => accepts = false → c.queue.length + (textOf c.rx).length ≤ maxRxQueue

/-- A byte is pushed only while none waits to be read. -/
def InOrder (c : Channel) : Input → Prop
  | .push _ => c.rx = []
  | _ => True

/-- The line in the making. -/
def partialLine (c : Channel) : Lines.Partial UInt8 where
  line := c.line
  afterCR := c.lastWasCR

def withPartial (c : Channel) (p : Lines.Partial UInt8) : Channel :=
  { c with line := p.line, lastWasCR := p.afterCR }

/-- The text a channel holds. -/
def waiting (c : Channel) : List UInt8 := c.queue ++ textOf c.rx

section Assembly

variable (c : Channel)

@[simp] theorem partialLine_withPartial (p : Lines.Partial UInt8) : (c.withPartial p).partialLine = p := rfl

@[simp] theorem withPartial_queue (p : Lines.Partial UInt8) : (c.withPartial p).queue = c.queue := rfl

@[simp] theorem withPartial_rx (p : Lines.Partial UInt8) : (c.withPartial p).rx = c.rx := rfl

@[simp] theorem withPartial_paused (p : Lines.Partial UInt8) : (c.withPartial p).paused = c.paused := rfl

theorem textOf_cons (byte : UInt8) (bytes : List UInt8) :
    textOf (byte :: bytes) = if is_realtime_command byte then textOf bytes else byte :: textOf bytes := by
  unfold textOf
  rw [List.filter_cons]
  cases is_realtime_command byte <;> rfl

theorem lineComplete_eq (ch : UInt8) :
    c.lineComplete ch = (c.withPartial (c.partialLine.take typing ch).1,
      (c.partialLine.take typing ch).2.map c_str) := by
  unfold lineComplete Lines.Partial.take withPartial partialLine typing
  split_ifs with hlf hcr hcr hbs hlen <;> simp_all

/-- Handling a realtime character leaves the text alone. -/
theorem handleRealtimeCharacter_text (ch : UInt8) :
    (c.handleRealtimeCharacter ch).1.partialLine = c.partialLine ∧
      (c.handleRealtimeCharacter ch).1.queue = c.queue ∧
      (c.handleRealtimeCharacter ch).1.rx = c.rx ∧
      (c.handleRealtimeCharacter ch).1.paused = c.paused := by
  unfold handleRealtimeCharacter
  split_ifs
  · exact ⟨rfl, rfl, rfl, rfl⟩
  · split
    · exact ⟨rfl, rfl, rfl, rfl⟩
    · exact ⟨rfl, rfl, rfl, rfl⟩
    · unfold realtimeInput
      split_ifs <;> exact ⟨rfl, rfl, rfl, rfl⟩

/-- A call of `pollLine(line)` on `text` takes up to the first line that is complete
and leaves the rest waiting. -/
def TakesLine (c : Channel) (text : List UInt8) (polled : Polled) : Prop :=
  ∃ p line rest, c.partialLine.next typing text = (p, line, rest) ∧ polled.line = line.map c_str ∧
    polled.channel.partialLine = p ∧ polled.channel.waiting = rest ∧ polled.channel.paused = c.paused

variable {c}

theorem collect_takesLine (hqueue : c.queue = []) (rx : List UInt8) :
    c.TakesLine (textOf rx) (c.collect rx) := by
  induction rx generalizing c with
  | nil => exact ⟨c.partialLine, none, [], rfl, rfl, rfl, by simp [waiting, hqueue, collect, textOf], rfl⟩
  | cons ch rx ih =>
    rw [textOf_cons, collect]
    dsimp only
    split_ifs with hrealtime
    · obtain ⟨hview, hq, _, hpaused⟩ := handleRealtimeCharacter_text { c with active := true } ch
      obtain ⟨p, line, rest, hnext, hline, hp, hrest, hkept⟩ :=
        ih (c := ({ c with active := true }.handleRealtimeCharacter ch).1) (by rw [hq]; exact hqueue)
      rw [hview] at hnext
      exact ⟨p, line, rest, hnext, hline, hp, hrest, hkept.trans hpaused⟩
    · rw [lineComplete_eq]
      rcases htake : c.partialLine.take typing ch with ⟨p, _ | line⟩
      · have hsame : ({ c with active := true } : Channel).partialLine.take typing ch = (p, none) := htake
        rw [hsame]
        obtain ⟨p', line, rest, hnext, hline, hp, hrest, hkept⟩ :=
          ih (c := ({ c with active := true } : Channel).withPartial p) hqueue
        refine ⟨p', line, rest, ?_, hline, hp, hrest, hkept⟩
        rw [Lines.Partial.next, htake]
        exact hnext
      · have hsame : ({ c with active := true } : Channel).partialLine.take typing ch = (p, some line) := htake
        rw [hsame]
        refine ⟨p, some line, textOf rx, ?_, rfl, rfl, ?_, rfl⟩
        · rw [Lines.Partial.next, htake]
        · simp [waiting, hqueue]

theorem drain_takesLine (queue : List UInt8) :
    c.TakesLine (queue ++ textOf c.rx) (c.drain queue) := by
  induction queue generalizing c with
  | nil => exact collect_takesLine (c := { c with queue := [] }) rfl c.rx
  | cons ch queue ih =>
    rw [List.cons_append, drain, lineComplete_eq]
    rcases htake : c.partialLine.take typing ch with ⟨p, _ | line⟩
    · obtain ⟨p', line, rest, hnext, hline, hp, hrest, hkept⟩ := ih (c := c.withPartial p)
      refine ⟨p', line, rest, ?_, hline, hp, hrest, hkept⟩
      rw [Lines.Partial.next, htake]
      exact hnext
    · refine ⟨p, some line, queue ++ textOf c.rx, ?_, rfl, rfl, rfl, rfl⟩
      rw [Lines.Partial.next, htake]

/-- `pollLine(nullptr)` moves the text it reads into the queue. -/
theorem stash_keeps (rx : List UInt8) (hroom : c.queue.length + (textOf rx).length ≤ maxRxQueue) :
    (c.stash rx).line = none ∧ (c.stash rx).channel.partialLine = c.partialLine ∧
      (c.stash rx).channel.waiting = c.queue ++ textOf rx ∧ (c.stash rx).channel.paused = c.paused := by
  induction rx generalizing c with
  | nil => exact ⟨rfl, rfl, by simp [waiting, stash, textOf], rfl⟩
  | cons ch rx ih =>
    rw [textOf_cons] at hroom ⊢
    rw [stash]
    dsimp only
    split_ifs with hrealtime
    · rw [if_pos hrealtime] at hroom
      obtain ⟨hview, hq, _, hpaused⟩ := handleRealtimeCharacter_text { c with active := true } ch
      obtain ⟨hline, hp, hwaiting, hkept⟩ :=
        ih (c := ({ c with active := true }.handleRealtimeCharacter ch).1) (by rw [hq]; exact hroom)
      rw [hq] at hwaiting
      exact ⟨hline, hp.trans hview, hwaiting, hkept.trans hpaused⟩
    · rw [if_neg hrealtime, List.length_cons] at hroom
      have hfits : c.queue.length < maxRxQueue := by omega
      have hput : ({ c with active := true } : Channel).enqueue ch =
          { c with active := true, queue := c.queue ++ [ch] } := by
        unfold enqueue
        exact if_pos hfits
      rw [hput]
      obtain ⟨hline, hp, hwaiting, hkept⟩ :=
        ih (c := { c with active := true, queue := c.queue ++ [ch] })
          (by simp only [List.length_append, List.length_singleton]; omega)
      refine ⟨hline, hp, ?_, hkept⟩
      rw [hwaiting, List.append_assoc]
      rfl

end Assembly

/-- What a channel has delivered of a text and what it will still make of the text
it holds are the lines of the text. -/
structure Delivers (c : Channel) (text : List UInt8) (lines : List Bytes) : Prop where
  state : (c.partialLine.feed typing c.waiting).1 = (Lines.Partial.feed typing {} text).1
  lines : lines ++ (c.partialLine.feed typing c.waiting).2.map c_str =
    (Lines.Partial.feed typing {} text).2.map c_str
  polled : c.paused = false

section Delivering

variable {c : Channel} {text : List UInt8} {lines : List Bytes}

theorem delivers_nil : Delivers {} [] [] := ⟨rfl, rfl, rfl⟩

/-- More text comes in behind the text the channel holds. -/
theorem Delivers.receive (h : Delivers c text lines) {c' : Channel} (bytes : List UInt8)
    (hview : c'.partialLine = c.partialLine) (hwaiting : c'.waiting = c.waiting ++ bytes)
    (hpaused : c'.paused = c.paused) : Delivers c' (text ++ bytes) lines := by
  refine ⟨?_, ?_, hpaused.trans h.polled⟩
  · rw [hview, hwaiting, Lines.Partial.feed_append, Lines.Partial.feed_append, h.state]
  · rw [hview, hwaiting, Lines.Partial.feed_append, Lines.Partial.feed_append, h.state,
      List.map_append, List.map_append, ← h.lines, List.append_assoc]

/-- The lines a call of `pollLine(line)` takes are the first of those to come. -/
theorem Delivers.take (h : Delivers c text lines) {polled : Polled}
    (htakes : c.TakesLine c.waiting polled) :
    Delivers polled.channel text (lines ++ polled.line.toList) ∧
      polled.line.toList ++ (polled.channel.partialLine.feed typing polled.channel.waiting).2.map c_str =
        (c.partialLine.feed typing c.waiting).2.map c_str ∧
      (polled.line = none → (c.partialLine.feed typing c.waiting).2 = []) := by
  obtain ⟨p, line, rest, hnext, hline, hp, hrest, hkept⟩ := htakes
  rcases Lines.Partial.next_spec typing c.partialLine c.waiting with
    ⟨p', line', rest', hnext', hfeed⟩ | ⟨p', hnext', hfeed⟩
  · rw [hnext] at hnext'
    obtain ⟨rfl, rfl, rfl⟩ : p = p' ∧ line = some line' ∧ rest = rest' := by simpa using hnext'
    refine ⟨⟨?_, ?_, hkept.trans h.polled⟩, ?_, ?_⟩
    · rw [hp, hrest, ← h.state, hfeed]
    · rw [hp, hrest, ← h.lines, hfeed, hline]
      simp
    · rw [hp, hrest, hfeed, hline]
      rfl
    · simp [hline]
  · rw [hnext] at hnext'
    obtain ⟨rfl, rfl, rfl⟩ : p = p' ∧ line = none ∧ rest = [] := by simpa using hnext'
    refine ⟨⟨?_, ?_, hkept.trans h.polled⟩, ?_, fun _ => by rw [hfeed]⟩
    · rw [hp, hrest, ← h.state, hfeed]
      rfl
    · rw [hp, hrest, ← h.lines, hfeed, hline]
      simp [Lines.Partial.feed]
    · rw [hp, hrest, hfeed, hline]
      rfl

theorem Delivers.step (h : Delivers c text lines) {input : Input} (hroom : c.HasRoom input)
    (horder : c.InOrder input) :
    Delivers (c.step input) (text ++ textOf (stream [input])) (lines ++ c.delivered input) := by
  cases input with
  | push byte =>
    simp only [Channel.step, push, delivered, List.append_nil, stream, List.flatMap_cons, List.flatMap_nil]
    rw [textOf_cons]
    cases hrealtime : is_realtime_command byte with
    | true =>
      obtain ⟨hview, hqueue, hrx, hpaused⟩ := handleRealtimeCharacter_text c byte
      refine h.receive _ hview ?_ hpaused
      simp [waiting, hqueue, hrx, textOf]
    | false =>
      have hfits : c.enqueue byte = { c with queue := c.queue ++ [byte] } := if_pos (hroom hrealtime)
      have hrx : c.rx = [] := horder
      rw [if_neg (by simp), if_neg (by simp), hfits]
      refine h.receive _ rfl ?_ rfl
      simp [waiting, hrx, textOf]
  | arrive byte =>
    simp only [Channel.step, delivered, List.append_nil, stream, List.flatMap_cons, List.flatMap_nil]
    refine h.receive _ rfl ?_ rfl
    simp [waiting, textOf]
  | poll accepts =>
    simp only [Channel.step, delivered, pollLine, h.polled, stream, List.flatMap_cons, List.flatMap_nil,
      List.append_nil, Bool.false_eq_true, if_false, textOf, List.filter_nil]
    cases accepts with
    | true => exact (h.take (drain_takesLine c.queue)).1
    | false =>
      obtain ⟨hline, hview, hwaiting, hpaused⟩ := stash_keeps c.rx (hroom rfl)
      have hsame := h.receive [] hview (by rw [hwaiting, List.append_nil]; rfl) hpaused
      simpa [hline] using hsame

theorem Delivers.run (h : Delivers c text lines) {inputs : List Input}
    (hroom : Transition.Throughout Channel.step HasRoom c inputs)
    (horder : Transition.Throughout Channel.step InOrder c inputs) :
    Delivers (Transition.run Channel.step c inputs) (text ++ textOf (stream inputs))
      (lines ++ Transition.trace Channel.step delivered c inputs) := by
  induction inputs generalizing c text lines with
  | nil => simpa [stream, textOf, Transition.trace] using h
  | cons input inputs ih =>
    have hnext := ih (h.step hroom.1 horder.1) hroom.2 horder.2
    have hstream : textOf (stream (input :: inputs)) = textOf (stream [input]) ++ textOf (stream inputs) := by
      simp [stream, textOf]
    rw [hstream, Transition.trace, ← List.append_assoc, ← List.append_assoc]
    exact hnext

/-- Polling often enough brings out all lines that are still to come. -/
theorem Delivers.polls (h : Delivers c text lines) (polls : Nat)
    (hpolls : (c.partialLine.feed typing c.waiting).2.length ≤ polls) :
    Transition.trace Channel.step delivered c (List.replicate polls (.poll true)) =
      (c.partialLine.feed typing c.waiting).2.map c_str := by
  induction polls generalizing c lines with
  | zero =>
    rw [List.eq_nil_of_length_eq_zero (Nat.le_zero.mp hpolls)]
    rfl
  | succ polls ih =>
    have hpoll : c.pollLine true = c.drain c.queue := by simp [pollLine, h.polled]
    obtain ⟨hnext, hline, hnone⟩ := h.take (drain_takesLine c.queue)
    rw [List.replicate_succ, Transition.trace]
    simp only [delivered, Channel.step, hpoll]
    rw [← hline]
    congr 1
    apply ih hnext
    have hlength := congrArg List.length hline
    simp only [List.length_append, List.length_map, Option.length_toList] at hlength
    cases hcase : (c.drain c.queue).line with
    | none =>
      rw [hnone hcase, hcase] at hlength
      simp only [List.length_nil] at hlength
      omega
    | some line =>
      rw [hcase] at hlength
      simp only [Option.isSome_some, if_true] at hlength
      omega

end Delivering

/-- However a channel is polled while its bytes come in, the lines it has
delivered are the first of the lines of the text, in order, and enough further
polls deliver all of them. -/
theorem pollLine_delivers_lines (inputs : List Input)
    (hroom : Transition.Throughout step HasRoom {} inputs)
    (horder : Transition.Throughout step InOrder {} inputs) :
    Transition.trace step delivered {} inputs <+:
        (typing.lines (textOf (stream inputs))).map c_str ∧
      ∀ polls, (typing.lines (textOf (stream inputs))).length ≤ polls →
        Transition.trace step delivered {} (inputs ++ List.replicate polls (.poll true)) =
          (typing.lines (textOf (stream inputs))).map c_str := by
  have hrun := delivers_nil.run hroom horder
  rw [List.nil_append, List.nil_append] at hrun
  have hlines := hrun.lines
  rw [Lines.Partial.feed_lines] at hlines
  refine ⟨⟨_, hlines⟩, ?_⟩
  intro polls hpolls
  rw [Transition.trace_append, hrun.polls polls, hlines]
  have hlength := congrArg List.length hlines
  simp only [List.length_append, List.length_map] at hlength
  omega

/-- A text with a NUL in it: the line is cut off there. -/
theorem nul_cuts_line :
    ¬ ∀ inputs : List Input, Transition.Throughout step HasRoom {} inputs →
      Transition.Throughout step InOrder {} inputs →
        Transition.trace step delivered {} inputs <+: typing.lines (textOf (stream inputs)) := by
  intro hall
  have hline := hall [.push 0x47, .push 0x00, .push 0x30, .push 0x0a, .poll true]
    (by simp [Transition.Throughout, HasRoom]; decide) (by simp [Transition.Throughout, InOrder]; decide)
  revert hline
  decide

/-- A CR LF pair ends one line, and a poll between the two bytes changes nothing. -/
theorem crlf_ends_one_line :
    Transition.trace step delivered {} ([.push 0x47, .push 0x0d, .poll true, .push 0x0a, .poll true] ++
        List.replicate 1 (.poll true)) =
      (typing.lines (textOf (stream [.push 0x47, .push 0x0d, .poll true, .push 0x0a, .poll true]))).map c_str :=
  (pollLine_delivers_lines [.push 0x47, .push 0x0d, .poll true, .push 0x0a, .poll true]
    (by simp [Transition.Throughout, HasRoom]; decide)
    (by simp [Transition.Throughout, InOrder]; decide)).2 1 (by decide)

end DuneWeaver.Channel
