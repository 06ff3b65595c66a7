import DuneWeaver.Bytes
import DuneWeaver.Transition.Run
import Mathlib.Data.List.Induction

namespace DuneWeaver.Telnet

def IAC : UInt8 := 0xFF
def WILL : UInt8 := 0xFB
def DONT : UInt8 := 0xFE
def SB : UInt8 := 0xFA
def SE : UInt8 := 0xF0

/-- `_iac`. -/
inductive Iac where
  | normal
  | command
  | option
  | subnegotiation
  | subnegotiationIac
  deriving DecidableEq

/-- What the calls of `_wifiClient->read()` to come give; nothing when there is no data,
and none once the list is over. -/
abbrev Socket := List (Option UInt8)

/-- The bytes a socket has to come. -/
def arriving (socket : Socket) : Bytes := socket.filterMap id

@[simp] theorem arriving_nil : arriving [] = [] := rfl

@[simp] theorem arriving_none (socket : Socket) : arriving (none :: socket) = arriving socket := rfl

@[simp] theorem arriving_some (b : UInt8) (socket : Socket) : arriving (some b :: socket) = b :: arriving socket := rfl

theorem arriving_append (first second : Socket) : arriving (first ++ second) = arriving first ++ arriving second :=
  List.filterMap_append

/-- `_state` counts the reads that have found no data, and is -1 behind a disconnect. -/
structure TelnetClient where
  state : Int := 0
  iac : Iac := .normal
  deriving DecidableEq

def DISCONNECT_CHECK_COUNTS : Int := 1000

namespace TelnetClient

/-- `connected` is what `_wifiClient->connected()` says. -/
def closeOnDisconnect (c : TelnetClient) (connected : Bool) : TelnetClient :=
  if c.state ≠ -1 ∧ connected = false then { c with state := -1 } else c

/-- A read that finds no data. -/
def noData (c : TelnetClient) (connected : Bool) : TelnetClient :=
  if c.state + 1 ≥ DISCONNECT_CHECK_COUNTS then { c with state := 0 }.closeOnDisconnect connected
  else { c with state := c.state + 1 }

end TelnetClient

/-- The `switch` over `_iac`: its next value, and the byte returned unless the loop
goes on. -/
def filter (iac : Iac) (ret : UInt8) : Iac × Option UInt8 :=
  match iac with
  | .normal => if ret = 0xFF then (.command, none) else (.normal, some ret)
  | .command =>
    if ret = 0xFF then (.normal, some 0xFF)
    else if ret ≥ 0xFB ∧ ret ≤ 0xFE then (.option, none)
    else if ret = 0xFA then (.subnegotiation, none)
    else (.normal, none)
  | .option => (.normal, none)
  | .subnegotiation => if ret = 0xFF then (.subnegotiationIac, none) else (.subnegotiation, none)
  | .subnegotiationIac => if ret = 0xF0 then (.normal, none) else (.subnegotiation, none)

namespace TelnetClient

variable (connected : Bool)

/-- The loop of `read`. -/
def readLoop (c : TelnetClient) : Socket → Option UInt8 × TelnetClient × Socket
  | [] => (none, c.noData connected, [])
  | none :: socket => (none, c.noData connected, socket)
  | some ret :: socket =>
    match filter c.iac ret with
    | (iac, some data) => (some data, { state := 0, iac }, socket)
    | (iac, none) => readLoop { state := 0, iac } socket

def read (c : TelnetClient) (socket : Socket) : Option UInt8 × TelnetClient × Socket :=
  if c.state = -1 then (none, c, socket) else c.readLoop connected socket

end TelnetClient

/-- What reaches a client: a call of `read`, or the check of a `write` that the socket
took nothing of. Each comes with the answer `connected()` has for it. -/
inductive Event where
  | read (connected : Bool)
  | unwritten (connected : Bool)
  deriving DecidableEq

namespace Event

def connected : Event → Bool
  | read connected => connected
  | unwritten connected => connected

def isRead : Event → Bool
  | read _ => true
  | unwritten _ => false

end Event

/-- A client at work: the bytes that `read` has returned so far, and what the socket has
to come. -/
structure Session where
  client : TelnetClient := {}
  socket : Socket
  returned : Bytes := []
  deriving DecidableEq

def Session.step (s : Session) : Event → Session
  | .read connected =>
    let (data, client, socket) := s.client.read connected s.socket
    { client, socket, returned := s.returned ++ data.toList }
  | .unwritten connected => { s with client := s.client.closeOnDisconnect connected }

/-- A piece of a subnegotiation: a byte, or an IAC and what belongs to it. -/
inductive Inner where
  | byte (b : UInt8) (plain : b ≠ IAC)
  | pair (b : UInt8) (open_ : b ≠ SE)

def Inner.text : Inner → Bytes
  | .byte b _ => [b]
  | .pair b _ => [IAC, b]

/-- What a telnet stream is made of. -/
inductive Item where
  | data (b : UInt8) (plain : b ≠ IAC)
  | escaped
  | negotiation (verb option : UInt8) (verbs : WILL ≤ verb ∧ verb ≤ DONT)
  | subnegotiation (body : List Inner)
  | command (b : UInt8) (bare : b ≠ IAC ∧ ¬(WILL ≤ b ∧ b ≤ DONT) ∧ b ≠ SB)

namespace Item

def text : Item → Bytes
  | data b _ => [b]
  | escaped => [IAC, IAC]
  | negotiation verb option _ => [IAC, verb, option]
  | subnegotiation body => [IAC, SB] ++ body.flatMap Inner.text ++ [IAC, SE]
  | command b _ => [IAC, b]

def meaning : Item → Bytes
  | data b _ => [b]
  | escaped => [IAC]
  | _ => []

end Item

/-- The front of an item that is not over yet, with the state the filter waits in. -/
inductive Unfinished : Iac → Bytes → Prop where
  | none : Unfinished .normal []
  | iac : Unfinished .command [IAC]
  | negotiation (verb : UInt8) (verbs : WILL ≤ verb ∧ verb ≤ DONT) : Unfinished .option [IAC, verb]
  | subnegotiation (body : List Inner) : Unfinished .subnegotiation ([IAC, SB] ++ body.flatMap Inner.text)
  | subnegotiationIac (body : List Inner) :
    Unfinished .subnegotiationIac ([IAC, SB] ++ body.flatMap Inner.text ++ [IAC])

/-- The data of a stream: it is cut into items, of which the last may be unfinished. -/
def Denotes (stream data : Bytes) : Prop :=
  ∃ (items : List Item) (tail : Bytes) (iac : Iac), Unfinished iac tail ∧ stream = items.flatMap Item.text ++ tail ∧
    data = items.flatMap Item.meaning

/-- The filter over a stream. -/
def scan (iac : Iac) : Bytes → Iac × Bytes
  | [] => (iac, [])
  | b :: stream => ((scan (filter iac b).1 stream).1, (filter iac b).2.toList ++ (scan (filter iac b).1 stream).2)

theorem scan_append (iac : Iac) (first second : Bytes) :
    scan iac (first ++ second) =
      ((scan (scan iac first).1 second).1, (scan iac first).2 ++ (scan (scan iac first).1 second).2) := by
  induction first generalizing iac with
  | nil => rfl
  | cons b first ih => simp only [List.cons_append, scan, ih, List.append_assoc]

theorem scan_body (body : List Inner) :
    scan .subnegotiation (body.flatMap Inner.text) = (.subnegotiation, []) := by
  induction body with
  | nil => rfl
  | cons inner body ih =>
    rw [List.flatMap_cons, scan_append]
    have hinner : scan .subnegotiation inner.text = (.subnegotiation, []) := by
      cases inner with
      | byte b plain =>
        have hb : b ≠ 0xFF := plain
        simp [Inner.text, scan, filter, hb]
      | pair b open_ =>
        have hb : b ≠ 0xF0 := open_
        simp [Inner.text, scan, filter, IAC, hb]
    rw [hinner]
    simp [ih]

theorem scan_item (item : Item) : scan .normal item.text = (.normal, item.meaning) := by
  cases item with
  | data b plain =>
    have hb : b ≠ 0xFF := plain
    simp [Item.text, Item.meaning, scan, filter, hb]
  | escaped => rfl
  | negotiation verb option verbs =>
    have hverbs : verb ≥ 0xFB ∧ verb ≤ 0xFE := verbs
    have hverb : verb ≠ 0xFF := by
      rintro rfl
      exact absurd hverbs.2 (by decide)
    simp [Item.text, Item.meaning, scan, filter, IAC, hverb, hverbs]
  | subnegotiation body =>
    have hopen : scan .normal [IAC, SB] = (.subnegotiation, []) := by decide
    have hclose : scan .subnegotiation [IAC, SE] = (.normal, []) := by decide
    rw [Item.text, List.append_assoc, scan_append, hopen, scan_append, scan_body, hclose]
    rfl
  | command b bare =>
    obtain ⟨hiac, hverbs, hsb⟩ := bare
    have hb : b ≠ 0xFF := hiac
    have hrange : ¬(b ≥ 0xFB ∧ b ≤ 0xFE) := hverbs
    have hs : b ≠ 0xFA := hsb
    simp [Item.text, Item.meaning, scan, filter, IAC, hb, hrange, hs]

theorem scan_items (items : List Item) :
    scan .normal (items.flatMap Item.text) = (.normal, items.flatMap Item.meaning) := by
  induction items with
  | nil => rfl
  | cons item items ih =>
    rw [List.flatMap_cons, List.flatMap_cons, scan_append, scan_item, ih]

theorem scan_unfinished {iac : Iac} {tail : Bytes} (h : Unfinished iac tail) : scan .normal tail = (iac, []) := by
  have hopen : scan .normal [IAC, SB] = (.subnegotiation, []) := by decide
  cases h with
  | none => rfl
  | iac => decide
  | negotiation verb verbs =>
    have hverbs : verb ≥ 0xFB ∧ verb ≤ 0xFE := verbs
    have hverb : verb ≠ 0xFF := by
      rintro rfl
      exact absurd hverbs.2 (by decide)
    simp [scan, filter, IAC, hverb, hverbs]
  | subnegotiation body =>
    rw [scan_append, hopen, scan_body]
    rfl
  | subnegotiationIac body =>
    rw [List.append_assoc, scan_append, hopen, scan_append, scan_body]
    rfl

/-- A byte more: it ends the item that was not over, or goes on with it. -/
theorem Unfinished.next {iac : Iac} {tail : Bytes} (h : Unfinished iac tail) (b : UInt8) :
    ∃ (items : List Item) (tail' : Bytes), Unfinished (filter iac b).1 tail' ∧
    tail ++ [b] = items.flatMap Item.text ++ tail' ∧
      (filter iac b).2.toList = items.flatMap Item.meaning := by
  cases h with
  | none =>
    by_cases hb : b = 0xFF
    · exact ⟨[], [IAC], by simpa [filter, hb] using Unfinished.iac, by simp [hb, IAC], by simp [filter, hb]⟩
    · exact ⟨[.data b hb], [], by simpa [filter, hb] using Unfinished.none, by simp [Item.text],
        by simp [filter, hb, Item.meaning]⟩
  | iac =>
    by_cases hb : b = 0xFF
    · exact ⟨[.escaped], [], by simpa [filter, hb] using Unfinished.none, by simp [Item.text, IAC, hb],
        by simp [filter, hb, Item.meaning, IAC]⟩
    · by_cases hverbs : b ≥ 0xFB ∧ b ≤ 0xFE
      · exact ⟨[], [IAC, b], by simpa [filter, hb, hverbs] using Unfinished.negotiation b hverbs, by simp,
          by simp [filter, hb, hverbs]⟩
      · by_cases hs : b = 0xFA
        · exact ⟨[], [IAC, SB], by simpa [filter, hs] using Unfinished.subnegotiation [], by simp [hs, SB],
            by simp [filter, hs]⟩
        · exact ⟨[.command b ⟨hb, hverbs, hs⟩], [], by simpa [filter, hb, hverbs, hs] using Unfinished.none,
            by simp [Item.text], by simp [filter, hb, hverbs, hs, Item.meaning]⟩
  | negotiation verb verbs =>
    exact ⟨[.negotiation verb b verbs], [], Unfinished.none, by simp [Item.text], by simp [filter, Item.meaning]⟩
  | subnegotiation body =>
    by_cases hb : b = 0xFF
    · exact ⟨[], [IAC, SB] ++ body.flatMap Inner.text ++ [IAC],
        by simpa [filter, hb] using Unfinished.subnegotiationIac body, by simp [hb, IAC], by simp [filter, hb]⟩
    · refine ⟨[], [IAC, SB] ++ (body ++ [Inner.byte b hb]).flatMap Inner.text, ?_, ?_, ?_⟩
      · rw [filter, if_neg hb]
        exact Unfinished.subnegotiation _
      · simp [Inner.text]
      · simp [filter, hb]
  | subnegotiationIac body =>
    by_cases hb : b = 0xF0
    · exact ⟨[.subnegotiation body], [], by simpa [filter, hb] using Unfinished.none,
        by simp [Item.text, hb, SE], by simp [filter, hb, Item.meaning]⟩
    · refine ⟨[], [IAC, SB] ++ (body ++ [Inner.pair b hb]).flatMap Inner.text, ?_, ?_, ?_⟩
      · rw [filter, if_neg hb]
        exact Unfinished.subnegotiation _
      · simp [Inner.text]
      · simp [filter, hb]

/-- Every stream is cut into items, and what the filter makes of it is their data. -/
theorem exists_items (stream : Bytes) :
    ∃ (items : List Item) (tail : Bytes), Unfinished (scan .normal stream).1 tail ∧
    stream = items.flatMap Item.text ++ tail ∧
      (scan .normal stream).2 = items.flatMap Item.meaning := by
  induction stream using List.reverseRecOn with
  | nil => exact ⟨[], [], .none, rfl, rfl⟩
  | append_singleton stream b ih =>
    obtain ⟨items, tail, hunfinished, hstream, hdata⟩ := ih
    obtain ⟨items', tail', hunfinished', htail, hbyte⟩ := hunfinished.next b
    have hscan : scan .normal (stream ++ [b]) =
        ((filter (scan .normal stream).1 b).1,
        (scan .normal stream).2 ++ (filter (scan .normal stream).1 b).2.toList) := by
      rw [scan_append]
      simp [scan]
    rw [hscan]
    refine ⟨items ++ items', tail', hunfinished', ?_, ?_⟩
    · rw [List.flatMap_append, List.append_assoc, ← htail, ← List.append_assoc, ← hstream]
    · rw [List.flatMap_append, hdata, hbyte]

/-- The grammar gives a stream one data, that which the filter lets through. -/
theorem denotes_iff (stream data : Bytes) : Denotes stream data ↔ data = (scan .normal stream).2 := by
  constructor
  · rintro ⟨items, tail, iac, hunfinished, rfl, rfl⟩
    rw [scan_append, scan_items, scan_unfinished hunfinished, List.append_nil]
  · rintro rfl
    obtain ⟨items, tail, hunfinished, hstream, hdata⟩ := exists_items stream
    exact ⟨items, tail, _, hunfinished, hstream, hdata⟩

/-- A read takes a front of what the socket has to come, at least a part of it, and
returns what the filter lets through. -/
theorem readLoop_spec (connected : Bool) (socket : Socket) (c : TelnetClient) :
    ∃ taken, socket = taken ++ (c.readLoop connected socket).2.2 ∧ (socket ≠ [] → taken ≠ []) ∧
      scan c.iac (arriving taken) =
        ((c.readLoop connected socket).2.1.iac, (c.readLoop connected socket).1.toList) := by
  have hiac : ∀ c : TelnetClient, (c.noData connected).iac = c.iac := by
    intro c
    unfold TelnetClient.noData TelnetClient.closeOnDisconnect
    split
    · split <;> rfl
    · rfl
  induction socket generalizing c with
  | nil => exact ⟨[], rfl, fun h => absurd rfl h, by simp [TelnetClient.readLoop, hiac, scan]⟩
  | cons arrived socket ih =>
    cases arrived with
    | none => exact ⟨[none], rfl, fun _ => List.cons_ne_nil _ _, by simp [TelnetClient.readLoop, hiac, scan]⟩
    | some ret =>
      cases hbyte : (filter c.iac ret).2 with
      | some data =>
        have hloop : c.readLoop connected (some ret :: socket) =
            (some data, { state := 0, iac := (filter c.iac ret).1 }, socket) := by
          rw [TelnetClient.readLoop]
          split
          · next iac data' heq =>
            rw [heq] at hbyte
            simp only [Option.some.injEq] at hbyte
            rw [heq, hbyte]
          · next iac heq =>
            rw [heq] at hbyte
            exact absurd hbyte (by simp)
        exact ⟨[some ret], by rw [hloop]; rfl, fun _ => List.cons_ne_nil _ _, by simp [hloop, scan, hbyte]⟩
      | none =>
        have hloop : c.readLoop connected (some ret :: socket) =
            TelnetClient.readLoop connected { state := 0, iac := (filter c.iac ret).1 } socket := by
          rw [TelnetClient.readLoop]
          split
          · next iac data' heq =>
            rw [heq] at hbyte
            exact absurd hbyte (by simp)
          · next iac heq => rw [heq]
        obtain ⟨taken, hsocket, -, hscan⟩ := ih { state := 0, iac := (filter c.iac ret).1 }
        rw [hloop]
        refine ⟨some ret :: taken, by rw [List.cons_append, ← hsocket], fun _ => List.cons_ne_nil _ _, ?_⟩
        simp [scan, hbyte, hscan]

/-- What has come of a session that began with `socket` to come. -/
structure Filtered (socket : Socket) (s : Session) : Prop where
  takes : ∃ taken, socket = taken ++ s.socket ∧ scan .normal (arriving taken) = (s.client.iac, s.returned)

theorem Filtered.step {socket : Socket} {s : Session} (h : Filtered socket s) (event : Event) :
    Filtered socket (s.step event) := by
  obtain ⟨taken, hsocket, hscan⟩ := h.takes
  cases event with
  | read connected =>
    by_cases hclosed : s.client.state = -1
    · refine ⟨taken, ?_, ?_⟩
      · simpa [Session.step, TelnetClient.read, hclosed] using hsocket
      · simpa [Session.step, TelnetClient.read, hclosed] using hscan
    · obtain ⟨more, hmore, -, hread⟩ := readLoop_spec connected s.socket s.client
      refine ⟨taken ++ more, ?_, ?_⟩
      · simp only [Session.step, TelnetClient.read, if_neg hclosed]
        rw [List.append_assoc, ← hmore]
        exact hsocket
      · simp only [Session.step, TelnetClient.read, if_neg hclosed]
        rw [arriving_append, scan_append, hscan, hread]
  | unwritten connected =>
    refine ⟨taken, hsocket, ?_⟩
    rw [hscan]
    simp only [Session.step, TelnetClient.closeOnDisconnect]
    split <;> rfl

theorem Filtered.run (socket : Socket) (events : List Event) :
    Filtered socket (Transition.run Session.step { socket } events) := by
  have hstart : Filtered socket { socket } := ⟨[], rfl, rfl⟩
  exact (Transition.always_of_step (I := Filtered socket) (fun _ event h => h.step event) hstart events).last

/-- `connected()` is false only when no byte is to come. -/
def Honest (s : Session) (event : Event) : Prop := event.connected = false → arriving s.socket = []

instance (s : Session) (event : Event) : Decidable (Honest s event) := inferInstanceAs (Decidable (_ → _))

/-- Every read up to now has taken a part of the socket, unless no byte was left in it. -/
def Progress (total reads : Nat) (s : Session) : Prop :=
  arriving s.socket = [] ∨ 0 ≤ s.client.state ∧ s.socket.length + reads ≤ total

theorem readLoop_state (socket : Socket) {c : TelnetClient} (h : 0 ≤ c.state) :
    0 ≤ (c.readLoop true socket).2.1.state := by
  have hnoData : ∀ {c : TelnetClient}, 0 ≤ c.state → 0 ≤ (c.noData true).state := by
    intro c hc
    unfold TelnetClient.noData TelnetClient.closeOnDisconnect
    split
    · simp
    · dsimp only
      omega
  induction socket generalizing c with
  | nil => exact hnoData h
  | cons arrived socket ih =>
    cases arrived with
    | none => exact hnoData h
    | some ret =>
      rw [TelnetClient.readLoop]
      split
      · exact Int.le_refl 0
      · exact ih (Int.le_refl 0)

theorem Progress.step {total reads : Nat} {s : Session} (h : Progress total reads s) {event : Event}
    (hhonest : Honest s event) : Progress total (reads + if event.isRead then 1 else 0) (s.step event) := by
  cases event with
  | unwritten connected =>
    rcases h with hempty | ⟨hstate, hlength⟩
    · exact .inl hempty
    · cases connected with
      | false => exact .inl (hhonest rfl)
      | true => exact .inr ⟨by simpa [Session.step, TelnetClient.closeOnDisconnect] using hstate, hlength⟩
  | read connected =>
    obtain ⟨taken, hsocket, hsome, -⟩ := readLoop_spec connected s.socket s.client
    have hsplit : arriving s.socket = arriving taken ++ arriving (s.client.readLoop connected s.socket).2.2 := by
      rw [← arriving_append, ← hsocket]
    by_cases hempty : arriving s.socket = []
    · left
      by_cases hclosed : s.client.state = -1
      · simpa [Session.step, TelnetClient.read, hclosed] using hempty
      · rw [hempty] at hsplit
        simpa [Session.step, TelnetClient.read, hclosed] using (List.nil_eq_append_iff.mp hsplit).2
    · obtain ⟨hstate, hlength⟩ := h.resolve_left hempty
      have hclosed : s.client.state ≠ -1 := by omega
      have hconnected : connected = true := by
        cases connected with
        | false => exact absurd (hhonest rfl) hempty
        | true => rfl
      subst hconnected
      have htaken : taken ≠ [] := hsome fun hnil => hempty (by rw [hnil, arriving_nil])
      have hone := List.length_pos_iff.mpr htaken
      have hlen := congrArg List.length hsocket
      rw [List.length_append] at hlen
      right
      simp only [Session.step, TelnetClient.read, if_neg hclosed, Event.isRead, if_true]
      refine ⟨readLoop_state s.socket hstate, ?_⟩
      change (s.client.readLoop true s.socket).2.2.length + (reads + 1) ≤ total
      omega

theorem Progress.run {total reads : Nat} {s : Session} (h : Progress total reads s) {events : List Event}
    (hhonest : Transition.Throughout Session.step Honest s events) :
    Progress total (reads + events.countP Event.isRead) (Transition.run Session.step s events) := by
  induction events generalizing s reads with
  | nil => exact h
  | cons event events ih =>
    have hnext := ih (h.step hhonest.1) hhonest.2
    rw [List.countP_cons, Nat.add_comm (events.countP _), ← Nat.add_assoc]
    exact hnext

/-- However the stream is cut, and whatever comes between the reads: what `read` has
returned is the data of the bytes taken from the socket up to now. Once there were as
many reads as the socket had to come, it is the data of the stream. -/
theorem read_returns_data (socket : Socket) (events : List Event) :
    (∃ taken, socket = taken ++ (Transition.run Session.step { socket } events).socket ∧
      ∀ data, Denotes (arriving taken) data ↔ data = (Transition.run Session.step { socket } events).returned) ∧
    (Transition.Throughout Session.step Honest { socket } events → socket.length ≤ events.countP Event.isRead →
      ∀ data, Denotes (arriving socket) data ↔
        data = (Transition.run Session.step { socket } events).returned) := by
  obtain ⟨taken, hsocket, hscan⟩ := (Filtered.run socket events).takes
  have hdata : ∀ data, Denotes (arriving taken) data ↔
      data = (Transition.run Session.step { socket } events).returned := by
    intro data
    rw [denotes_iff, hscan]
  refine ⟨⟨taken, hsocket, hdata⟩, fun hhonest hreads => ?_⟩
  have hstart : Progress socket.length 0 { socket } := .inr ⟨Int.le_refl 0, Nat.le_refl _⟩
  have hrest : arriving (Transition.run Session.step { socket } events).socket = [] := by
    rcases hstart.run hhonest with hempty | ⟨-, hlength⟩
    · exact hempty
    · have hnil : (Transition.run Session.step { socket } events).socket = [] :=
        List.eq_nil_of_length_eq_zero (by omega)
      rw [hnil, arriving_nil]
  have hall : arriving socket = arriving taken := by
    rw [hsocket, arriving_append, hrest, List.append_nil]
  rw [hall]
  exact hdata

/-- A reset character as the option of a negotiation, cut behind its verb: it is not
data, and the letter behind it is. -/
theorem read_returns_letter : Denotes [0xFF, 0xFB, 0x18, 0x47] [0x47] :=
  ((read_returns_data [some 0xFF, some 0xFB, none, some 0x18, some 0x47] (List.replicate 5 (.read true))).2
    (by decide) (by decide) [0x47]).mpr (by decide)

end DuneWeaver.Telnet
