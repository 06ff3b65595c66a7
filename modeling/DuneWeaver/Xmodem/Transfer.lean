import DuneWeaver.Bytes
import DuneWeaver.Framing.Numbered
import DuneWeaver.Words.Network
import Mathlib.Data.List.DropRight

open Framing

namespace DuneWeaver.Xmodem

def crc16tab : List UInt16 :=
  [0x0000, 0x1021, 0x2042, 0x3063, 0x4084, 0x50a5, 0x60c6, 0x70e7,
    0x8108, 0x9129, 0xa14a, 0xb16b, 0xc18c, 0xd1ad, 0xe1ce, 0xf1ef,
    0x1231, 0x0210, 0x3273, 0x2252, 0x52b5, 0x4294, 0x72f7, 0x62d6,
    0x9339, 0x8318, 0xb37b, 0xa35a, 0xd3bd, 0xc39c, 0xf3ff, 0xe3de,
    0x2462, 0x3443, 0x0420, 0x1401, 0x64e6, 0x74c7, 0x44a4, 0x5485,
    0xa56a, 0xb54b, 0x8528, 0x9509, 0xe5ee, 0xf5cf, 0xc5ac, 0xd58d,
    0x3653, 0x2672, 0x1611, 0x0630, 0x76d7, 0x66f6, 0x5695, 0x46b4,
    0xb75b, 0xa77a, 0x9719, 0x8738, 0xf7df, 0xe7fe, 0xd79d, 0xc7bc,
    0x48c4, 0x58e5, 0x6886, 0x78a7, 0x0840, 0x1861, 0x2802, 0x3823,
    0xc9cc, 0xd9ed, 0xe98e, 0xf9af, 0x8948, 0x9969, 0xa90a, 0xb92b,
    0x5af5, 0x4ad4, 0x7ab7, 0x6a96, 0x1a71, 0x0a50, 0x3a33, 0x2a12,
    0xdbfd, 0xcbdc, 0xfbbf, 0xeb9e, 0x9b79, 0x8b58, 0xbb3b, 0xab1a,
    0x6ca6, 0x7c87, 0x4ce4, 0x5cc5, 0x2c22, 0x3c03, 0x0c60, 0x1c41,
    0xedae, 0xfd8f, 0xcdec, 0xddcd, 0xad2a, 0xbd0b, 0x8d68, 0x9d49,
    0x7e97, 0x6eb6, 0x5ed5, 0x4ef4, 0x3e13, 0x2e32, 0x1e51, 0x0e70,
    0xff9f, 0xefbe, 0xdfdd, 0xcffc, 0xbf1b, 0xaf3a, 0x9f59, 0x8f78,
    0x9188, 0x81a9, 0xb1ca, 0xa1eb, 0xd10c, 0xc12d, 0xf14e, 0xe16f,
    0x1080, 0x00a1, 0x30c2, 0x20e3, 0x5004, 0x4025, 0x7046, 0x6067,
    0x83b9, 0x9398, 0xa3fb, 0xb3da, 0xc33d, 0xd31c, 0xe37f, 0xf35e,
    0x02b1, 0x1290, 0x22f3, 0x32d2, 0x4235, 0x5214, 0x6277, 0x7256,
    0xb5ea, 0xa5cb, 0x95a8, 0x8589, 0xf56e, 0xe54f, 0xd52c, 0xc50d,
    0x34e2, 0x24c3, 0x14a0, 0x0481, 0x7466, 0x6447, 0x5424, 0x4405,
    0xa7db, 0xb7fa, 0x8799, 0x97b8, 0xe75f, 0xf77e, 0xc71d, 0xd73c,
    0x26d3, 0x36f2, 0x0691, 0x16b0, 0x6657, 0x7676, 0x4615, 0x5634,
    0xd94c, 0xc96d, 0xf90e, 0xe92f, 0x99c8, 0x89e9, 0xb98a, 0xa9ab,
    0x5844, 0x4865, 0x7806, 0x6827, 0x18c0, 0x08e1, 0x3882, 0x28a3,
    0xcb7d, 0xdb5c, 0xeb3f, 0xfb1e, 0x8bf9, 0x9bd8, 0xabbb, 0xbb9a,
    0x4a75, 0x5a54, 0x6a37, 0x7a16, 0x0af1, 0x1ad0, 0x2ab3, 0x3a92,
    0xfd2e, 0xed0f, 0xdd6c, 0xcd4d, 0xbdaa, 0xad8b, 0x9de8, 0x8dc9,
    0x7c26, 0x6c07, 0x5c64, 0x4c45, 0x3ca2, 0x2c83, 0x1ce0, 0x0cc1,
    0xef1f, 0xff3e, 0xcf5d, 0xdf7c, 0xaf9b, 0xbfba, 0x8fd9, 0x9ff8,
    0x6e17, 0x7e36, 0x4e55, 0x5e74, 0x2e93, 0x3eb2, 0x0ed1, 0x1ef0]

def crc16_ccitt (buf : Bytes) : UInt16 :=
  buf.foldl (fun crc c => (crc <<< 8) ^^^ crc16tab.getD (((crc >>> 8) ^^^ c.toUInt16) &&& 0x00FF).toNat 0) 0

def SOH : UInt8 := 0x01
def STX : UInt8 := 0x02
def EOT : UInt8 := 0x04
def ACK : UInt8 := 0x06
def NAK : UInt8 := 0x15
def CAN : UInt8 := 0x18
def CTRLZ : UInt8 := 0x1A

def MAXRETRANS : Int := 25

/-- `check`: the CRC, or the sum, behind the `sz` bytes of a packet. -/
def check (crc : Bool) (buf : Bytes) (sz : Nat) : Bool :=
  if crc then
    let tcrc := (buf.getD sz 0).toUInt16 <<< 8 + (buf.getD (sz + 1) 0).toUInt16
    crc16_ccitt (buf.take sz) = tcrc
  else (buf.take sz).foldl (· + ·) 0 = buf.getD sz 0

/-- The serial port: what the calls of `_inbyte` to come give, and the bytes sent
so far. A call that times out gives nothing, and once the list is over every call
times out. -/
structure SerialPort where
  input : List (Option UInt8)
  sent : Bytes := []
  deriving DecidableEq

/-- `_inbyte`. -/
def SerialPort.inbyte (port : SerialPort) : Option UInt8 × SerialPort :=
  match port.input with
  | [] => (none, port)
  | c :: input => (c, { port with input })

/-- `_outbyte`. -/
def SerialPort.outbyte (port : SerialPort) (c : UInt8) : SerialPort := { port with sent := port.sent ++ [c] }

/-- `flushinput`: everything up to the first call that times out. -/
def SerialPort.flushinput (port : SerialPort) : SerialPort :=
  { port with input := (port.input.dropWhile Option.isSome).tail }

/-- Where the loop over `retry` ends. -/
inductive Sync where
  | start_recv (c : UInt8) (bufsz : Nat)
  | normal_end
  | canceled
  | exhausted
  deriving DecidableEq

/-- The loop over `retry`, with the rounds that are left. -/
@[grind =] def SerialPort.sync (trychar : UInt8) : Nat → SerialPort → Sync × SerialPort
  | 0, port => (.exhausted, port)
  | retry + 1, port =>
    let port := if trychar ≠ 0 then port.outbyte trychar else port
    match port.inbyte with
    | (none, port) => port.sync trychar retry
    | (some c, port) =>
      if c = SOH then (.start_recv c 128, port)
      else if c = STX then (.start_recv c 1024, port)
      else if c = EOT then (.normal_end, port)
      else if c = CAN then
        match port.inbyte with
        | (none, port) => port.sync trychar retry
        | (some c, port) => if c = CAN then (.canceled, port) else port.sync trychar retry
      else port.sync trychar retry

/-- The loop that reads the bytes of a packet; nothing when a call times out. -/
@[grind =] def SerialPort.read : Nat → SerialPort → Option Bytes × SerialPort
  | 0, port => (some [], port)
  | n + 1, port =>
    match port.inbyte with
    | (none, port) => (none, port)
    | (some c, port) =>
      match port.read n with
      | (none, port) => (none, port)
      | (some p, port) => (some (c :: p), port)

/-- The variables of `xmodemReceive`, with the port and the file. An empty
`held_packet` is a `held_packet_len` of 0. The file stays below 2 ^ 31 bytes,
so that `len` fits the `int` that is returned. -/
structure Receiver where
  serialPort : SerialPort
  file : Bytes := []
  held_packet : Bytes := []
  crc : Bool := false
  trychar : UInt8 := 0x43
  packetno : UInt8 := 1
  retrans : Int := MAXRETRANS
  len : Nat := 0
  deriving DecidableEq

namespace Receiver

/-- The last packet goes to the file without the padding. -/
def flush_packet (r : Receiver) : Receiver :=
  if r.held_packet.length > 0 then
    let packet := r.held_packet.rdropWhile (· = CTRLZ)
    { r with file := r.file ++ packet, len := r.len + packet.length, held_packet := [] }
  else r

/-- A packet goes to the file when the next one arrives. -/
def write_packet (r : Receiver) (buf : Bytes) : Receiver :=
  if r.held_packet.length > 0 then
    { r with file := r.file ++ r.held_packet, len := r.len + r.held_packet.length, held_packet := buf }
  else { r with held_packet := buf }

/-- One pass of the outer loop goes on, or returns. -/
inductive Pass where
  | again (r : Receiver)
  | done (status : Int) (r : Receiver)
  deriving DecidableEq

/-- The three `CAN` of a transfer that is given up. -/
def give_up (r : Receiver) : Receiver :=
  { r with serialPort := ((r.serialPort.flushinput.outbyte CAN).outbyte CAN).outbyte CAN }

def reject (r : Receiver) : Pass := .again { r with serialPort := r.serialPort.flushinput.outbyte NAK }

/-- `xbuff[1] == packetno || xbuff[1] == packetno - 1`, which C compares as `int`. -/
def expected (r : Receiver) (number : UInt8) : Bool :=
  number = r.packetno || (number.toNat : Int) = (r.packetno.toNat : Int) - 1

/-- A packet whose header, number and check are right. -/
def accept (r : Receiver) (number : UInt8) (buf : Bytes) : Pass :=
  let r :=
    if number = r.packetno then
      let r := r.write_packet buf
      { r with packetno := r.packetno + 1, retrans := MAXRETRANS + 1 }
    else r
  let r := { r with retrans := r.retrans - 1 }
  if r.retrans ≤ 0 then .done (-3) r.give_up
  else .again { r with serialPort := r.serialPort.outbyte ACK }

/-- The pass from `start_recv` on. -/
def start_recv (r : Receiver) (c : UInt8) (bufsz : Nat) : Pass :=
  let r := { r with crc := r.crc || r.trychar = 0x43, trychar := 0 }
  match r.serialPort.read (bufsz + (if r.crc then 1 else 0) + 3) with
  | (none, port) => reject { r with serialPort := port }
  | (some p, port) =>
    let r := { r with serialPort := port }
    let xbuff := c :: p
    let number := xbuff.getD 1 0
    if number = ~~~xbuff.getD 2 0 && r.expected number && check r.crc (xbuff.drop 3) bufsz then
      r.accept number ((xbuff.drop 3).take bufsz)
    else r.reject

/-- One pass of the outer loop of `xmodemReceive`. -/
def pass (r : Receiver) : Pass :=
  match r.serialPort.sync r.trychar 16 with
  | (.start_recv c bufsz, port) => start_recv { r with serialPort := port } c bufsz
  | (.normal_end, port) =>
    let r := flush_packet { r with serialPort := port }
    .done r.len { r with serialPort := (port.outbyte ACK).flushinput }
  | (.canceled, port) => .done (-1) { r with serialPort := port.flushinput.outbyte ACK }
  | (.exhausted, port) =>
    if r.trychar = 0x43 then .again { r with serialPort := port, trychar := NAK }
    else .done (-2) (give_up { r with serialPort := port })

/-- The outer loop, for at most `fuel` passes. -/
def run : Nat → Receiver → Option (Int × Receiver)
  | 0, _ => none
  | fuel + 1, r =>
    match r.pass with
    | .again r => run fuel r
    | .done status r => some (status, r)

end Receiver

/-- `xmodemReceive` on a port: the status it returns, and the file. -/
def xmodemReceive (input : List (Option UInt8)) : Option (Int × Bytes) :=
  (Receiver.run (input.length + 2) { serialPort := { input } }).map fun (status, r) => (status, r.file)

/-- What a packet carries. -/
structure Packet where
  payload : Bytes
  size : payload.length = 128 ∨ payload.length = 1024

/-- What a sender puts behind the payload. -/
def trailer (crc : Bool) (payload : Bytes) : Bytes :=
  if crc then Words.u16 (crc16_ccitt payload) else [payload.foldl (· + ·) 0]

/-- An intact packet under the number, byte by byte. -/
def Packet.encode (p : Packet) (crc : Bool) (number : UInt8) : Bytes :=
  (if p.payload.length = 128 then SOH else STX) :: number :: ~~~number :: (p.payload ++ trailer crc p.payload)

/-- The `n`-th packet of a transfer, when no byte of it is late. -/
def frame (crc : Bool) (n : ℕ) (p : Packet) : List (Option UInt8) := (p.encode crc (UInt8.ofNat n)).map some

/-- The file of the packets: only the last one loses its padding. -/
def written (packets : List Packet) : Bytes :=
  (packets.dropLast.map Packet.payload).flatten ++
    (packets.getLast?.map fun p => p.payload.rdropWhile (· = CTRLZ)).getD []

theorem trailer_length (crc : Bool) (payload : Bytes) :
    (trailer crc payload).length = 1 + if crc then 1 else 0 := by
  cases crc <;> rfl

private theorem shift_add_eq_word (hi lo : UInt8) :
    hi.toUInt16 <<< 8 + lo.toUInt16 = Words.word hi lo := by
  apply UInt16.toNat_inj.mp
  have hhi := hi.toNat_lt
  have hlo := lo.toNat_lt
  rw [Words.word_toNat]
  simp only [UInt16.toNat_add, UInt16.toNat_shiftLeft, UInt8.toNat_toUInt16, Nat.shiftLeft_eq]
  simp
  omega

/-- The check passes on what a sender puts behind the payload, and on nothing else. -/
theorem check_iff {crc : Bool} {payload tail : Bytes} {sz : Nat} (hpayload : payload.length = sz)
    (htail : tail.length = 1 + if crc then 1 else 0) :
    check crc (payload ++ tail) sz = true ↔ tail = trailer crc payload := by
  have htake : (payload ++ tail).take sz = payload := by
    rw [List.take_append_of_le_length (by omega), List.take_of_length_le (by omega)]
  have hget (i : Nat) : (payload ++ tail).getD (sz + i) 0 = tail.getD i 0 := by
    rw [List.getD_eq_getElem?_getD, List.getD_eq_getElem?_getD, List.getElem?_append_right (by omega)]
    congr 2
    omega
  have hfirst := hget 0
  rw [Nat.add_zero] at hfirst
  cases crc with
  | false =>
    obtain ⟨sum, rfl⟩ := List.length_eq_one_iff.mp htail
    simp only [check, htake, hfirst, trailer]
    simp [eq_comm]
  | true =>
    obtain ⟨hi, lo, rfl⟩ := List.length_eq_two.mp htail
    simp only [check, htake, hfirst, hget 1, trailer, if_true, decide_eq_true_eq]
    simp only [List.getD_cons_zero, List.getD_cons_succ, shift_add_eq_word]
    constructor
    · intro h
      rw [h, Words.u16_word]
    · intro h
      rw [← Words.word_bytes (crc16_ccitt payload)]
      simp only [Words.u16, List.cons.injEq, and_true] at h
      rw [h.1, h.2]

namespace SerialPort

theorem inbyte_some {port after : SerialPort} {c : UInt8} (h : port.inbyte = (some c, after)) :
    port.input = some c :: after.input := by
  obtain ⟨input, sent⟩ := port
  cases input with
  | nil => simp [inbyte] at h
  | cons first input =>
    simp only [inbyte, Prod.mk.injEq] at h
    obtain ⟨rfl, rfl⟩ := h
    rfl

/-- A call of `_inbyte` takes from the front. -/
theorem inbyte_suffix {port after : SerialPort} {c : Option UInt8} (h : port.inbyte = (c, after)) :
    after.input <:+ port.input := by
  obtain ⟨input, sent⟩ := port
  cases input with
  | nil =>
    simp only [inbyte, Prod.mk.injEq] at h
    exact h.2 ▸ List.suffix_refl _
  | cons first input =>
    simp only [inbyte, Prod.mk.injEq] at h
    rw [← h.2]
    exact List.suffix_cons _ _

@[simp] theorem outbyte_input (port : SerialPort) (c : UInt8) : (port.outbyte c).input = port.input := rfl

private theorem prompted_input (trychar : UInt8) (port : SerialPort) :
    (if trychar ≠ 0 then port.outbyte trychar else port).input = port.input := by
  split <;> rfl

theorem flushinput_suffix (port : SerialPort) : port.flushinput.input <:+ port.input := by
  exact (List.tail_suffix _).trans (List.dropWhile_suffix _)

/-- The packet is what came in before the port as it is after the loop. -/
theorem read_spec (n : Nat) (port : SerialPort) :
    match port.read n with
    | (some p, after) => port.input = p.map some ++ after.input ∧ p.length = n ∧ after.sent = port.sent
    | (none, after) => after.input <:+ port.input ∧ after.sent = port.sent := by
  induction n generalizing port with
  | zero => simp [read]
  | succ n ih =>
    obtain ⟨input, sent⟩ := port
    cases input with
    | nil => simp [read, inbyte]
    | cons c input =>
      cases c with
      | none => simp [read, inbyte]
      | some c =>
        have ih := ih { input, sent }
        simp only [read, inbyte]
        split at ih
        · rename_i p after heq
          simp only [heq]
          obtain ⟨hinput, hlen, hsent⟩ := ih
          refine ⟨?_, by simp [hlen], hsent⟩
          simp only at hinput
          simp [hinput]
        · rename_i after heq
          simp only [heq]
          exact ⟨ih.1.trans (List.suffix_cons _ _), ih.2⟩

/-- A packet that is there is read. -/
theorem read_append (p : Bytes) (rest : List (Option UInt8)) (sent : Bytes) :
    SerialPort.read p.length { input := p.map some ++ rest, sent } = (some p, { input := rest, sent }) := by
  induction p with
  | nil => simp [read]
  | cons c p ih => simp [read, inbyte, ih]

theorem sync_suffix (trychar : UInt8) (retry : Nat) (port : SerialPort) :
    (port.sync trychar retry).2.input <:+ port.input := by
  fun_induction SerialPort.sync trychar retry port with
  | case1 port => exact List.suffix_refl _
  | case2 retry port prompted after hbyte ih =>
    rw [← prompted_input trychar port]
    exact ih.trans (inbyte_suffix hbyte)
  | case3 retry port prompted after hbyte => exact prompted_input trychar port ▸ inbyte_suffix hbyte
  | case4 retry port prompted after hbyte => exact prompted_input trychar port ▸ inbyte_suffix hbyte
  | case5 retry port prompted after hbyte => exact prompted_input trychar port ▸ inbyte_suffix hbyte
  | case6 retry port prompted middle after hsecond hfirst _ _ _ ih =>
    rw [← prompted_input trychar port]
    exact ih.trans ((inbyte_suffix hsecond).trans (inbyte_suffix hfirst))
  | case7 retry port prompted middle after hfirst _ _ _ hsecond =>
    rw [← prompted_input trychar port]
    exact (inbyte_suffix hsecond).trans (inbyte_suffix hfirst)
  | case8 retry port prompted middle c after hsecond _ hfirst _ _ _ ih =>
    rw [← prompted_input trychar port]
    exact ih.trans ((inbyte_suffix hsecond).trans (inbyte_suffix hfirst))
  | case9 retry port prompted c after hbyte _ _ _ _ ih =>
    rw [← prompted_input trychar port]
    exact ih.trans (inbyte_suffix hbyte)

theorem inbyte_sent {port after : SerialPort} {c : Option UInt8} (h : port.inbyte = (c, after)) :
    after.sent = port.sent := by
  obtain ⟨input, sent⟩ := port
  cases input with
  | nil =>
    simp only [inbyte, Prod.mk.injEq] at h
    rw [← h.2]
  | cons first input =>
    simp only [inbyte, Prod.mk.injEq] at h
    rw [← h.2]

/-- A receiver that has nothing to ask for is silent. -/
theorem sync_sent (retry : Nat) (port : SerialPort) : (port.sync 0 retry).2.sent = port.sent := by
  induction retry generalizing port with
  | zero => rfl
  | succ retry ih =>
    rw [sync]
    simp only [ne_eq, not_true_eq_false, if_false]
    split
    · rename_i after hbyte
      rw [ih, inbyte_sent hbyte]
    · rename_i c after hbyte
      split_ifs
      · exact inbyte_sent hbyte
      · exact inbyte_sent hbyte
      · exact inbyte_sent hbyte
      · split
        · rename_i last hsecond
          rw [ih, inbyte_sent hsecond, inbyte_sent hbyte]
        · rename_i second last hsecond
          split_ifs
          · exact (inbyte_sent hsecond).trans (inbyte_sent hbyte)
          · rw [ih, inbyte_sent hsecond, inbyte_sent hbyte]
      · rw [ih, inbyte_sent hbyte]

/-- A packet starts where the loop over `retry` stops for one. -/
theorem sync_start {trychar c : UInt8} {retry bufsz : Nat} {port after : SerialPort}
    (hsync : port.sync trychar retry = (.start_recv c bufsz, after)) :
    some c :: after.input <:+ port.input ∧ (c = SOH ∧ bufsz = 128 ∨ c = STX ∧ bufsz = 1024) := by
  fun_induction SerialPort.sync trychar retry port with
  | case1 port => simp at hsync
  | case2 retry port prompted after hbyte ih =>
    obtain ⟨hstart, hsize⟩ := ih hsync
    exact ⟨prompted_input trychar port ▸ hstart.trans (inbyte_suffix hbyte), hsize⟩
  | case3 retry port prompted middle hbyte =>
    simp only [Prod.mk.injEq, Sync.start_recv.injEq] at hsync
    obtain ⟨⟨rfl, rfl⟩, rfl⟩ := hsync
    refine ⟨?_, Or.inl ⟨rfl, rfl⟩⟩
    have hinput := inbyte_some hbyte
    rw [prompted_input trychar port] at hinput
    exact hinput ▸ List.suffix_refl _
  | case4 retry port prompted middle hbyte =>
    simp only [Prod.mk.injEq, Sync.start_recv.injEq] at hsync
    obtain ⟨⟨rfl, rfl⟩, rfl⟩ := hsync
    refine ⟨?_, Or.inr ⟨rfl, rfl⟩⟩
    have hinput := inbyte_some hbyte
    rw [prompted_input trychar port] at hinput
    exact hinput ▸ List.suffix_refl _
  | case5 retry port prompted middle hbyte => simp at hsync
  | case6 retry port prompted middle after hsecond hfirst _ _ _ ih =>
    obtain ⟨hstart, hsize⟩ := ih hsync
    refine ⟨?_, hsize⟩
    rw [← prompted_input trychar port]
    exact hstart.trans ((inbyte_suffix hsecond).trans (inbyte_suffix hfirst))
  | case7 retry port prompted middle after hfirst _ _ _ hsecond => simp at hsync
  | case8 retry port prompted middle c after hsecond _ hfirst _ _ _ ih =>
    obtain ⟨hstart, hsize⟩ := ih hsync
    refine ⟨?_, hsize⟩
    rw [← prompted_input trychar port]
    exact hstart.trans ((inbyte_suffix hsecond).trans (inbyte_suffix hfirst))
  | case9 retry port prompted c after hbyte _ _ _ _ ih =>
    obtain ⟨hstart, hsize⟩ := ih hsync
    exact ⟨prompted_input trychar port ▸ hstart.trans (inbyte_suffix hbyte), hsize⟩

/-- The header byte of a packet that is there ends the loop over `retry` at once. -/
theorem sync_header {p : Packet} (trychar : UInt8) (rest : List (Option UInt8)) (sent : Bytes) :
    SerialPort.sync trychar 16
        { input := some (if p.payload.length = 128 then SOH else STX) :: rest, sent } =
      (.start_recv (if p.payload.length = 128 then SOH else STX) p.payload.length,
        { input := rest, sent := if trychar ≠ 0 then sent ++ [trychar] else sent }) := by
  have hport : (if trychar ≠ 0 then
        SerialPort.outbyte { input := some (if p.payload.length = 128 then SOH else STX) :: rest, sent } trychar
      else { input := some (if p.payload.length = 128 then SOH else STX) :: rest, sent }) =
      { input := some (if p.payload.length = 128 then SOH else STX) :: rest,
        sent := if trychar ≠ 0 then sent ++ [trychar] else sent } := by
    split <;> rfl
  rw [sync]
  simp only [hport, inbyte]
  rcases p.size with hsize | hsize
  · simp [hsize]
  · have hne : STX ≠ SOH := by decide
    simp [hsize, hne]

end SerialPort

namespace Receiver

/-- Whether the packet to come has a CRC: the first one settles it. -/
def mode (r : Receiver) : Bool := r.crc || r.trychar = 0x43

/-- No packet was taken. -/
structure Kept (r after : Receiver) : Prop where
  file : after.file = r.file
  held_packet : after.held_packet = r.held_packet
  packetno : after.packetno = r.packetno
  len : after.len = r.len

/-- The packet was taken: it is held, and the one held before is in the file. -/
structure Taken (r after : Receiver) (p : Packet) : Prop where
  read : (p.encode after.crc r.packetno).map some ++ after.serialPort.input <:+ r.serialPort.input
  file : after.file = r.file ++ r.held_packet
  held_packet : after.held_packet = p.payload
  packetno : after.packetno = r.packetno + 1
  len : after.len = r.len + r.held_packet.length
  trychar : after.trychar = 0

/-- The calls of `_inbyte` that can still give something, and the change from `C` to
`NAK` that is still to come. -/
def remaining (r : Receiver) : Nat := r.serialPort.input.length + if r.trychar = 0x43 then 1 else 0

/-- What every pass that goes on does to the port and the mode. -/
structure Goes (r after : Receiver) : Prop where
  suffix : after.serialPort.input <:+ r.serialPort.input
  shorter : after.remaining < r.remaining
  crc : r.trychar ≠ 0x43 → after.crc = r.crc
  trychar : r.trychar = 0 → after.trychar = 0

theorem write_packet_eq (r : Receiver) (buf : Bytes) :
    r.write_packet buf =
      { r with
        file := r.file ++ r.held_packet, len := r.len + r.held_packet.length, held_packet := buf } := by
  rw [write_packet]
  split
  · rfl
  · have hheld : r.held_packet = [] := by
      rw [← List.length_eq_zero_iff]
      omega
    simp [hheld]

theorem flush_packet_eq (r : Receiver) :
    r.flush_packet =
      { r with
        file := r.file ++ r.held_packet.rdropWhile (· = CTRLZ),
        len := r.len + (r.held_packet.rdropWhile (· = CTRLZ)).length, held_packet := [] } := by
  rw [flush_packet]
  split
  · rfl
  · have hheld : r.held_packet = [] := by
      rw [← List.length_eq_zero_iff]
      omega
    obtain ⟨serialPort, file, held_packet, crc, trychar, packetno, retrans, len⟩ := r
    simp only at hheld
    subst hheld
    simp

/-- The next packet is acknowledged. -/
theorem accept_next (r : Receiver) (buf : Bytes) :
    r.accept r.packetno buf = .again { r with
      file := r.file ++ r.held_packet, len := r.len + r.held_packet.length, held_packet := buf,
      packetno := r.packetno + 1, retrans := MAXRETRANS, serialPort := r.serialPort.outbyte ACK } := by
  rw [accept]
  simp only [if_true, write_packet_eq, MAXRETRANS]
  rfl

/-- A packet that is known is acknowledged as long as the counter lasts. -/
theorem accept_known {r : Receiver} {number : UInt8} (buf : Bytes) (hknown : number ≠ r.packetno) :
    r.accept number buf =
      if r.retrans ≤ 1 then .done (-3) (give_up { r with retrans := r.retrans - 1 })
      else .again { r with retrans := r.retrans - 1, serialPort := r.serialPort.outbyte ACK } := by
  rw [accept]
  simp only [if_neg hknown]
  have hcount : r.retrans - 1 ≤ 0 ↔ r.retrans ≤ 1 := by omega
  simp only [hcount]

/-- A packet that is accepted is the next one, which is taken, or one that is known. -/
theorem accept_again {r after : Receiver} {number : UInt8} {buf : Bytes}
    (haccept : r.accept number buf = .again after) :
    after = (if number = r.packetno then
      { r with
        file := r.file ++ r.held_packet, len := r.len + r.held_packet.length, held_packet := buf,
        packetno := r.packetno + 1, retrans := MAXRETRANS, serialPort := r.serialPort.outbyte ACK }
      else { r with retrans := r.retrans - 1, serialPort := r.serialPort.outbyte ACK }) := by
  by_cases hnext : number = r.packetno
  · rw [hnext, accept_next] at haccept
    rw [if_pos hnext]
    exact (Pass.again.inj haccept).symm
  · rw [accept_known buf hnext] at haccept
    rw [if_neg hnext]
    split at haccept
    · cases haccept
    · exact (Pass.again.inj haccept).symm

theorem accept_done {r after : Receiver} {number : UInt8} {buf : Bytes} {status : Int}
    (haccept : r.accept number buf = .done status after) : status = -3 := by
  by_cases hnext : number = r.packetno
  · rw [hnext, accept_next] at haccept
    cases haccept
  · rw [accept_known buf hnext] at haccept
    split at haccept
    · cases haccept
      rfl
    · cases haccept

/-- The rest of the packet does not come. -/
theorem start_recv_silent {r : Receiver} {c : UInt8} {bufsz : Nat} {port : SerialPort}
    (hread : r.serialPort.read (bufsz + (if r.mode then 1 else 0) + 3) = (none, port)) :
    r.start_recv c bufsz = reject { r with crc := r.mode, trychar := 0, serialPort := port } := by
  have hmode : (r.crc || decide (r.trychar = 0x43)) = r.mode := rfl
  unfold start_recv
  dsimp only
  rw [hmode, hread]

/-- The rest of the packet has come: its number, the complement, and what is to be checked. -/
theorem start_recv_read {r : Receiver} {c n m : UInt8} {bufsz : Nat} {rest : Bytes} {port : SerialPort}
    (hread : r.serialPort.read (bufsz + (if r.mode then 1 else 0) + 3) = (some (n :: m :: rest), port)) :
    r.start_recv c bufsz =
      if n = ~~~m && r.expected n && check r.mode rest bufsz then
        accept { r with crc := r.mode, trychar := 0, serialPort := port } n (rest.take bufsz)
      else reject { r with crc := r.mode, trychar := 0, serialPort := port } := by
  have hmode : (r.crc || decide (r.trychar = 0x43)) = r.mode := rfl
  unfold start_recv
  dsimp only
  rw [hmode, hread]
  rfl

/-- The pass from `start_recv` on, when it goes on: the port is behind the header byte `c`. -/
theorem start_recv_again {r after : Receiver} {c : UInt8} {bufsz : Nat}
    (hsize : c = SOH ∧ bufsz = 128 ∨ c = STX ∧ bufsz = 1024) (hpass : r.start_recv c bufsz = .again after) :
    after.serialPort.input <:+ r.serialPort.input ∧ after.trychar = 0 ∧ after.crc = r.mode ∧
      (Kept r after ∨ ∃ p : Packet,
        (p.encode after.crc r.packetno).map some ++ after.serialPort.input =
            some c :: r.serialPort.input ∧
          after.file = r.file ++ r.held_packet ∧ after.held_packet = p.payload ∧
          after.packetno = r.packetno + 1 ∧ after.len = r.len + r.held_packet.length) := by
  have hspec := SerialPort.read_spec (bufsz + (if r.mode then 1 else 0) + 3) r.serialPort
  generalize hread : r.serialPort.read (bufsz + (if r.mode then 1 else 0) + 3) = result at hspec
  obtain ⟨answer, port⟩ := result
  cases answer with
  | none =>
    rw [start_recv_silent hread] at hpass
    cases hpass
    exact ⟨(SerialPort.flushinput_suffix _).trans hspec.1, rfl, rfl, Or.inl ⟨rfl, rfl, rfl, rfl⟩⟩
  | some bytes =>
    obtain ⟨hinput, hlen, -⟩ := hspec
    have hport : port.input <:+ r.serialPort.input := hinput ▸ List.suffix_append _ _
    obtain ⟨n, m, rest, rfl⟩ : ∃ n m rest, bytes = n :: m :: rest := by
      cases bytes with
      | nil => exact absurd hlen (by simp)
      | cons n bytes =>
        cases bytes with
        | nil => exact absurd hlen (by simp)
        | cons m rest => exact ⟨n, m, rest, rfl⟩
    simp only [List.length_cons] at hlen
    rw [start_recv_read hread] at hpass
    split at hpass
    · rename_i hvalid
      simp only [Bool.and_eq_true, decide_eq_true_eq] at hvalid
      obtain ⟨⟨hcomplement, -⟩, hcheck⟩ := hvalid
      rw [accept_again hpass]
      split
      · rename_i hnumber
        refine ⟨hport, rfl, rfl, Or.inr ⟨⟨rest.take bufsz, ?_⟩, ?_, rfl, rfl, rfl, rfl⟩⟩
        · rw [List.length_take]
          omega
        · have htail : (rest.drop bufsz).length = 1 + if r.mode then 1 else 0 := by
            rw [List.length_drop]
            omega
          have htake : (rest.take bufsz).length = bufsz := by
            rw [List.length_take]
            omega
          rw [← List.take_append_drop bufsz rest] at hcheck
          have htrailer := (check_iff htake htail).mp hcheck
          have hheader : (if (rest.take bufsz).length = 128 then SOH else STX) = c := by
            rw [htake]
            rcases hsize with ⟨rfl, rfl⟩ | ⟨rfl, rfl⟩ <;> rfl
          have hm : ~~~n = m := by rw [hcomplement, UInt8.not_not]
          have hpacketno : r.packetno = n := hnumber.symm
          have hencode : Packet.encode ⟨rest.take bufsz, by rw [List.length_take]; omega⟩ r.mode r.packetno =
              c :: n :: m :: rest := by
            simp only [Packet.encode, hheader, hpacketno, hm, ← htrailer, List.take_append_drop]
          change (Packet.encode _ r.mode r.packetno).map some ++ port.input = _
          rw [hencode, hinput]
          rfl
      · exact ⟨hport, rfl, rfl, Or.inl ⟨rfl, rfl, rfl, rfl⟩⟩
    · cases hpass
      exact ⟨(SerialPort.flushinput_suffix _).trans hport, rfl, rfl, Or.inl ⟨rfl, rfl, rfl, rfl⟩⟩

/-- What a pass that goes on does. -/
theorem pass_again {r after : Receiver} (hpass : r.pass = .again after) :
    Goes r after ∧ (Kept r after ∨ ∃ p, Taken r after p) := by
  have hsuffix := SerialPort.sync_suffix r.trychar 16 r.serialPort
  rw [pass] at hpass
  split at hpass
  · rename_i c bufsz port heq
    rw [heq] at hsuffix
    obtain ⟨hheader, hsize⟩ := SerialPort.sync_start heq
    obtain ⟨hport, htrychar, hcrc, hcases⟩ := start_recv_again hsize hpass
    have hshorter := hport.length_le
    have hheaderLength := hheader.length_le
    rw [List.length_cons] at hheaderLength
    refine ⟨⟨hport.trans hsuffix, ?_, ?_, fun _ => htrychar⟩, ?_⟩
    · have hne : (0 : UInt8) ≠ 0x43 := by decide
      simp only [remaining, htrychar, if_neg hne]
      simp only at hshorter
      omega
    · intro hstarted
      simp [hcrc, mode, hstarted]
    · rcases hcases with ⟨hfile, hheld, hpacketno, hlen⟩ | ⟨p, hread, hfile, hheld, hpacketno, hlen⟩
      · exact Or.inl ⟨hfile, hheld, hpacketno, hlen⟩
      · refine Or.inr ⟨p, ⟨?_, hfile, hheld, hpacketno, hlen, htrychar⟩⟩
        simp only at hread
        rw [hread]
        exact hheader
  · cases hpass
  · cases hpass
  · rename_i port heq
    rw [heq] at hsuffix
    split at hpass
    · rename_i htrychar
      cases hpass
      refine ⟨⟨hsuffix, ?_, fun hne => absurd htrychar hne, ?_⟩, Or.inl ⟨rfl, rfl, rfl, rfl⟩⟩
      · have hne : NAK ≠ 0x43 := by decide
        have hlength := hsuffix.length_le
        simp only [remaining, htrychar, if_neg hne, if_true]
        simp only at hlength
        omega
      · intro hzero
        rw [hzero] at htrychar
        exact absurd htrychar (by decide)
    · cases hpass

/-- The pass from `start_recv` on, when the rest of an intact packet is there. -/
theorem start_recv_packet {r : Receiver} {p : Packet} {number : UInt8} {rest : List (Option UInt8)} {sent : Bytes}
    (c : UInt8)
    (hport : r.serialPort = ⟨(number :: ~~~number :: (p.payload ++ trailer r.mode p.payload)).map some ++ rest, sent⟩) :
    r.start_recv c p.payload.length =
      if r.expected number then
        accept { r with crc := r.mode, trychar := 0, serialPort := { input := rest, sent } } number p.payload
      else reject { r with crc := r.mode, trychar := 0, serialPort := { input := rest, sent } } := by
  have hlength : (number :: ~~~number :: (p.payload ++ trailer r.mode p.payload)).length =
      p.payload.length + (if r.mode then 1 else 0) + 3 := by
    simp only [List.length_cons, List.length_append, trailer_length]
    omega
  have hread := SerialPort.read_append (number :: ~~~number :: (p.payload ++ trailer r.mode p.payload)) rest sent
  rw [hlength, ← hport] at hread
  have hcheck : check r.mode (p.payload ++ trailer r.mode p.payload) p.payload.length = true :=
    (check_iff rfl (trailer_length _ _)).mpr rfl
  have hpayload : (p.payload ++ trailer r.mode p.payload).take p.payload.length = p.payload := by simp
  rw [start_recv_read hread, UInt8.not_not, hcheck, hpayload]
  simp only [decide_true, Bool.true_and, Bool.and_true]

/-- An intact packet under the number comes up: the loop over `retry` stops at its header
byte. `rest` is what comes behind it. -/
def Arrives (r : Receiver) (p : Packet) (number : UInt8) (rest : List (Option UInt8)) (sent : Bytes) : Prop :=
  ∃ c bufsz port, r.serialPort.sync r.trychar 16 = (.start_recv c bufsz, port) ∧
    some c :: port.input = (p.encode r.mode number).map some ++ rest ∧ port.sent = sent

/-- A packet that is there comes up. -/
theorem arrives_of_input {r : Receiver} {p : Packet} {number : UInt8} {rest : List (Option UInt8)}
    (hinput : r.serialPort.input = (p.encode r.mode number).map some ++ rest) :
    r.Arrives p number rest (if r.trychar ≠ 0 then r.serialPort.sent ++ [r.trychar] else r.serialPort.sent) := by
  have hport : r.serialPort =
      { input := some (if p.payload.length = 128 then SOH else STX) ::
          ((number :: ~~~number :: (p.payload ++ trailer r.mode p.payload)).map some ++ rest),
        sent := r.serialPort.sent } := by
    rw [← List.cons_append, ← List.map_cons]
    change _ = SerialPort.mk ((p.encode r.mode number).map some ++ rest) r.serialPort.sent
    rw [← hinput]
  have hsync := SerialPort.sync_header (p := p) r.trychar
    ((number :: ~~~number :: (p.payload ++ trailer r.mode p.payload)).map some ++ rest) r.serialPort.sent
  rw [← hport] at hsync
  exact ⟨_, _, _, hsync, rfl, rfl⟩

/-- An intact packet that comes up is judged by its number alone. -/
theorem pass_of_arrives {r : Receiver} {p : Packet} {number : UInt8} {rest : List (Option UInt8)} {sent : Bytes}
    (harrives : r.Arrives p number rest sent) :
    r.pass =
      if r.expected number then
        accept { r with crc := r.mode, trychar := 0, serialPort := { input := rest, sent } } number p.payload
      else reject { r with crc := r.mode, trychar := 0, serialPort := { input := rest, sent } } := by
  obtain ⟨c, bufsz, port, hsync, hinput, rfl⟩ := harrives
  obtain ⟨-, hsize⟩ := SerialPort.sync_start hsync
  simp only [Packet.encode, List.map_cons, List.cons_append, List.cons.injEq, Option.some.injEq] at hinput
  obtain ⟨hc, hinput⟩ := hinput
  have hbufsz : bufsz = p.payload.length := by
    have hne : STX ≠ SOH := by decide
    rcases p.size with hlength | hlength
    · rw [if_pos hlength] at hc
      rcases hsize with ⟨-, rfl⟩ | ⟨hstx, -⟩
      · exact hlength.symm
      · exact absurd (hstx.symm.trans hc) hne
    · rw [if_neg (by omega)] at hc
      rcases hsize with ⟨hsoh, -⟩ | ⟨-, rfl⟩
      · exact absurd (hc.symm.trans hsoh) hne
      · exact hlength.symm
  subst hbufsz
  rw [pass, hsync]
  apply start_recv_packet
  obtain ⟨input, sent⟩ := port
  simp only at hinput
  rw [hinput]
  rfl

end Receiver

end DuneWeaver.Xmodem
