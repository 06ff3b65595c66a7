import DuneWeaver.Bytes
import Mathlib.Algebra.GroupWithZero.Nat
import Mathlib.Data.List.Infix

namespace DuneWeaver.Spindles.VFD

/-- The loop over the bits of a byte takes one off. -/
def crcBit (crc : UInt16) : UInt16 := if crc &&& 1 ≠ 0 then (crc >>> 1) ^^^ 0xA001 else crc >>> 1

def crcByte (crc : UInt16) (b : UInt8) : UInt16 :=
  let crc := crc ^^^ b.toUInt16
  crcBit (crcBit (crcBit (crcBit (crcBit (crcBit (crcBit (crcBit crc)))))))

def ModRTU_CRC (buf : Bytes) (msg_len : Nat) : UInt16 := (buf.take msg_len).foldl crcByte 0xFFFF

/-- What is written over a part of a buffer. -/
def overwrite (buffer : Bytes) (offset : Nat) (piece : Bytes) : Bytes :=
  buffer.take offset ++ piece ++ buffer.drop (offset + piece.length)

/-- What the UART delivers behind a request, and how many bytes each read gets of it at most. Behind the last of them
a read gets nothing in time. -/
structure Delivery where
  bytes : Bytes
  cuts : List Nat

/-- A command that waits for a reply. Its length does not count the two bytes of the CRC. -/
structure ModbusCommand where
  critical : Bool
  modbus_id : UInt8
  rx_length : Nat

namespace ModbusCommand

variable (cmd : ModbusCommand)

def fullLength : Nat := cmd.rx_length + 2

/-- The loop that tries to read more of the reply. -/
@[grind =] def readMore (rx_message : Bytes) (read_length current_read : Nat) (bytes : Bytes) : List Nat → Bytes × Nat
  | [] => (rx_message, read_length)
  | cut :: cuts =>
    if read_length < cmd.fullLength ∧ current_read > 0 then
      let piece := bytes.take (min cut (cmd.fullLength - read_length))
      readMore (overwrite rx_message read_length piece) (read_length + piece.length) piece.length
        (bytes.drop piece.length) cuts
    else (rx_message, read_length)

/-- The first read of a reply, and what the workaround makes of it. -/
def readFirst (rx_message : Bytes) (piece : Bytes) : Bytes :=
  let rx_message := overwrite rx_message 0 piece
  if piece.length > 0 ∧ cmd.modbus_id ≠ 0 ∧ rx_message.head? = some 0 then
    overwrite rx_message 1 (rx_message.take (piece.length - 1))
  else rx_message

/-- All reads of a try: the buffer, and how many bytes were read into it. -/
def read (rx_message : Bytes) (uart : Delivery) : Bytes × Nat :=
  let piece := uart.bytes.take (min (uart.cuts.headD 0) cmd.fullLength)
  cmd.readMore (cmd.readFirst rx_message piece) piece.length piece.length (uart.bytes.drop piece.length) uart.cuts.tail

/-- A try: the reply that is accepted, if one is, and the buffer. -/
def exchange (rx_message : Bytes) (uart : Delivery) : Option Bytes × Bytes :=
  let (rx_message, read_length) := cmd.read rx_message uart
  let crc16response := ModRTU_CRC rx_message (cmd.fullLength - 2)
  if read_length = cmd.fullLength ∧ rx_message[0]? = some cmd.modbus_id ∧
      rx_message[read_length - 1]? = some (crc16response >>> 8).toUInt8 ∧
      rx_message[read_length - 2]? = some crc16response.toUInt8 then
    (some (rx_message.take read_length), rx_message)
  else (none, rx_message)

/-- The tries of a request: the reply, and whether the alarm is raised. -/
@[grind =] def request (rx_message : Bytes) : List Delivery → Option Bytes × Bool
  | [] => (none, cmd.critical)
  | uart :: tries =>
    match cmd.exchange rx_message uart with
    | (some reply, _) => (some reply, false)
    | (none, rx_message) => request rx_message tries

end ModbusCommand

/-- The bytes of a message, with its CRC behind them. -/
def withCRC (message : Bytes) : Bytes :=
  let crc := ModRTU_CRC message message.length
  message ++ [crc.toUInt8, (crc >>> 8).toUInt8]

/-- A reply to a command: it has the length that is expected, begins with the id and ends with the CRC. -/
def ModbusCommand.Reply (cmd : ModbusCommand) (frame : Bytes) : Prop :=
  frame.head? = some cmd.modbus_id ∧ ∃ message, message.length = cmd.rx_length ∧ frame = withCRC message

/-- All bytes are read in time: no read comes back empty, and there are enough of them. -/
structure Delivery.Arrives (uart : Delivery) : Prop where
  nonempty : ∀ cut ∈ uart.cuts, 0 < cut
  enough : uart.bytes.length ≤ uart.cuts.sum

namespace ModbusCommand

/-- A try accepts only replies, those that arrive alone, and those that arrive behind a zero. -/
structure Accepts (cmd : ModbusCommand) (rx_message : Bytes) (uart : Delivery) : Prop where
  sound : ∀ frame, (cmd.exchange rx_message uart).1 = some frame → cmd.Reply frame ∧ frame <:+: uart.bytes
  alone : uart.Arrives → cmd.Reply uart.bytes → (cmd.exchange rx_message uart).1 = some uart.bytes
  behindZero : ∀ frame, uart.Arrives → uart.bytes = 0 :: frame → cmd.Reply frame →
    (cmd.exchange rx_message uart).1 = some frame

/-- A critical request raises the alarm if no try of it received a reply. -/
def Alarms (cmd : ModbusCommand) (rx_message : Bytes) (tries : List Delivery) : Prop :=
  cmd.critical = true → (∀ uart ∈ tries, ∀ frame, frame <:+: uart.bytes → ¬ cmd.Reply frame) →
    (cmd.request rx_message tries).2 = true

/-- A reply arrives behind a stray zero. -/
def StrayZero (cmd : ModbusCommand) (uart : Delivery) : Prop :=
  uart.Arrives ∧ ∃ frame, uart.bytes = 0 :: frame ∧ cmd.Reply frame

end ModbusCommand

section Crc

theorem crcBit_ne_zero {crc : UInt16} (h : crc ≠ 0) : crcBit crc ≠ 0 := by
  have hshift : (crc >>> 1).toNat = crc.toNat / 2 := by
    rw [UInt16.toNat_shiftRight]
    rfl
  have hlt := crc.toNat_lt
  unfold crcBit
  by_cases hodd : crc &&& 1 ≠ 0
  · rw [if_pos hodd]
    intro hzero
    have htop := congrArg UInt16.toNat (UInt16.xor_eq_zero_iff.mp hzero)
    rw [hshift] at htop
    have hpoly : (0xA001 : UInt16).toNat = 40961 := rfl
    omega
  · rw [if_neg hodd]
    intro hzero
    have heven := congrArg UInt16.toNat (not_not.mp hodd)
    rw [UInt16.toNat_and] at heven
    have hlow : crc.toNat &&& (1 : UInt16).toNat = crc.toNat % 2 := Nat.and_one_is_mod _
    have hhalf := congrArg UInt16.toNat hzero
    rw [hshift] at hhalf
    rw [hlow] at heven
    have hz : (0 : UInt16).toNat = 0 := rfl
    exact h (UInt16.toNat_inj.mp (by omega))

theorem crcByte_zero_ne_zero {crc : UInt16} (h : crc ≠ 0) : crcByte crc 0 ≠ 0 := by
  have hxor : crc ^^^ (0 : UInt8).toUInt16 = crc := UInt16.xor_zero
  unfold crcByte
  rw [hxor]
  exact crcBit_ne_zero (crcBit_ne_zero (crcBit_ne_zero (crcBit_ne_zero (crcBit_ne_zero (crcBit_ne_zero
    (crcBit_ne_zero (crcBit_ne_zero h)))))))

/-- A zero never takes the register to zero, so that the CRC of zeros is none. -/
theorem foldl_crc_ne_zero {message : Bytes} (hzero : ∀ c ∈ message, c = 0) {crc : UInt16} (h : crc ≠ 0) :
    message.foldl crcByte crc ≠ 0 := by
  induction message generalizing crc with
  | nil => exact h
  | cons c message ih =>
    have hc := hzero c List.mem_cons_self
    subst hc
    exact ih (fun c hc => hzero c (List.mem_cons_of_mem _ hc)) (crcByte_zero_ne_zero h)

theorem eq_zero_of_bytes {crc : UInt16} (hlow : crc.toUInt8 = 0) (hhigh : (crc >>> 8).toUInt8 = 0) : crc = 0 := by
  have hlt := crc.toNat_lt
  have hl := congrArg UInt8.toNat hlow
  have hh := congrArg UInt8.toNat hhigh
  rw [UInt16.toNat_toUInt8] at hl hh
  have hshift : (crc >>> 8).toNat = crc.toNat / 256 := by
    rw [UInt16.toNat_shiftRight]
    exact Nat.shiftRight_eq_div_pow _ _
  rw [hshift] at hh
  have hz : (0 : UInt8).toNat = 0 := rfl
  exact UInt16.toNat_inj.mp (show crc.toNat = (0 : UInt16).toNat by
    have hz' : (0 : UInt16).toNat = 0 := rfl
    omega)

/-- No message of zeros ends with its CRC. -/
theorem withCRC_not_zeros (message : Bytes) : ¬ ∀ c ∈ withCRC message, c = 0 := by
  intro h
  have hmessage : ∀ c ∈ message, c = 0 := fun c hc => h c (List.mem_append_left _ hc)
  refine foldl_crc_ne_zero hmessage (show (0xFFFF : UInt16) ≠ 0 by decide) ?_
  have hcrc : ModRTU_CRC message message.length = message.foldl crcByte 0xFFFF := by
    rw [ModRTU_CRC, List.take_length]
  rw [← hcrc]
  exact eq_zero_of_bytes (h _ (by simp [withCRC])) (h _ (by simp [withCRC]))

end Crc

section Buffer

variable {buffer : Bytes} {offset : Nat}

/-- A piece that is written at the end of what is there goes on with it. -/
theorem take_overwrite (piece : Bytes) (hoffset : offset ≤ buffer.length) :
    (overwrite buffer offset piece).take (offset + piece.length) = buffer.take offset ++ piece := by
  have hlength : (buffer.take offset ++ piece).length = offset + piece.length := by
    rw [List.length_append, List.length_take, min_eq_left hoffset]
  rw [overwrite, ← hlength, List.take_left']
  rfl

theorem le_length_overwrite (piece : Bytes) (hoffset : offset ≤ buffer.length) :
    offset + piece.length ≤ (overwrite buffer offset piece).length := by
  rw [overwrite, List.length_append, List.length_append, List.length_take, min_eq_left hoffset]
  omega

end Buffer

namespace ModbusCommand

variable {cmd : ModbusCommand} {rx_message bytes : Bytes} {read_length current_read : Nat} {uart : Delivery}

theorem reads_nothing (hroom : read_length ≤ rx_message.length) (hfull : read_length ≤ cmd.fullLength) :
    ∃ k, read_length = read_length + k ∧
      rx_message.take (read_length + k) = rx_message.take read_length ++ bytes.take k ∧
      read_length + k ≤ rx_message.length ∧ read_length + k ≤ cmd.fullLength :=
  ⟨0, rfl, by rw [List.take_zero, List.append_nil, Nat.add_zero], hroom, hfull⟩

/-- The reads go on with the bytes in their order, and stop where the reply should end. -/
theorem readMore_spec (current_read : Nat) (bytes : Bytes) (cuts : List Nat) (hroom : read_length ≤ rx_message.length)
    (hfull : read_length ≤ cmd.fullLength) :
    ∃ k, (cmd.readMore rx_message read_length current_read bytes cuts).2 = read_length + k ∧
      (cmd.readMore rx_message read_length current_read bytes cuts).1.take (read_length + k) =
        rx_message.take read_length ++ bytes.take k ∧
      read_length + k ≤ (cmd.readMore rx_message read_length current_read bytes cuts).1.length ∧
      read_length + k ≤ cmd.fullLength := by
  induction cuts generalizing rx_message read_length current_read bytes with
  | nil => exact reads_nothing hroom hfull
  | cons cut cuts ih =>
    rw [readMore]
    by_cases hmore : read_length < cmd.fullLength ∧ current_read > 0
    · rw [if_pos hmore]
      dsimp only
      generalize hpiece : bytes.take (min cut (cmd.fullLength - read_length)) = piece
      have hlength : piece.length ≤ cmd.fullLength - read_length := by
        rw [← hpiece, List.length_take]
        omega
      have hfull' : read_length + piece.length ≤ cmd.fullLength := by omega
      have hroom' := le_length_overwrite piece hroom
      obtain ⟨k, hcount, htaken, hfits, hend⟩ :=
        ih piece.length (bytes.drop piece.length) hroom' hfull'
      have hbegins : piece = bytes.take piece.length := by
        rw [← hpiece, List.length_take, List.take_eq_take_iff]
        omega
      refine ⟨piece.length + k, by rw [hcount, Nat.add_assoc], ?_, by rwa [← Nat.add_assoc], by omega⟩
      rw [← Nat.add_assoc, htaken, take_overwrite piece hroom, List.append_assoc, List.take_add, ← hbegins]
    · rw [if_neg hmore]
      exact reads_nothing hroom hfull

theorem readMore_full (cuts : List Nat) :
    (cmd.readMore rx_message cmd.fullLength current_read bytes cuts).2 = cmd.fullLength := by
  cases cuts with
  | nil => rfl
  | cons cut cuts => rw [readMore, if_neg fun h => absurd h.1 (lt_irrefl _)]

/-- What arrives in time is read until the reply should end. -/
theorem readMore_arrives (cuts : List Nat) (hcuts : ∀ cut ∈ cuts, 0 < cut) (hsum : bytes.length ≤ cuts.sum)
    (hcurrent : 0 < current_read ∨ bytes = []) (hfull : read_length ≤ cmd.fullLength) :
    (cmd.readMore rx_message read_length current_read bytes cuts).2 =
      min (read_length + bytes.length) cmd.fullLength := by
  induction cuts generalizing rx_message read_length current_read bytes with
  | nil =>
    have hnil : bytes.length = 0 := by simpa using hsum
    rw [readMore, hnil, Nat.add_zero, min_eq_left hfull]
  | cons cut cuts ih =>
    have hcut := hcuts cut List.mem_cons_self
    have hrest : ∀ cut ∈ cuts, 0 < cut := fun c hc => hcuts c (List.mem_cons_of_mem _ hc)
    rw [List.sum_cons] at hsum
    by_cases hend : read_length = cmd.fullLength
    · rw [hend, readMore_full]
      omega
    · by_cases hmore : read_length < cmd.fullLength ∧ current_read > 0
      · rw [readMore, if_pos hmore]
        dsimp only
        have hlength : (bytes.take (min cut (cmd.fullLength - read_length))).length =
            min (min cut (cmd.fullLength - read_length)) bytes.length := List.length_take
        generalize bytes.take (min cut (cmd.fullLength - read_length)) = piece at hlength ⊢
        by_cases hall : read_length + piece.length = cmd.fullLength
        · rw [hall, readMore_full]
          omega
        · rw [ih hrest (by rw [List.length_drop]; omega) ?_ (by omega), List.length_drop]
          · omega
          · by_cases hnil : bytes = []
            · exact .inr (by rw [hnil, List.drop_nil])
            · have hpos := List.length_pos_iff.mpr hnil
              exact .inl (by omega)
      · have hnil : bytes = [] := hcurrent.resolve_left fun h => hmore ⟨by omega, h⟩
        rw [readMore, if_neg hmore, hnil, List.length_nil, Nat.add_zero, min_eq_left hfull]

/-- The workaround moves the bytes the other way, and leaves the zero where it is. -/
theorem readFirst_zero (rx_message : Bytes) {piece : Bytes} (hpiece : 0 < piece.length) (hid : cmd.modbus_id ≠ 0)
    (hzero : piece.head? = some 0) :
    (cmd.readFirst rx_message piece).head? = some 0 ∧ piece.length ≤ (cmd.readFirst rx_message piece).length := by
  obtain ⟨c, rest, rfl⟩ := List.exists_cons_of_length_pos hpiece
  have hbuffer : overwrite rx_message 0 (c :: rest) = c :: (rest ++ rx_message.drop (rest.length + 1)) := by
    rw [overwrite, List.take_zero, List.nil_append, Nat.zero_add, List.length_cons, List.cons_append]
  have hhead : (overwrite rx_message 0 (c :: rest)).head? = some 0 := by rwa [hbuffer]
  rw [readFirst]
  rw [if_pos ⟨hpiece, hid, hhead⟩, hbuffer, overwrite]
  constructor
  · rw [List.take_succ_cons, List.take_zero]
    simpa using hzero
  · simp only [List.length_append, List.length_take, List.length_drop, List.length_cons]
    omega

theorem readFirst_plain {piece : Bytes} (h : ¬ (0 < piece.length ∧ cmd.modbus_id ≠ 0 ∧ piece.head? = some 0)) :
    cmd.readFirst rx_message piece = overwrite rx_message 0 piece := by
  rw [readFirst]
  refine if_neg fun hworkaround => h ⟨hworkaround.1, hworkaround.2.1, ?_⟩
  obtain ⟨c, rest, rfl⟩ := List.exists_cons_of_length_pos hworkaround.1
  exact hworkaround.2.2

/-- Without the workaround the buffer begins with the bytes in their order. With it, it begins with a zero as
they do. -/
theorem read_spec (cmd : ModbusCommand) (rx_message : Bytes) (uart : Delivery) :
    (cmd.read rx_message uart).2 ≤ cmd.fullLength ∧
      (cmd.read rx_message uart).2 ≤ (cmd.read rx_message uart).1.length ∧
      ((cmd.read rx_message uart).1.take (cmd.read rx_message uart).2 = uart.bytes.take (cmd.read rx_message uart).2 ∨
        cmd.modbus_id ≠ 0 ∧ uart.bytes.head? = some 0 ∧ (cmd.read rx_message uart).1.head? = some 0) := by
  rw [read]
  generalize hpiece : uart.bytes.take (min (uart.cuts.headD 0) cmd.fullLength) = piece
  have hfull : piece.length ≤ cmd.fullLength := by
    rw [← hpiece, List.length_take]
    omega
  have hbegins : piece = uart.bytes.take piece.length := by
    rw [← hpiece, List.length_take, List.take_eq_take_iff]
    omega
  by_cases hworkaround : 0 < piece.length ∧ cmd.modbus_id ≠ 0 ∧ piece.head? = some 0
  · obtain ⟨hpos, hid, hzero⟩ := hworkaround
    obtain ⟨hhead, hroom⟩ := readFirst_zero rx_message hpos hid hzero
    obtain ⟨k, hcount, htaken, hfits, hend⟩ := readMore_spec piece.length
      (uart.bytes.drop piece.length) uart.cuts.tail hroom hfull
    have hbytes : uart.bytes.head? = some 0 := by
      rwa [hbegins, List.head?_take, if_neg (by omega)] at hzero
    refine ⟨hcount ▸ hend, hcount ▸ hfits, .inr ⟨hid, hbytes, ?_⟩⟩
    have hfirst := congrArg List.head? htaken
    rwa [List.head?_take, if_neg (by omega), List.head?_append, List.head?_take, if_neg (by omega), hhead] at hfirst
  · rw [readFirst_plain hworkaround]
    have hroom : piece.length ≤ (overwrite rx_message 0 piece).length := by
      simpa using le_length_overwrite piece (Nat.zero_le rx_message.length)
    obtain ⟨k, hcount, htaken, hfits, hend⟩ := readMore_spec piece.length
      (uart.bytes.drop piece.length) uart.cuts.tail hroom hfull
    refine ⟨hcount ▸ hend, hcount ▸ hfits, .inl ?_⟩
    have hfirst := take_overwrite piece (Nat.zero_le rx_message.length)
    rw [Nat.zero_add, List.take_zero, List.nil_append] at hfirst
    rw [hcount, htaken, hfirst, List.take_add, ← hbegins]

/-- All of a delivery that arrives is read, as far as the reply should go. -/
theorem read_arrives (rx_message : Bytes) (h : uart.Arrives) :
    (cmd.read rx_message uart).2 = min uart.bytes.length cmd.fullLength := by
  rw [read]
  have hlength : (uart.bytes.take (min (uart.cuts.headD 0) cmd.fullLength)).length =
      min (min (uart.cuts.headD 0) cmd.fullLength) uart.bytes.length := List.length_take
  generalize uart.bytes.take (min (uart.cuts.headD 0) cmd.fullLength) = piece at hlength ⊢
  obtain ⟨hnonempty, henough⟩ := h
  cases hcuts : uart.cuts with
  | nil =>
    rw [hcuts] at henough hlength
    have hnil : uart.bytes.length = 0 := by simpa using henough
    have hpiece : piece.length = 0 := by omega
    rw [List.tail_nil, readMore, hpiece, hnil, Nat.zero_min]
  | cons cut cuts =>
    rw [hcuts] at hnonempty henough hlength
    have hcut := hnonempty cut List.mem_cons_self
    rw [List.sum_cons] at henough
    rw [List.headD_cons] at hlength
    have hpos : 0 < cmd.fullLength := Nat.succ_pos _
    rw [List.tail_cons]
    by_cases hend : piece.length = cmd.fullLength
    · rw [hend, readMore_full]
      omega
    · rw [readMore_arrives cuts (fun c hc => hnonempty c (List.mem_cons_of_mem _ hc))
        (by rw [List.length_drop]; omega) ?_ (by omega), List.length_drop]
      · omega
      · by_cases hnil : uart.bytes = []
        · exact .inr (by rw [hnil, List.drop_nil])
        · have hbytes := List.length_pos_iff.mpr hnil
          exact .inl (by omega)

end ModbusCommand

namespace ModbusCommand

section Exchange

variable {cmd : ModbusCommand} {buffer rx_message frame : Bytes} {uart : Delivery}

/-- The checks of the address and the CRC are those of a reply at the front of the buffer. -/
theorem checks_iff (cmd : ModbusCommand) {buffer : Bytes} (hroom : cmd.fullLength ≤ buffer.length) :
    (buffer[0]? = some cmd.modbus_id ∧
      buffer[cmd.fullLength - 1]? = some (ModRTU_CRC buffer (cmd.fullLength - 2) >>> 8).toUInt8 ∧
      buffer[cmd.fullLength - 2]? = some (ModRTU_CRC buffer (cmd.fullLength - 2)).toUInt8) ↔
      cmd.Reply (buffer.take cmd.fullLength) := by
  have hfull : cmd.fullLength = cmd.rx_length + 1 + 1 := rfl
  have hlow : cmd.rx_length < buffer.length := by omega
  have hhigh : cmd.rx_length + 1 < buffer.length := by omega
  have hmessage : (buffer.take cmd.rx_length).length = cmd.rx_length := by
    rw [List.length_take]
    omega
  have hcrc : ModRTU_CRC buffer (cmd.fullLength - 2) =
      ModRTU_CRC (buffer.take cmd.rx_length) (buffer.take cmd.rx_length).length := by
    rw [ModRTU_CRC, ModRTU_CRC, List.take_length]
    rfl
  have hend : buffer.take cmd.fullLength =
      buffer.take cmd.rx_length ++ [buffer[cmd.rx_length], buffer[cmd.rx_length + 1]] := by
    rw [hfull, List.take_succ_eq_append_getElem hhigh, List.take_succ_eq_append_getElem hlow, List.append_assoc]
    rfl
  have hhead : (buffer.take cmd.fullLength).head? = buffer[0]? := by
    rw [List.head?_take, if_neg (by omega), List.head?_eq_getElem?]
  have hat : cmd.fullLength - 1 = cmd.rx_length + 1 := rfl
  have hat' : cmd.fullLength - 2 = cmd.rx_length := rfl
  rw [Reply, hhead, hcrc, hat, hat', List.getElem?_eq_getElem hlow, List.getElem?_eq_getElem hhigh,
    Option.some.injEq, Option.some.injEq]
  refine and_congr_right fun _ => ?_
  constructor
  · rintro ⟨hc, hd⟩
    exact ⟨buffer.take cmd.rx_length, hmessage, by rw [hend, withCRC, ← hc, ← hd]⟩
  · rintro ⟨message, hlength, hframe⟩
    rw [hend, withCRC] at hframe
    obtain ⟨rfl, hpair⟩ := List.append_inj hframe (by rw [hmessage, hlength])
    obtain ⟨hd, hpair⟩ := List.cons.inj hpair
    exact ⟨(List.cons.inj hpair).1, hd⟩

/-- What is accepted is a reply at the front of the bytes. The zero that the workaround leaves is not the id. -/
theorem exchange_eq_some_iff : (cmd.exchange rx_message uart).1 = some frame ↔
    (cmd.read rx_message uart).2 = cmd.fullLength ∧ frame = uart.bytes.take cmd.fullLength ∧ cmd.Reply frame := by
  obtain ⟨-, hfits, hfront⟩ := read_spec cmd rx_message uart
  rw [exchange]
  cases hread : cmd.read rx_message uart with
  | mk buffer read_length =>
    rw [hread] at hfits hfront
    dsimp only at hfits hfront ⊢
    by_cases hall : read_length = cmd.fullLength
    · subst hall
      have hchecks := checks_iff cmd hfits
      by_cases hok : buffer[0]? = some cmd.modbus_id ∧
          buffer[cmd.fullLength - 1]? = some (ModRTU_CRC buffer (cmd.fullLength - 2) >>> 8).toUInt8 ∧
          buffer[cmd.fullLength - 2]? = some (ModRTU_CRC buffer (cmd.fullLength - 2)).toUInt8
      · have hreply := hchecks.mp hok
        rw [if_pos ⟨rfl, hok⟩]
        obtain htake | ⟨hid, -, hzero⟩ := hfront
        · rw [← htake, Option.some.injEq]
          constructor
          · rintro rfl
            exact ⟨rfl, rfl, hreply⟩
          · exact fun h => h.2.1.symm
        · rw [List.head?_eq_getElem?, hok.1] at hzero
          exact absurd (Option.some.inj hzero) hid
      · rw [if_neg fun h => hok h.2]
        constructor
        · intro h
          cases h
        · rintro ⟨-, rfl, hreply⟩
          obtain htake | ⟨hid, hzero, -⟩ := hfront
          · rw [← htake] at hreply
            exact absurd (hchecks.mpr hreply) hok
          · have hhead := hreply.1
            rw [List.head?_take, if_neg (show cmd.fullLength ≠ 0 from Nat.succ_ne_zero _), hzero] at hhead
            exact absurd (Option.some.inj hhead).symm hid
    · rw [if_neg fun h => hall h.1]
      constructor
      · intro h
        cases h
      · exact fun h => absurd h.1 hall

theorem Reply.length_eq (h : cmd.Reply frame) : frame.length = cmd.fullLength := by
  obtain ⟨-, message, hlength, rfl⟩ := h
  rw [withCRC, List.length_append, hlength]
  rfl

/-- Bytes that stay the same behind a zero are zeros. -/
theorem zeros_of_shifted {bytes : Bytes} (h : bytes = (0 :: bytes).take bytes.length) : ∀ c ∈ bytes, c = 0 := by
  induction bytes with
  | nil => exact fun c hc => absurd hc List.not_mem_nil
  | cons d bytes ih =>
    rw [List.length_cons, List.take_succ_cons] at h
    obtain ⟨rfl, hrest⟩ := List.cons.inj h
    intro c hc
    obtain rfl | hc := List.mem_cons.mp hc
    · rfl
    · exact ih hrest c hc

/-- A reply behind a zero is not accepted. -/
theorem strayZero_not_accepted (hbytes : uart.bytes = 0 :: frame) (hreply : cmd.Reply frame) :
    (cmd.exchange rx_message uart).1 ≠ some frame := by
  intro haccepted
  obtain ⟨-, hfront, -⟩ := exchange_eq_some_iff.mp haccepted
  rw [hbytes, ← hreply.length_eq] at hfront
  obtain ⟨-, message, -, rfl⟩ := hreply
  exact withCRC_not_zeros message (zeros_of_shifted hfront)

/-- A try does all that it should exactly if no reply arrives behind a zero. -/
theorem accepts_iff (cmd : ModbusCommand) (rx_message : Bytes) (uart : Delivery) :
    cmd.Accepts rx_message uart ↔ ¬ cmd.StrayZero uart := by
  constructor
  · rintro h ⟨harrives, frame, hbytes, hreply⟩
    exact strayZero_not_accepted hbytes hreply (h.behindZero frame harrives hbytes hreply)
  · intro hzero
    refine ⟨fun frame haccepted => ?_, fun harrives hreply => ?_, fun frame harrives hbytes hreply => ?_⟩
    · obtain ⟨-, rfl, hreply⟩ := exchange_eq_some_iff.mp haccepted
      exact ⟨hreply, (List.take_prefix _ _).isInfix⟩
    · refine exchange_eq_some_iff.mpr ⟨?_, ?_, hreply⟩
      · rw [read_arrives rx_message harrives, hreply.length_eq, min_self]
      · rw [← hreply.length_eq, List.take_length]
    · exact absurd ⟨harrives, frame, hbytes, hreply⟩ hzero

/-- Without a reply all tries are made, and a critical request raises the alarm. -/
theorem alarms (cmd : ModbusCommand) (rx_message : Bytes) (tries : List Delivery) : cmd.Alarms rx_message tries := by
  intro hcritical hnone
  induction tries generalizing rx_message with
  | nil => exact hcritical
  | cons uart tries ih =>
    have hrest : ∀ u ∈ tries, ∀ frame, frame <:+: u.bytes → ¬ cmd.Reply frame :=
      fun u hu => hnone u (List.mem_cons_of_mem _ hu)
    rw [request]
    cases hexchange : cmd.exchange rx_message uart with
    | mk reply buffer =>
      cases reply with
      | none => exact ih buffer hrest
      | some frame =>
        obtain ⟨-, rfl, hreply⟩ := exchange_eq_some_iff.mp (congrArg Prod.fst hexchange)
        exact absurd hreply (hnone uart List.mem_cons_self _ (List.take_prefix _ _).isInfix)

end Exchange

/-- Only replies are accepted, all of those that arrive are, and a critical request without one raises the alarm,
exactly if no reply arrives behind a stray zero. -/
theorem replies_accepted_iff (cmd : ModbusCommand) (rx_message : Bytes) (uart : Delivery) (tries : List Delivery) :
    cmd.Accepts rx_message uart ∧ cmd.Alarms rx_message tries ↔ ¬ cmd.StrayZero uart := by
  rw [accepts_iff, and_iff_left (alarms cmd rx_message tries)]

/-- The reply to a command of the spindle with the id 1, behind a zero. -/
theorem stray_zero_is_fatal : ¬ (ModbusCommand.mk true 1 4).Accepts (List.replicate 16 0)
    ⟨0 :: withCRC [1, 3, 1, 0], [7]⟩ := by
  rw [accepts_iff]
  exact not_not_intro ⟨⟨by decide, by decide⟩, withCRC [1, 3, 1, 0], rfl, by decide, [1, 3, 1, 0], rfl, rfl⟩

end ModbusCommand

end DuneWeaver.Spindles.VFD
