import DuneWeaver.Xmodem.Numbering

namespace DuneWeaver.Xmodem

/-- Where the loop over `retry` that waits for a receiver ends. -/
inductive Start where
  | start_trans (crc : Bool)
  | canceled
  | no_sync
  deriving DecidableEq

/-- What the receiver makes of a packet that has been sent often enough. -/
inductive Reply where
  | acknowledged
  | canceled
  | xmit_error
  deriving DecidableEq

namespace SerialPort

/-- `_outbytes`. -/
def outbytes (port : SerialPort) (buf : Bytes) : SerialPort := { port with sent := port.sent ++ buf }

def cancel (port : SerialPort) : SerialPort := ((port.outbyte CAN).outbyte CAN).outbyte CAN

/-- The loop over `retry` before the first packet, with the rounds that are left. -/
def start : Nat → SerialPort → Start × SerialPort
  | 0, port => (.no_sync, port)
  | retry + 1, port =>
    match port.inbyte with
    | (none, port) => port.start retry
    | (some c, port) =>
      if c = 0x43 then (.start_trans true, port)
      else if c = NAK then (.start_trans false, port)
      else if c = CAN then
        match port.inbyte with
        | (none, port) => port.start retry
        | (some c, port) => if c = CAN then (.canceled, port) else port.start retry
      else port.start retry

/-- The loop over `retry` that sends a packet, with the rounds that are left. -/
def transmit (xbuff : Bytes) : Nat → SerialPort → Reply × SerialPort
  | 0, port => (.xmit_error, port)
  | retry + 1, port =>
    match (port.outbytes xbuff).inbyte with
    | (none, port) => port.transmit xbuff retry
    | (some c, port) =>
      if c = ACK then (.acknowledged, port)
      else if c = CAN then
        match port.inbyte with
        | (none, port) => port.transmit xbuff retry
        | (some c, port) => if c = CAN then (.canceled, port) else port.transmit xbuff retry
      else port.transmit xbuff retry

/-- The loop over `retry` behind the last packet: whether the end was acknowledged. -/
def finish : Nat → SerialPort → Bool × SerialPort
  | 0, port => (false, port)
  | retry + 1, port =>
    match (port.outbyte EOT).inbyte with
    | (none, port) => port.finish retry
    | (some c, port) => if c = ACK then (true, port) else port.finish retry

end SerialPort

/-- The variables of `xmodemTransmit`, with the port and what has not been read of
the file. The file is shorter than 2 ^ 31 bytes, so that `len` fits the `int`
that is returned. -/
structure Sender where
  serialPort : SerialPort
  infile : Bytes
  crc : Bool
  packetno : UInt8 := 1
  len : Nat := 0
  deriving DecidableEq

/-- The bytes of a packet, the last one of the file filled up. -/
def pad (buf : Bytes) : Bytes := buf ++ List.replicate (1024 - buf.length) CTRLZ

namespace Sender

/-- `xbuff`, as far as it is sent. -/
def xbuff (s : Sender) (buf : Bytes) : Bytes :=
  [STX, s.packetno, ~~~s.packetno] ++ pad buf ++
    if s.crc then
      let ccrc := crc16_ccitt (pad buf)
      [((ccrc >>> 8) &&& 0xFF).toUInt8, (ccrc &&& 0xFF).toUInt8]
    else [(pad buf).foldl (fun ccks c => ccks + c) 0]

/-- One pass of the inner loop goes on, or returns. -/
inductive Pass where
  | again (s : Sender)
  | done (status : Int) (s : Sender)
  deriving DecidableEq

/-- One pass of the inner loop of `xmodemTransmit`: a packet, or the end of the file. -/
def pass (s : Sender) : Pass :=
  let buf := s.infile.take 1024
  if buf.length > 0 then
    match s.serialPort.transmit (s.xbuff buf) 25 with
    | (.acknowledged, port) =>
      .again
        { s with serialPort := port, infile := s.infile.drop 1024, packetno := s.packetno + 1, len := s.len + 1024 }
    | (.canceled, port) =>
      .done (-1) { s with serialPort := (port.outbyte ACK).flushinput, infile := s.infile.drop 1024 }
    | (.xmit_error, port) => .done (-4) { s with serialPort := port.cancel.flushinput, infile := s.infile.drop 1024 }
  else
    match s.serialPort.finish 10 with
    | (true, port) => .done s.len { s with serialPort := port.flushinput }
    | (false, port) => .done (-5) { s with serialPort := port.flushinput }

/-- The inner loop, for at most `fuel` passes. -/
def run : Nat → Sender → Option (Int × Sender)
  | 0, _ => none
  | fuel + 1, s =>
    match s.pass with
    | .again s => run fuel s
    | .done status s => some (status, s)

end Sender

/-- `xmodemTransmit` on a file and a port: the status it returns, and the bytes that were sent. -/
def xmodemTransmit (infile : Bytes) (input : List (Option UInt8)) : Option (Int × Bytes) :=
  match SerialPort.start 16 { input } with
  | (.start_trans crc, port) =>
    (Sender.run (infile.length + 1) { serialPort := port, infile, crc }).map fun r => (r.1, r.2.serialPort.sent)
  | (.canceled, port) => some (-1, (port.outbyte ACK).flushinput.sent)
  | (.no_sync, port) => some (-2, port.cancel.flushinput.sent)

/-- The packets are those of a file, 1024 bytes each. -/
inductive Splits : Bytes → List Packet → Prop
  | nil : Splits [] []
  | cons {infile : Bytes} {packets : List Packet} (p : Packet) :
      infile ≠ [] → p.payload = pad (infile.take 1024) → Splits (infile.drop 1024) packets →
      Splits infile (p :: packets)

/-- The packets on the wire, each as often as it is sent. -/
def resent (crc : Bool) : Nat → List Packet → List Nat → Bytes
  | n, p :: packets, k :: repeats =>
    (List.replicate k (p.encode crc (UInt8.ofNat n))).flatten ++ resent crc (n + 1) packets repeats
  | _, _, _ => []

/-- What a sender that succeeds has put on the wire: the packets of the file, each at most 25 times, and
the end, at most 10 times. -/
structure Wire (infile : Bytes) (crc : Bool) (n : Nat) (packets : List Packet) (repeats : List Nat)
    (sent : Bytes) : Prop where
  splits : Splits infile packets
  length : repeats.length = packets.length
  often : ∀ k ∈ repeats, 1 ≤ k ∧ k ≤ 25
  sent : ∃ ends, 1 ≤ ends ∧ ends ≤ 10 ∧ sent = resent crc n packets repeats ++ List.replicate ends EOT

namespace SerialPort

theorem start_sent (retry : Nat) (port : SerialPort) : (port.start retry).2.sent = port.sent := by
  induction retry generalizing port with
  | zero => rfl
  | succ retry ih =>
    rw [start]
    split
    next after heq => rw [ih, inbyte_sent heq]
    next c after heq =>
      have hsent := inbyte_sent heq
      split_ifs
      · exact hsent
      · exact hsent
      · split
        next after' heq' => rw [ih, inbyte_sent heq', hsent]
        next c' after' heq' =>
          split_ifs
          · rw [inbyte_sent heq', hsent]
          · rw [ih, inbyte_sent heq', hsent]
      · rw [ih, hsent]

theorem transmit_sent {xbuff : Bytes} {retry : Nat} {port after : SerialPort} {reply : Reply}
    (h : port.transmit xbuff retry = (reply, after)) :
    ∃ k, k ≤ retry ∧ (reply = .acknowledged → 1 ≤ k) ∧ after.sent = port.sent ++ (List.replicate k xbuff).flatten := by
  induction retry generalizing port with
  | zero =>
    cases h
    exact ⟨0, le_refl 0, (by intro h; cases h), (List.append_nil _).symm⟩
  | succ retry ih =>
    have hagain : ∀ {port' : SerialPort}, port'.sent = port.sent ++ xbuff →
        port'.transmit xbuff retry = (reply, after) →
        ∃ k, k ≤ retry + 1 ∧ (reply = .acknowledged → 1 ≤ k) ∧
          after.sent = port.sent ++ (List.replicate k xbuff).flatten := by
      intro port' hport hrest
      obtain ⟨k, hk, -, hsent⟩ := ih hrest
      refine ⟨k + 1, by omega, fun _ => by omega, ?_⟩
      rw [hsent, hport, List.replicate_succ, List.flatten_cons, List.append_assoc]
    have hlast : after.sent = port.sent ++ xbuff → ∃ k, k ≤ retry + 1 ∧ (reply = .acknowledged → 1 ≤ k) ∧
        after.sent = port.sent ++ (List.replicate k xbuff).flatten := by
      intro hsent
      exact ⟨1, by omega, fun _ => le_refl 1, by rw [hsent]; simp⟩
    rw [transmit] at h
    split at h
    next port' heq => exact hagain (inbyte_sent heq) h
    next c port' heq =>
      have hsent : port'.sent = port.sent ++ xbuff := inbyte_sent heq
      split_ifs at h
      · cases h
        exact hlast hsent
      · split at h
        next port'' heq' => exact hagain ((inbyte_sent heq').trans hsent) h
        next c' port'' heq' =>
          split_ifs at h
          · cases h
            exact hlast ((inbyte_sent heq').trans hsent)
          · exact hagain ((inbyte_sent heq').trans hsent) h
      · exact hagain hsent h

theorem finish_sent {retry : Nat} {port after : SerialPort} {acknowledged : Bool}
    (h : port.finish retry = (acknowledged, after)) :
    ∃ k, k ≤ retry ∧ (acknowledged = true → 1 ≤ k) ∧ after.sent = port.sent ++ List.replicate k EOT := by
  induction retry generalizing port with
  | zero =>
    cases h
    exact ⟨0, le_refl 0, (by intro h; cases h), (List.append_nil _).symm⟩
  | succ retry ih =>
    have hagain : ∀ {port' : SerialPort}, port'.sent = port.sent ++ [EOT] → port'.finish retry = (acknowledged, after) →
        ∃ k, k ≤ retry + 1 ∧ (acknowledged = true → 1 ≤ k) ∧ after.sent = port.sent ++ List.replicate k EOT := by
      intro port' hport hrest
      obtain ⟨k, hk, -, hsent⟩ := ih hrest
      refine ⟨k + 1, by omega, fun _ => by omega, ?_⟩
      rw [hsent, hport, List.replicate_succ, List.append_assoc, List.singleton_append]
    rw [finish] at h
    split at h
    next port' heq => exact hagain (inbyte_sent heq) h
    next c port' heq =>
      split_ifs at h
      · cases h
        exact ⟨1, by omega, fun _ => le_refl 1, inbyte_sent heq⟩
      · exact hagain (inbyte_sent heq) h

end SerialPort

theorem pad_length {buf : Bytes} (h : buf.length ≤ 1024) : (pad buf).length = 1024 := by
  rw [pad, List.length_append, List.length_replicate]
  omega

/-- The sender puts the packet on the wire that a receiver expects. -/
theorem xbuff_eq (s : Sender) {buf : Bytes} {p : Packet} (hp : p.payload = pad buf) (hbuf : buf.length ≤ 1024) :
    s.xbuff buf = p.encode s.crc s.packetno := by
  have hlow : ∀ n : UInt16, (n &&& 0xFF).toUInt8 = n.toUInt8 := by
    intro n
    apply UInt8.toNat_inj.mp
    rw [UInt16.toNat_toUInt8, UInt16.toNat_toUInt8, UInt16.toNat_and, show (0xFF : UInt16).toNat = 2 ^ 8 - 1 from rfl,
      Nat.and_two_pow_sub_one_eq_mod, Nat.mod_mod]
  rw [Sender.xbuff, Packet.encode, hp, pad_length hbuf, if_neg (by decide : ¬ (1024 : Nat) = 128), trailer]
  cases s.crc with
  | true => simp [Words.u16, hlow]
  | false => simp

/-- What a sender that returns without an error has put on the wire. -/
theorem Sender.run_wire {fuel n : Nat} {s after : Sender} {status : Int} (hrun : s.run fuel = some (status, after))
    (hstatus : 0 ≤ status) (hn : s.packetno = UInt8.ofNat n) :
    ∃ packets repeats sent, Wire s.infile s.crc n packets repeats sent ∧
      after.serialPort.sent = s.serialPort.sent ++ sent ∧ status = s.len + 1024 * packets.length := by
  induction fuel generalizing s n with
  | zero => cases hrun
  | succ fuel ih =>
    rw [Sender.run, Sender.pass] at hrun
    by_cases hmore : (s.infile.take 1024).length > 0
    · simp only [hmore, if_true] at hrun
      cases htransmit : s.serialPort.transmit (s.xbuff (s.infile.take 1024)) 25 with
      | mk reply port =>
        rw [htransmit] at hrun
        obtain ⟨k, hk, hpos, hsent⟩ := SerialPort.transmit_sent htransmit
        cases reply with
        | canceled =>
          cases hrun
          omega
        | xmit_error =>
          cases hrun
          omega
        | acknowledged =>
          have hlength : (s.infile.take 1024).length ≤ 1024 := by
            rw [List.length_take]
            omega
          obtain ⟨packets, repeats, sent, hwire, hafter, hlen⟩ := ih (n := n + 1) hrun (by
            simp only [hn]
            exact (UInt8.ofNat_add n 1).symm)
          obtain ⟨ends, hpositive, hends, hsends⟩ := hwire.sent
          let p : Packet := ⟨pad (s.infile.take 1024), .inr (pad_length hlength)⟩
          refine ⟨p :: packets, k :: repeats, (List.replicate k (p.encode s.crc (UInt8.ofNat n))).flatten ++ sent,
            ⟨.cons p ?_ rfl hwire.splits, ?_, ?_, ends, hpositive, hends, ?_⟩, ?_, ?_⟩
          · intro hnil
            rw [hnil] at hmore
            exact absurd hmore (by decide)
          · rw [List.length_cons, List.length_cons, hwire.length]
          · intro j hj
            rcases List.mem_cons.mp hj with rfl | hj
            · exact ⟨hpos rfl, hk⟩
            · exact hwire.often j hj
          · rw [hsends, resent, List.append_assoc]
          · rw [hafter]
            simp only [hsent, List.append_assoc]
            rw [xbuff_eq s (p := p) rfl hlength, hn]
          · rw [hlen, List.length_cons]
            change ((s.len + 1024 : Nat) : Int) + 1024 * (packets.length : Int) =
              s.len + 1024 * ((packets.length + 1 : Nat) : Int)
            omega
    · have hnil : s.infile = [] := by
        rw [List.length_take] at hmore
        exact List.eq_nil_of_length_eq_zero (by omega)
      simp only [hmore, if_false] at hrun
      cases hfinish : s.serialPort.finish 10 with
      | mk acknowledged port =>
        rw [hfinish] at hrun
        obtain ⟨k, hk, hpos, hsent⟩ := SerialPort.finish_sent hfinish
        cases acknowledged with
        | false =>
          cases hrun
          omega
        | true =>
          cases hrun
          refine ⟨[], [], List.replicate k EOT, ⟨hnil ▸ .nil, rfl, ?_, k, hpos rfl, hk, rfl⟩, hsent, ?_⟩
          · intro j hj
            cases hj
          · simp

theorem xmodemTransmit_wire {infile : Bytes} {input : List (Option UInt8)} {status : Int} {sent : Bytes}
    (hsend : xmodemTransmit infile input = some (status, sent)) (hstatus : 0 ≤ status) :
    ∃ crc packets repeats, Wire infile crc 1 packets repeats sent ∧ status = 1024 * packets.length := by
  rw [xmodemTransmit] at hsend
  cases hstart : SerialPort.start 16 { input } with
  | mk start port =>
    have hnone : port.sent = [] := by
      have hport := SerialPort.start_sent 16 { input }
      rwa [hstart] at hport
    rw [hstart] at hsend
    cases start with
    | canceled =>
      cases hsend
      omega
    | no_sync =>
      cases hsend
      omega
    | start_trans crc =>
      obtain ⟨⟨status', after⟩, hrun, heq⟩ := Option.map_eq_some_iff.mp hsend
      cases heq
      obtain ⟨packets, repeats, sent, hwire, hafter, hlen⟩ := Sender.run_wire (n := 1) hrun hstatus rfl
      refine ⟨crc, packets, repeats, ?_, ?_⟩
      · rw [hafter, hnone]
        exact hwire
      · simpa using hlen

/-- A transmission always comes to an end. -/
theorem xmodemTransmit_returns (infile : Bytes) (input : List (Option UInt8)) :
    (xmodemTransmit infile input).isSome := by
  have hrun : ∀ (fuel : Nat) (s : Sender), s.infile.length < fuel → (s.run fuel).isSome := by
    intro fuel
    induction fuel with
    | zero => exact fun s h => absurd h (Nat.not_lt_zero _)
    | succ fuel ih =>
      intro s hfuel
      rw [Sender.run, Sender.pass]
      split_ifs with hmore
      · split
        next s' hpass =>
          split at hpass
          · cases hpass
            apply ih
            rw [List.length_take] at hmore
            dsimp only
            rw [List.length_drop]
            omega
          · cases hpass
          · cases hpass
        next => rfl
      · split
        next s' hpass => split at hpass <;> cases hpass
        next => rfl
  rw [xmodemTransmit]
  split
  · rw [Option.isSome_map]
    exact hrun _ _ (Nat.lt_succ_self _)
  · rfl
  · rfl

end DuneWeaver.Xmodem
