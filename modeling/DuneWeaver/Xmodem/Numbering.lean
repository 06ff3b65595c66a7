import DuneWeaver.Xmodem.Transfer

open Framing

namespace DuneWeaver.Xmodem

/-- The receiver is at the top of the outer loop, and took these packets so far. -/
inductive Reached (input : List (Option UInt8)) : Receiver → List Packet → Prop
  | start : Reached input { serialPort := { input } } []
  | kept {r after : Receiver} {packets : List Packet} :
      Reached input r packets → r.pass = .again after → after.packetno = r.packetno → Reached input after packets
  | taken {r after : Receiver} {packets : List Packet} (p : Packet) :
      Reached input r packets → r.pass = .again after → after.packetno = r.packetno + 1 →
        after.held_packet = p.payload → Reached input after (packets ++ [p])

/-- What a transfer promises: it ends; when it reports success the file is made of the
packets 1, 2, 3, …, each in its turn; the next packet is taken whenever it comes up
intact; and the last one, when it comes up once more, is acknowledged and ignored. -/
structure Receives (input : List (Option UInt8)) : Prop where
  returns : ∃ status file, xmodemReceive input = some (status, file)
  delivers : ∀ status file, xmodemReceive input = some (status, file) → 0 ≤ status →
    ∃ r packets, Reached input r packets ∧ Carries (frame r.crc) 1 input packets ∧
      file = written packets ∧ status = file.length
  next_taken : ∀ r packets p rest sent, Reached input r packets →
    r.Arrives p (UInt8.ofNat (packets.length + 1)) rest sent →
      ∃ after, r.pass = .again after ∧ Reached input after (packets ++ [p]) ∧
        after.serialPort = { input := rest, sent := sent ++ [ACK] }
  last_ignored : ∀ r packets p rest sent, Reached input r (packets ++ [p]) →
    r.Arrives p (UInt8.ofNat (packets.length + 1)) rest sent →
      ∃ retrans, r.pass =
        .again { r with serialPort := { input := rest, sent := r.serialPort.sent ++ [ACK] }, retrans }

/-- What the receiver knows of the packets it took. -/
structure Consistent (input : List (Option UInt8)) (r : Receiver) (packets : List Packet) : Prop where
  carries : ∃ consumed, input = consumed ++ r.serialPort.input ∧ Carries (frame r.crc) 1 consumed packets
  packetno : r.packetno = UInt8.ofNat (packets.length + 1)
  file : r.file = (packets.dropLast.map Packet.payload).flatten
  held_packet : r.held_packet = (packets.getLast?.map Packet.payload).getD []
  len : r.len = r.file.length
  trychar : packets ≠ [] → r.trychar = 0

private theorem next_ne (n : UInt8) : n + 1 ≠ n := by
  intro h
  have h := congrArg UInt8.toNat h
  rw [UInt8.toNat_add] at h
  have hn := n.toNat_lt
  simp at h
  omega

private theorem ofNat_succ_eq (n : ℕ) : UInt8.ofNat (n + 1) = UInt8.ofNat n + 1 := by
  rw [UInt8.ofNat_add]
  rfl

private theorem payloads_concat (packets : List Packet) :
    (packets.dropLast.map Packet.payload).flatten ++ (packets.getLast?.map Packet.payload).getD [] =
      (packets.map Packet.payload).flatten := by
  rcases List.eq_nil_or_concat packets with rfl | ⟨packets, p, rfl⟩
  · rfl
  · simp

variable {input : List (Option UInt8)} {r after : Receiver} {packets : List Packet}

theorem Consistent.kept (hr : Consistent input r packets) (hgoes : Receiver.Goes r after)
    (hkept : Receiver.Kept r after) : Consistent input after packets := by
  obtain ⟨consumed, hinput, hcarries⟩ := hr.carries
  obtain ⟨read, hread⟩ := hgoes.suffix
  refine ⟨⟨consumed ++ read, ?_, ?_⟩, ?_, ?_, ?_, ?_, ?_⟩
  · rw [hinput, ← hread, List.append_assoc]
  · rcases Decidable.em (packets = []) with rfl | hne
    · exact .nothing _ _
    · have hstarted : r.trychar ≠ 0x43 := by
        rw [hr.trychar hne]
        decide
      rw [hgoes.crc hstarted]
      exact hcarries.append_right read
  · rw [hkept.packetno, hr.packetno]
  · rw [hkept.file, hr.file]
  · rw [hkept.held_packet, hr.held_packet]
  · rw [hkept.len, hr.len, hkept.file]
  · exact fun hne => hgoes.trychar (hr.trychar hne)

theorem Consistent.taken {p : Packet} (hr : Consistent input r packets) (hgoes : Receiver.Goes r after)
    (htaken : Receiver.Taken r after p) : Consistent input after (packets ++ [p]) := by
  obtain ⟨consumed, hinput, hcarries⟩ := hr.carries
  obtain ⟨noise, hnoise⟩ := htaken.read
  refine ⟨⟨consumed ++ (noise ++ frame after.crc (1 + packets.length) p), ?_, ?_⟩, ?_, ?_, ?_, ?_, ?_⟩
  · rw [hinput, ← hnoise, frame, Nat.add_comm 1, ← hr.packetno]
    simp only [List.append_assoc]
  · rcases Decidable.em (packets = []) with rfl | hne
    · exact Carries.concat (.nothing 1 consumed) noise p
    · have hstarted : r.trychar ≠ 0x43 := by
        rw [hr.trychar hne]
        decide
      rw [← hgoes.crc hstarted] at hcarries
      exact hcarries.concat noise p
  · rw [htaken.packetno, hr.packetno, List.length_append, List.length_singleton, ofNat_succ_eq (_ + 1)]
  · rw [htaken.file, hr.file, hr.held_packet, payloads_concat, List.dropLast_concat]
  · rw [htaken.held_packet, List.getLast?_concat]
    rfl
  · rw [htaken.len, hr.len, htaken.file, List.length_append]
  · exact fun _ => htaken.trychar

/-- The receiver is consistent at the top of every pass. -/
theorem Reached.consistent (hreached : Reached input r packets) : Consistent input r packets := by
  induction hreached with
  | start => exact ⟨⟨[], rfl, .nothing _ _⟩, rfl, rfl, rfl, rfl, fun hne => absurd rfl hne⟩
  | @kept r after packets _ hpass hpacketno ih =>
    obtain ⟨hgoes, hkept | ⟨p, htaken⟩⟩ := Receiver.pass_again hpass
    · exact ih.kept hgoes hkept
    · exact absurd (htaken.packetno.symm.trans hpacketno) (next_ne _)
  | @taken r after packets p _ hpass hpacketno hheld ih =>
    obtain ⟨hgoes, hkept | ⟨q, htaken⟩⟩ := Receiver.pass_again hpass
    · exact absurd (hpacketno.symm.trans hkept.packetno) (next_ne _)
    · have hq : q = p := by
        obtain ⟨payload, hsize⟩ := q
        obtain ⟨_, _⟩ := p
        have hpayload := htaken.held_packet.symm.trans hheld
        simp only at hpayload
        subst hpayload
        rfl
      exact ih.taken hgoes (hq ▸ htaken)

/-- A pass that goes on leads to the top of the next one. -/
theorem Reached.pass (hreached : Reached input r packets) (hpass : r.pass = .again after) :
    ∃ packets, Reached input after packets := by
  obtain ⟨-, hkept | ⟨p, htaken⟩⟩ := Receiver.pass_again hpass
  · exact ⟨packets, hreached.kept hpass hkept.packetno⟩
  · exact ⟨packets ++ [p], hreached.taken p hpass htaken.packetno htaken.held_packet⟩

/-- The run returns from the top of a pass. -/
theorem run_returns {fuel : Nat} {status : Int} (hreached : Reached input r packets)
    (hrun : Receiver.run fuel r = some (status, after)) :
    ∃ last packets, Reached input last packets ∧ last.pass = .done status after := by
  induction fuel generalizing r packets with
  | zero => simp [Receiver.run] at hrun
  | succ fuel ih =>
    rw [Receiver.run] at hrun
    split at hrun
    · rename_i next hpass
      obtain ⟨packets, hnext⟩ := hreached.pass hpass
      exact ih hnext hrun
    · rename_i status after hpass
      cases hrun
      exact ⟨r, packets, hreached, hpass⟩

/-- Every pass that goes on uses up some of what remains. -/
theorem run_isSome {fuel : Nat} (hfuel : r.remaining < fuel) : (Receiver.run fuel r).isSome := by
  induction fuel generalizing r with
  | zero => omega
  | succ fuel ih =>
    rw [Receiver.run]
    split
    · rename_i next hpass
      obtain ⟨hgoes, -⟩ := Receiver.pass_again hpass
      have hshorter := hgoes.shorter
      exact ih (by omega)
    · rfl

theorem pass_done {status : Int} (hpass : r.pass = .done status after) (hstatus : 0 ≤ status) :
    after.file = r.flush_packet.file ∧ status = r.flush_packet.len := by
  rw [Receiver.pass] at hpass
  split at hpass
  · rename_i c bufsz port heq
    rw [Receiver.start_recv] at hpass
    split at hpass
    · cases hpass
    · simp only at hpass
      split at hpass
      · have hgone := Receiver.accept_done hpass
        omega
      · cases hpass
  · cases hpass
    rw [Receiver.flush_packet_eq, Receiver.flush_packet_eq]
    exact ⟨rfl, rfl⟩
  · cases hpass
    omega
  · split at hpass
    · cases hpass
    · cases hpass
      omega

/-- The file of a transfer that reports success. -/
theorem Consistent.delivered (hr : Consistent input r packets) :
    r.flush_packet.file = written packets ∧ r.flush_packet.len = (written packets).length := by
  have hfile : r.flush_packet.file = written packets := by
    rw [Receiver.flush_packet_eq, written]
    simp only [hr.file, hr.held_packet]
    rcases List.eq_nil_or_concat packets with rfl | ⟨packets, p, rfl⟩
    · rfl
    · simp
  refine ⟨hfile, ?_⟩
  rw [← hfile, Receiver.flush_packet_eq]
  simp only [hr.len, List.length_append]

/-- The next packet is taken when it comes up. -/
theorem Reached.next_taken {p : Packet} {rest : List (Option UInt8)} {sent : Bytes}
    (hreached : Reached input r packets) (harrives : r.Arrives p (UInt8.ofNat (packets.length + 1)) rest sent) :
    ∃ after, r.pass = .again after ∧ Reached input after (packets ++ [p]) ∧
      after.serialPort = { input := rest, sent := sent ++ [ACK] } ∧ after.mode = r.mode := by
  have hpacketno := hreached.consistent.packetno
  rw [← hpacketno] at harrives
  have hpass := Receiver.pass_of_arrives harrives
  rw [if_pos (by simp [Receiver.expected]), Receiver.accept_next] at hpass
  exact ⟨_, hpass, hreached.taken p hpass rfl rfl, rfl, by simp [Receiver.mode]⟩

/-- The last packet comes up once more: it is acknowledged, but for the number before
the wrap, and for a counter that has run down. -/
theorem Reached.last_comes_up {p : Packet} {rest : List (Option UInt8)} {sent : Bytes}
    (hreached : Reached input r (packets ++ [p]))
    (harrives : r.Arrives p (UInt8.ofNat (packets.length + 1)) rest sent) :
    r.pass =
      if (packets.length + 1) % 256 = 255 then .again { r with
        serialPort := (SerialPort.mk rest r.serialPort.sent).flushinput.outbyte NAK }
      else if r.retrans ≤ 1 then .done (-3) (Receiver.give_up { r with
        serialPort := { input := rest, sent := r.serialPort.sent }, retrans := r.retrans - 1 })
      else .again { r with
        serialPort := { input := rest, sent := r.serialPort.sent ++ [ACK] }, retrans := r.retrans - 1 } := by
  have hconsistent := hreached.consistent
  have htrychar := hconsistent.trychar (by simp)
  have hpacketno := hconsistent.packetno
  rw [List.length_append, List.length_singleton] at hpacketno
  have hsent : sent = r.serialPort.sent := by
    obtain ⟨c, bufsz, port, hsync, -, rfl⟩ := harrives
    have hsilent := SerialPort.sync_sent 16 r.serialPort
    rw [← htrychar, hsync] at hsilent
    exact hsilent
  have hstarted : ({ r with
      crc := r.mode, trychar := 0, serialPort := { input := rest, sent } } : Receiver) =
      { r with serialPort := { input := rest, sent := r.serialPort.sent } } := by
    rw [hsent, Receiver.mode, htrychar]
    simp
  have hknown : UInt8.ofNat (packets.length + 1) ≠ r.packetno := by
    rw [hpacketno, ofNat_succ_eq (packets.length + 1)]
    exact (next_ne _).symm
  have hexpected : r.expected (UInt8.ofNat (packets.length + 1)) = !decide ((packets.length + 1) % 256 = 255) := by
    rw [Receiver.expected, decide_eq_false hknown, Bool.false_or, ← decide_not, decide_eq_decide, hpacketno]
    simp only [UInt8.toNat_ofNat']
    omega
  rw [Receiver.pass_of_arrives harrives, hexpected, hstarted]
  rcases Decidable.em ((packets.length + 1) % 256 = 255) with hwrap | hwrap
  · simp only [hwrap, decide_true, Bool.not_true, Bool.false_eq_true, if_false, if_true]
    rfl
  · simp only [hwrap, decide_false, Bool.not_false, if_true, if_false]
    exact Receiver.accept_known p.payload hknown

/-- A packet in front of everything else, once nothing is asked for any more. -/
theorem arrives_in_front {p : Packet} {number : UInt8} {rest : List (Option UInt8)}
    (hinput : r.serialPort.input = (p.encode r.mode number).map some ++ rest) :
    ∃ sent, r.Arrives p number rest sent := ⟨_, Receiver.arrives_of_input hinput⟩

private theorem refused_ne_acknowledged {port : SerialPort} {rest : List (Option UInt8)} {sent : Bytes}
    {retrans : Int} :
    Receiver.Pass.again { r with serialPort := port.outbyte NAK } ≠
      .again { r with serialPort := { input := rest, sent := sent ++ [ACK] }, retrans } := by
  intro h
  have hsent := congrArg (fun after => after.serialPort.sent.getLast?) (Receiver.Pass.again.inj h)
  simp [SerialPort.outbyte, ACK, NAK] at hsent

/-- A transfer keeps its promise precisely when no packet comes up again while the
number after it is 0, and none comes up again so often that the counter runs down. -/
theorem transfer_receives (input : List (Option UInt8)) :
    Receives input ↔
      ∀ r packets p rest sent, Reached input r (packets ++ [p]) →
        r.Arrives p (UInt8.ofNat (packets.length + 1)) rest sent →
          (packets.length + 1) % 256 ≠ 255 ∧ 1 < r.retrans := by
  constructor
  · intro hreceives r packets p rest sent hreached harrives
    obtain ⟨retrans, hpass⟩ := hreceives.last_ignored r packets p rest sent hreached harrives
    rw [hreached.last_comes_up harrives] at hpass
    split at hpass
    · exact absurd hpass refused_ne_acknowledged
    · rename_i hwrap
      refine ⟨hwrap, ?_⟩
      split at hpass
      · cases hpass
      · omega
  · intro hcondition
    refine ⟨?_, ?_, ?_, ?_⟩
    · have hsome : (Receiver.run (input.length + 2) { serialPort := { input } }).isSome :=
        run_isSome (by simp [Receiver.remaining])
      obtain ⟨⟨status, after⟩, hrun⟩ := Option.isSome_iff_exists.mp hsome
      exact ⟨status, after.file, by rw [xmodemReceive, hrun]; rfl⟩
    · intro status file hreceive hstatus
      obtain ⟨⟨status', after⟩, hrun, heq⟩ := Option.map_eq_some_iff.mp hreceive
      simp only [Prod.mk.injEq] at heq
      obtain ⟨rfl, rfl⟩ := heq
      obtain ⟨r, packets, hreached, hpass⟩ := run_returns .start hrun
      obtain ⟨hfile, hlen⟩ := pass_done hpass hstatus
      have hdelivered := hreached.consistent.delivered
      obtain ⟨consumed, hinput, hcarries⟩ := hreached.consistent.carries
      refine ⟨r, packets, hreached, ?_, hfile.trans hdelivered.1, ?_⟩
      · rw [hinput]
        exact hcarries.append_right _
      · rw [hlen, hdelivered.2, hfile, hdelivered.1]
    · intro r packets p rest sent hreached harrives
      obtain ⟨after, hpass, hafter, hport, -⟩ := hreached.next_taken harrives
      exact ⟨after, hpass, hafter, hport⟩
    · intro r packets p rest sent hreached harrives
      obtain ⟨hwrap, hcount⟩ := hcondition r packets p rest sent hreached harrives
      refine ⟨r.retrans - 1, ?_⟩
      rw [hreached.last_comes_up harrives, if_neg hwrap, if_neg (by omega)]

/-- Packets that come in without a gap are taken one after the other. -/
theorem reached_frames (packets : List Packet) (rest : List (Option UInt8)) :
    ∃ r, Reached (frames (frame true) 1 packets ++ rest) r packets ∧ r.serialPort.input = rest ∧ r.mode = true := by
  induction packets using List.reverseRecOn generalizing rest with
  | nil => exact ⟨_, .start, rfl, rfl⟩
  | append_singleton packets p ih =>
    obtain ⟨r, hreached, hinput, hmode⟩ := ih (frame true (1 + packets.length) p ++ rest)
    rw [frame, Nat.add_comm 1, ← hmode] at hinput
    obtain ⟨sent, harrives⟩ := arrives_in_front hinput
    obtain ⟨after, -, hafter, hport, hstill⟩ := hreached.next_taken harrives
    rw [← List.append_assoc, ← frames_concat] at hafter
    exact ⟨after, hafter, by rw [hport], hstill.trans hmode⟩

/-- The last packet before the wrap comes in once more, its acknowledgement lost. -/
theorem not_receives_of_wrap {p : Packet} (hwrap : (packets.length + 1) % 256 = 255) :
    ¬ Receives (frames (frame true) 1 (packets ++ [p]) ++ frame true (packets.length + 1) p) := by
  intro hreceives
  obtain ⟨r, hreached, hinput, hmode⟩ := reached_frames (packets ++ [p]) (frame true (packets.length + 1) p)
  rw [frame, ← hmode, ← List.append_nil (List.map _ _)] at hinput
  obtain ⟨sent, harrives⟩ := arrives_in_front hinput
  obtain ⟨retrans, hpass⟩ := hreceives.last_ignored r packets p [] sent hreached harrives
  rw [hreached.last_comes_up harrives, if_pos hwrap] at hpass
  exact refused_ne_acknowledged hpass

/-- 255 packets come in, and the acknowledgement of the last one is lost. -/
theorem packet_255_is_refused :
    let p : Packet := ⟨List.replicate 128 0x41, Or.inl rfl⟩
    ¬ Receives (frames (frame true) 1 (List.replicate 254 p ++ [p]) ++ frame true 255 p) := by
  intro p
  have hlength : (List.replicate 254 p).length = 254 := List.length_replicate
  have hwrap : ((List.replicate 254 p).length + 1) % 256 = 255 := by rw [hlength]
  have hrefused := not_receives_of_wrap (p := p) hwrap
  rw [hlength] at hrefused
  exact hrefused

end DuneWeaver.Xmodem
