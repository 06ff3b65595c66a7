import DuneWeaver.Xmodem.Transmit

namespace DuneWeaver.Xmodem

variable {input rest : List (Option UInt8)} {r after : Receiver} {packets : List Packet} {p : Packet} {crc : Bool}

/-- What goes before the packets, so that the receiver asks for the mode the sender is in: it gives up on
the CRC after 16 calls that time out. -/
def lead (crc : Bool) : List (Option UInt8) := if crc then [] else List.replicate 16 none

/-- The receiver took the packets and has not yet read the rest. -/
structure Standing (input : List (Option UInt8)) (crc : Bool) (packets : List Packet) (rest : List (Option UInt8))
    (r : Receiver) : Prop where
  reached : Reached input r packets
  input : r.serialPort.input = rest
  mode : r.mode = crc

/-- A receiver that is there returns what the whole reception returns. -/
theorem Reached.returns (hreached : Reached input r packets) {status : Int} (hpass : r.pass = .done status after) :
    xmodemReceive input = some (status, after.file) := by
  have hruns : ∀ {r : Receiver} {packets : List Packet}, Reached input r packets → ∀ fuel, ∃ more,
      Receiver.run more { serialPort := { input } } = Receiver.run fuel r := by
    intro r packets hreached
    induction hreached with
    | start => exact fun fuel => ⟨fuel, rfl⟩
    | kept _ hpass _ ih | taken p _ hpass _ _ ih =>
      intro fuel
      obtain ⟨more, hmore⟩ := ih (fuel + 1)
      refine ⟨more, ?_⟩
      rw [hmore, Receiver.run, hpass]
  have hlonger : ∀ (fuel more : Nat) (r : Receiver) (result : Int × Receiver), Receiver.run fuel r = some result →
      Receiver.run (fuel + more) r = some result := by
    intro fuel more
    induction fuel with
    | zero => intro r result h; cases h
    | succ fuel ih =>
      intro r result h
      rw [Nat.add_right_comm, Receiver.run]
      rw [Receiver.run] at h
      split at h
      next hpass => exact ih _ _ h
      next hpass => exact h
  obtain ⟨fuel, hfuel⟩ := hruns hreached 1
  have hdone : Receiver.run fuel { serialPort := { input } } = some (status, after) := by
    rw [hfuel, Receiver.run, hpass]
  obtain ⟨result, hresult⟩ : ∃ result, Receiver.run (input.length + 2) { serialPort := { input } } = some result :=
    Option.isSome_iff_exists.mp (run_isSome (by simp [Receiver.remaining]))
  have hsame : result = (status, after) := by
    have hboth := hlonger _ fuel _ _ hresult
    rw [Nat.add_comm, hlonger _ _ _ _ hdone] at hboth
    exact (Option.some.inj hboth).symm
  rw [xmodemReceive, hresult, hsame]
  rfl

theorem pass_exhausted {port : SerialPort} (hsync : r.serialPort.sync r.trychar 16 = (.exhausted, port))
    (hasks : r.trychar = 0x43) : r.pass = .again { r with serialPort := port, trychar := NAK } := by
  rw [Receiver.pass, hsync]
  exact if_pos hasks

theorem pass_gives_up {port : SerialPort} (hsync : r.serialPort.sync r.trychar 16 = (.exhausted, port))
    (hasks : r.trychar ≠ 0x43) : r.pass = .done (-2) (Receiver.give_up { r with serialPort := port }) := by
  rw [Receiver.pass, hsync]
  exact if_neg hasks

theorem pass_normal_end {port : SerialPort} (hsync : r.serialPort.sync r.trychar 16 = (.normal_end, port)) :
    ∃ after, r.pass = .done r.flush_packet.len after ∧ after.file = r.flush_packet.file := by
  refine ⟨{ (Receiver.flush_packet { r with serialPort := port }) with serialPort := (port.outbyte ACK).flushinput
    }, ?_, ?_⟩
  · rw [Receiver.pass, hsync]
    simp only [Receiver.flush_packet_eq]
  · simp only [Receiver.flush_packet_eq]

/-- The receiver before the first packet. -/
theorem standing_lead (crc : Bool) (rest : List (Option UInt8)) : ∃ r, Standing (lead crc ++ rest) crc [] rest r := by
  cases crc with
  | true => exact ⟨_, .start, rfl, rfl⟩
  | false =>
    have hsync : ∀ (n : Nat) (rest : List (Option UInt8)) (sent : Bytes), ∃ sent',
        SerialPort.sync 0x43 n { input := List.replicate n none ++ rest, sent } =
          (.exhausted, { input := rest, sent := sent' }) := by
      intro n rest
      induction n with
      | zero => exact fun sent => ⟨sent, rfl⟩
      | succ n ih =>
        intro sent
        obtain ⟨sent', h⟩ := ih (sent ++ [0x43])
        refine ⟨sent', ?_⟩
        rw [SerialPort.sync, if_pos (by decide)]
        exact h
    obtain ⟨sent, hsync⟩ := hsync 16 rest []
    have hpass := pass_exhausted (r := { serialPort := { input := lead false ++ rest } }) hsync rfl
    exact ⟨_, .kept .start hpass rfl, rfl, rfl⟩

/-- A packet in front of a receiver that stands is one that arrives there. -/
theorem Standing.arrives {number : UInt8}
    (h : Standing input crc packets ((p.encode crc number).map some ++ rest) r) :
    ∃ sent, r.Arrives p number rest sent := arrives_in_front (by rw [h.mode]; exact h.input)

/-- The next packet is taken, and the counter of repetitions starts again. -/
theorem Standing.next
    (h : Standing input crc packets ((p.encode crc (UInt8.ofNat (packets.length + 1))).map some ++ rest) r) :
    ∃ after, Standing input crc (packets ++ [p]) rest after ∧ after.retrans = 25 := by
  obtain ⟨sent, harrives⟩ := h.arrives
  obtain ⟨after, hpass, hreached, hport, hmode⟩ := h.reached.next_taken harrives
  refine ⟨after, ⟨hreached, by rw [hport], hmode.trans h.mode⟩, ?_⟩
  have hpacketno := h.reached.consistent.packetno
  rw [← hpacketno] at harrives
  have htaken := Receiver.pass_of_arrives harrives
  rw [if_pos (by simp [Receiver.expected]), Receiver.accept_next, hpass] at htaken
  rw [Receiver.Pass.again.inj htaken]
  rfl

/-- The last packet comes up again: it is acknowledged, and the counter goes down. -/
theorem Standing.again (hrest : (packets.length + 1) % 256 ≠ 255) (hretrans : 1 < r.retrans)
    (h : Standing input crc (packets ++ [p]) ((p.encode crc (UInt8.ofNat (packets.length + 1))).map some ++ rest) r) :
    ∃ after, Standing input crc (packets ++ [p]) rest after ∧ after.retrans = r.retrans - 1 := by
  obtain ⟨sent, harrives⟩ := h.arrives
  have hpass := h.reached.last_comes_up harrives
  rw [if_neg hrest, if_neg (by omega)] at hpass
  exact ⟨_, ⟨.kept h.reached hpass rfl, rfl, h.mode⟩, rfl⟩

/-- As long as the counter lasts, it may come up as often as it likes. -/
theorem Standing.repeated (hrest : (packets.length + 1) % 256 ≠ 255) (k : Nat) (hretrans : (k : Int) < r.retrans)
    (h : Standing input crc (packets ++ [p])
      ((List.replicate k (p.encode crc (UInt8.ofNat (packets.length + 1)))).flatten.map some ++ rest) r) :
    ∃ after, Standing input crc (packets ++ [p]) rest after := by
  induction k generalizing r with
  | zero => exact ⟨r, h⟩
  | succ k ih =>
    rw [List.replicate_succ, List.flatten_cons, List.map_append, List.append_assoc] at h
    obtain ⟨after, hafter, hcount⟩ := h.again hrest (by omega)
    exact ih (by omega) hafter

/-- The packet before the wrap comes up again: everything that is there is thrown away, and the receiver
gives up. -/
theorem Standing.refused (hwrap : (packets.length + 1) % 256 = 255) {bytes : Bytes}
    (h : Standing input crc (packets ++ [p])
      ((p.encode crc (UInt8.ofNat (packets.length + 1))).map some ++ bytes.map some) r) :
    ∃ file, xmodemReceive input = some (-2, file) := by
  obtain ⟨sent, harrives⟩ := h.arrives
  have hpass := h.reached.last_comes_up harrives
  rw [if_pos hwrap] at hpass
  have hflushed : ((SerialPort.mk (bytes.map some) r.serialPort.sent).flushinput.outbyte NAK).input = [] := by
    change ((bytes.map some).dropWhile Option.isSome).tail = []
    have hall : (bytes.map some).dropWhile Option.isSome = [] := by
      rw [List.dropWhile_eq_nil_iff]
      intro c hc
      obtain ⟨b, -, rfl⟩ := List.mem_map.mp hc
      rfl
    rw [hall]
    rfl
  have hsilent : ∀ (n : Nat) (port : SerialPort), port.input = [] → port.sync 0 n = (.exhausted, port) := by
    intro n port hport
    induction n with
    | zero => rfl
    | succ n ih =>
      rw [SerialPort.sync, if_neg (by decide), SerialPort.inbyte]
      simp only [hport]
      exact ih
  have htrychar := h.reached.consistent.trychar (by simp)
  have hlast := pass_gives_up (r := { r with
    serialPort := (SerialPort.mk (bytes.map some) r.serialPort.sent).flushinput.outbyte NAK })
    (by rw [htrychar]; exact hsilent 16 _ hflushed) (by rw [htrychar]; decide)
  exact ⟨_, (Reached.kept h.reached hpass rfl).returns hlast⟩

/-- No packet is on the wire twice whose number is the last one before the wrap. -/
def OnceBeforeWrap (n : Nat) (repeats : List Nat) : Prop := ∀ i, (n + i) % 256 = 255 → ∀ k, repeats[i]? = some k → k = 1

theorem OnceBeforeWrap.tail {n k : Nat} {repeats : List Nat} (h : OnceBeforeWrap n (k :: repeats)) :
    OnceBeforeWrap (n + 1) repeats := fun i hi k' hk => h (i + 1) (by rw [← hi]; congr 1; omega) k' hk

/-- A packet is taken once, however often it comes. -/
theorem Standing.taken {p : Packet} {more : List Packet} {k : Nat} {repeats : List Nat} (hk : 1 ≤ k ∧ k ≤ 25)
    (hone : (packets.length + 1) % 256 = 255 → k = 1)
    (h : Standing input crc packets
      ((resent crc (packets.length + 1) (p :: more) (k :: repeats)).map some ++ rest) r) :
    ∃ after, Standing input crc (packets ++ [p])
      ((resent crc ((packets ++ [p]).length + 1) more repeats).map some ++ rest) after := by
  obtain ⟨j, rfl⟩ : ∃ j, k = j + 1 := ⟨k - 1, by omega⟩
  rw [resent, List.replicate_succ, List.flatten_cons, List.map_append, List.map_append, List.append_assoc,
    List.append_assoc] at h
  obtain ⟨taken, htaken, hcount⟩ := h.next
  rw [List.length_append, List.length_singleton]
  by_cases hwrap : (packets.length + 1) % 256 = 255
  · obtain rfl : j = 0 := Nat.succ.inj (hone hwrap)
    exact ⟨taken, htaken⟩
  · exact htaken.repeated hwrap j (by omega)

/-- The packets are taken one after the other, however often each of them comes. -/
theorem Standing.wire {more : List Packet} {repeats : List Nat} (hlength : repeats.length = more.length)
    (hoften : ∀ k ∈ repeats, 1 ≤ k ∧ k ≤ 25) (honce : OnceBeforeWrap (packets.length + 1) repeats)
    (h : Standing input crc packets ((resent crc (packets.length + 1) more repeats).map some ++ rest) r) :
    ∃ after, Standing input crc (packets ++ more) rest after := by
  induction more generalizing packets repeats r with
  | nil =>
    obtain rfl := List.eq_nil_of_length_eq_zero hlength
    exact ⟨r, by rw [List.append_nil]; exact h⟩
  | cons p more ih =>
    cases repeats with
    | nil => cases hlength
    | cons k repeats =>
      obtain ⟨after, hafter⟩ := h.taken (hoften k List.mem_cons_self) fun hwrap => honce 0 hwrap k rfl
      have honce' : OnceBeforeWrap ((packets ++ [p]).length + 1) repeats := by
        rw [List.length_append, List.length_singleton]
        exact honce.tail
      obtain ⟨last, hlast⟩ :=
        ih (Nat.succ.inj hlength) (fun k hk => hoften k (List.mem_cons_of_mem _ hk)) honce' hafter
      exact ⟨last, by rw [List.append_cons]; exact hlast⟩

/-- Where one before the wrap comes twice the receiver gives up. -/
theorem Standing.stuck {more : List Packet} {repeats : List Nat} {bytes : Bytes}
    (hlength : repeats.length = more.length)
    (hoften : ∀ k ∈ repeats, 1 ≤ k ∧ k ≤ 25) (htwice : ¬ OnceBeforeWrap (packets.length + 1) repeats)
    (h : Standing input crc packets ((resent crc (packets.length + 1) more repeats).map some ++ bytes.map some) r) :
    ∃ file, xmodemReceive input = some (-2, file) := by
  induction more generalizing packets repeats r with
  | nil =>
    obtain rfl := List.eq_nil_of_length_eq_zero hlength
    exact absurd (fun i _ k hk => by cases hk) htwice
  | cons p more ih =>
    cases repeats with
    | nil => cases hlength
    | cons k repeats =>
      have hk := hoften k List.mem_cons_self
      by_cases hfirst : (packets.length + 1) % 256 = 255 ∧ k ≠ 1
      · obtain ⟨i, rfl⟩ : ∃ i, k = i + 1 + 1 := ⟨k - 2, by omega⟩
        rw [resent, List.replicate_succ, List.flatten_cons, List.map_append, List.map_append, List.append_assoc,
          List.append_assoc] at h
        obtain ⟨taken, htaken, -⟩ := h.next
        rw [List.replicate_succ, List.flatten_cons, List.map_append, List.append_assoc, ← List.map_append,
          ← List.map_append] at htaken
        exact htaken.refused hfirst.1
      · have hone : (packets.length + 1) % 256 = 255 → k = 1 := fun hwrap => not_not.mp fun hk => hfirst ⟨hwrap, hk⟩
        obtain ⟨after, hafter⟩ := h.taken hk hone
        have htwice' : ¬ OnceBeforeWrap ((packets ++ [p]).length + 1) repeats := by
          intro hrest
          apply htwice
          rw [List.length_append, List.length_singleton] at hrest
          intro i hi k' hk'
          cases i with
          | zero => exact Option.some.inj hk' ▸ hone hi
          | succ i => exact hrest i (by rw [← hi]; congr 1; omega) k' hk'
        exact ih (Nat.succ.inj hlength) (fun k hk => hoften k (List.mem_cons_of_mem _ hk)) htwice' hafter

/-- The end is acknowledged, and the file is written out. -/
theorem Standing.ends (h : Standing input crc packets (some EOT :: rest) r) :
    xmodemReceive input = some (((written packets).length : Int), written packets) := by
  have hsync : ∃ port, r.serialPort.sync r.trychar 16 = (.normal_end, port) := by
    have hinput : (if r.trychar ≠ 0 then r.serialPort.outbyte r.trychar else r.serialPort).input =
        some EOT :: rest := by
      split_ifs
      · exact h.input
      · exact h.input
    rw [SerialPort.sync, SerialPort.inbyte, hinput]
    exact ⟨_, rfl⟩
  obtain ⟨port, hsync⟩ := hsync
  obtain ⟨after, hpass, hfile⟩ := pass_normal_end hsync
  obtain ⟨hwritten, hlen⟩ := h.reached.consistent.delivered
  rw [h.reached.returns hpass, hfile, hwritten, hlen]

theorem Splits.eq_nil {infile : Bytes} (h : Splits infile packets) : infile = [] ↔ packets = [] := by
  cases h with
  | nil => exact iff_of_true rfl rfl
  | cons p hne => exact iff_of_false hne (List.cons_ne_nil _ _)

/-- Without its padding a packet ends in padding only as far as the file does. -/
theorem rdropWhile_pad (buf : Bytes) : ∃ k, k ≤ buf.length ∧
    buf = (pad buf).rdropWhile (· = CTRLZ) ++ List.replicate k CTRLZ := by
  have hpad : ∀ n, (buf ++ List.replicate n CTRLZ).rdropWhile (· = CTRLZ) = buf.rdropWhile (· = CTRLZ) := by
    intro n
    induction n with
    | zero => rw [List.replicate_zero, List.append_nil]
    | succ n ih => rw [List.replicate_succ', ← List.append_assoc, List.rdropWhile_concat_pos _ _ _ (by simp), ih]
  refine ⟨(buf.rtakeWhile (· = CTRLZ)).length, (List.rtakeWhile_suffix _ _).length_le, ?_⟩
  have hall : buf.rtakeWhile (· = CTRLZ) = List.replicate (buf.rtakeWhile (· = CTRLZ)).length CTRLZ :=
    List.eq_replicate_iff.mpr ⟨rfl, fun c hc => by simpa using List.mem_rtakeWhile_imp hc⟩
  rw [pad, hpad, ← hall, List.rdropWhile_append_rtakeWhile]

/-- The packets of a file hold the file, but for padding at the end of the last packet. -/
theorem Splits.holds {infile : Bytes} (h : Splits infile packets) :
    ∃ k, k ≤ 1024 ∧ infile = written packets ++ List.replicate k CTRLZ := by
  induction h with
  | nil => exact ⟨0, by omega, rfl⟩
  | @cons infile packets p hne hp hrest ih =>
    have hsplit : infile.take 1024 ++ infile.drop 1024 = infile := List.take_append_drop 1024 infile
    cases packets with
    | nil =>
      obtain ⟨k, hk, hbuf⟩ := rdropWhile_pad (infile.take 1024)
      rw [hrest.eq_nil.mpr rfl, List.append_nil] at hsplit
      refine ⟨k, hk.trans ?_, ?_⟩
      · rw [List.length_take]
        omega
      · change infile = p.payload.rdropWhile (· = CTRLZ) ++ List.replicate k CTRLZ
        rw [hp, ← hbuf, hsplit]
    | cons q packets =>
      obtain ⟨k, hk, hrest'⟩ := ih
      have hmore : infile.drop 1024 ≠ [] := fun hnil => List.cons_ne_nil _ _ (hrest.eq_nil.mp hnil)
      have hfull : (infile.take 1024).length = 1024 := by
        have hdrop := List.length_pos_of_ne_nil hmore
        rw [List.length_drop] at hdrop
        rw [List.length_take]
        omega
      refine ⟨k, hk, ?_⟩
      rw [pad, hfull, Nat.sub_self, List.replicate_zero, List.append_nil] at hp
      have hwritten : written (p :: q :: packets) = p.payload ++ written (q :: packets) := by
        simp [written]
      rw [hwritten, hp, List.append_assoc, ← hrest', hsplit]

/-- What a sender that succeeds has put on the wire is received, exactly when no packet before a wrap of the
numbers is there twice; and the file that is received is the one that was sent, but for padding characters at
its end. -/
theorem transmitted_is_received {infile sent : Bytes} {status : Int}
    (hsend : xmodemTransmit infile input = some (status, sent)) (hstatus : 0 ≤ status) :
    ∃ crc packets repeats, Wire infile crc 1 packets repeats sent ∧ status = 1024 * packets.length ∧
      ∃ size file, xmodemReceive (lead crc ++ sent.map some) = some (size, file) ∧
        (0 ≤ size ↔ OnceBeforeWrap 1 repeats) ∧
        (0 ≤ size → size = file.length ∧ ∃ k, k ≤ 1024 ∧ infile = file ++ List.replicate k CTRLZ) := by
  obtain ⟨crc, packets, repeats, hwire, hlen⟩ := xmodemTransmit_wire hsend hstatus
  refine ⟨crc, packets, repeats, hwire, hlen, ?_⟩
  obtain ⟨ends, hpositive, -, hsent⟩ := hwire.sent
  obtain ⟨r, hr⟩ := standing_lead crc (sent.map some)
  rw [hsent, List.map_append] at hr
  by_cases honce : OnceBeforeWrap 1 repeats
  · obtain ⟨after, hafter⟩ := hr.wire hwire.length hwire.often
      (show OnceBeforeWrap (([] : List Packet).length + 1) repeats from honce)
    obtain ⟨more, rfl⟩ : ∃ more, ends = more + 1 := ⟨ends - 1, by omega⟩
    rw [List.replicate_succ, List.map_cons, List.nil_append] at hafter
    have hreceived := hafter.ends
    rw [hsent, List.map_append, List.replicate_succ, List.map_cons]
    exact ⟨_, _, hreceived, iff_of_true (Int.natCast_nonneg _) honce, fun _ => ⟨rfl, hwire.splits.holds⟩⟩
  · obtain ⟨file, hfile⟩ := hr.stuck hwire.length hwire.often
      (show ¬ OnceBeforeWrap (([] : List Packet).length + 1) repeats from honce)
    rw [hsent, List.map_append]
    exact ⟨_, _, hfile, iff_of_false (by decide) honce, fun h => absurd h (by decide)⟩

/-- Three bytes, sent twice before they are acknowledged. -/
theorem transmitted_is_received_abc :
    ∃ crc packets repeats, Wire [0x61, 0x62, 0x63] crc 1 packets repeats
        (xmodemTransmit [0x61, 0x62, 0x63] [some 0x43, some NAK, some ACK, some ACK]).get!.2 ∧
      (1024 : Int) = 1024 * packets.length ∧
      ∃ size file, xmodemReceive (lead crc ++
          (xmodemTransmit [0x61, 0x62, 0x63] [some 0x43, some NAK, some ACK, some ACK]).get!.2.map some) =
            some (size, file) ∧
        (0 ≤ size ↔ OnceBeforeWrap 1 repeats) ∧
        (0 ≤ size → size = file.length ∧ ∃ k, k ≤ 1024 ∧ [0x61, 0x62, 0x63] = file ++ List.replicate k CTRLZ) :=
  transmitted_is_received
    (rfl : xmodemTransmit [0x61, 0x62, 0x63] [some 0x43, some NAK, some ACK, some ACK] = some (1024, _)) (by decide)

end DuneWeaver.Xmodem
