import DuneWeaver.Channel.Channel

namespace DuneWeaver

namespace Channel

/-- `Uart::timedReadBytes`. By the end of the time the driver's `uart_read_bytes` has
given up to `ready` of the bytes asked for; with nothing there it returned an error. -/
def uartTimedReadBytes (c : Channel) (len : Nat) (ready : Option Nat) : Bytes × Channel :=
  let res := min len (ready.getD 0)
  (c.rx.take res, { c with rx := c.rx.drop res })

/-- The loop over the queue: what it stores, and what it leaves in the queue. The
count of the bytes that remain stays as it is. -/
def storeQueue (remlen : Nat) : Bytes → Bytes × Bytes
  | [] => ([], [])
  | front :: queue =>
    if remlen ≠ 0 then
      let (stored, left) := storeQueue remlen queue
      (front :: stored, left)
    else ([], front :: queue)

/-- What a call of `timedReadBytes` comes to: the bytes stored from the start of the
buffer on, and the number it returns. -/
structure TimedRead where
  stored : Bytes
  count : Nat
  channel : Channel
  deriving DecidableEq

/-- `UartChannel::timedReadBytes`. -/
def timedReadBytes (c : Channel) (length : Nat) (ready : Option Nat) : TimedRead :=
  let remlen := length
  let (stored, queue) := storeQueue remlen c.queue
  let (read, c) := ({ c with queue } : Channel).uartTimedReadBytes remlen ready
  let remlen := remlen - read.length
  { stored := stored ++ read, count := length - remlen, channel := c }

/-- `_inbyte`, with what the read of its one byte comes to. -/
def inbyte (c : Channel) (ready : Option Nat) : Option UInt8 × TimedRead :=
  let res := c.timedReadBytes 1 ready
  (if res.count ≠ 1 then none else res.stored.head?, res)

/-- A transfer's calls of `_inbyte`: what they give, what each of them stores, and the
channel after them. -/
def inbytes (c : Channel) : List (Option Nat) → List (Option UInt8) × List Bytes × Channel
  | [] => ([], [], c)
  | ready :: more =>
    let (data, res) := c.inbyte ready
    let (given, stored, c) := res.channel.inbytes more
    (data :: given, res.stored :: stored, c)

/-- A read of `length` bytes stays within them, counts what it stores, takes the bytes
in the order they were received in, the queued ones first, and leaves the others. -/
structure TimedRead.Delivers (res : TimedRead) (c : Channel) (length : Nat) : Prop where
  fits : res.stored.length ≤ length
  counts : res.count = res.stored.length
  inOrder : res.stored ++ (res.channel.queue ++ res.channel.rx) = c.queue ++ c.rx
  kept : res.channel.queue = c.queue.drop res.stored.length

/-- No call writes past its one byte, and the bytes given are those received, with no
byte lost. -/
def InbytesDeliver (c : Channel) (calls : List (Option Nat)) : Prop :=
  (∀ stored ∈ (c.inbytes calls).2.1, stored.length ≤ 1) ∧
    (c.inbytes calls).1.filterMap id ++ ((c.inbytes calls).2.2.queue ++ (c.inbytes calls).2.2.rx) = c.queue ++ c.rx

theorem storeQueue_zero (queue : Bytes) : storeQueue 0 queue = ([], queue) := by
  cases queue with
  | nil => rfl
  | cons front queue => simp [storeQueue]

/-- Asked for a byte at all, the loop takes the whole queue. -/
theorem storeQueue_pos {remlen : Nat} (hpos : 0 < remlen) (queue : Bytes) :
    storeQueue remlen queue = (queue, []) := by
  induction queue with
  | nil => rfl
  | cons front queue ih =>
    have hne : remlen ≠ 0 := by omega
    rw [storeQueue, if_pos hne, ih]

variable (c : Channel) (length : Nat) (ready : Option Nat)

/-- The UART's share of a read of `length` bytes. -/
def uartShare : Nat := min (min length (ready.getD 0)) c.rx.length

theorem length_uartShare_le : c.uartShare length ready ≤ length := by
  unfold uartShare
  omega

theorem timedReadBytes_zero :
    c.timedReadBytes 0 ready = { stored := [], count := 0, channel := c } := by
  simp [timedReadBytes, storeQueue_zero, uartTimedReadBytes]

/-- What a read does: the whole queue goes to the buffer, the bytes of the UART behind
it, and only these are counted. -/
theorem timedReadBytes_pos (hpos : 0 < length) :
    (c.timedReadBytes length ready).stored = c.queue ++ c.rx.take (c.uartShare length ready) ∧
      (c.timedReadBytes length ready).count = c.uartShare length ready ∧
      (c.timedReadBytes length ready).channel = { c with queue := [], rx := c.rx.drop (c.uartShare length ready) } := by
  have htake : c.rx.take (min length (ready.getD 0)) = c.rx.take (c.uartShare length ready) := by
    rw [uartShare, ← List.take_eq_take_min]
  have hdrop : c.rx.drop (min length (ready.getD 0)) = c.rx.drop (c.uartShare length ready) := by
    rw [uartShare, ← List.drop_eq_drop_min]
  have hle := c.length_uartShare_le length ready
  have hlen : (c.rx.take (c.uartShare length ready)).length = c.uartShare length ready := by
    rw [List.length_take]
    unfold uartShare
    omega
  simp only [timedReadBytes, storeQueue_pos hpos, uartTimedReadBytes, htake, hdrop, hlen]
  refine ⟨trivial, by omega, trivial⟩

theorem timedReadBytes_delivers (hqueue : c.queue = []) : (c.timedReadBytes length ready).Delivers c length := by
  rcases Nat.eq_zero_or_pos length with rfl | hpos
  · rw [timedReadBytes_zero]
    exact ⟨Nat.le_refl _, rfl, rfl, rfl⟩
  · obtain ⟨hstored, hcount, hchannel⟩ := c.timedReadBytes_pos length ready hpos
    have hlen : (c.timedReadBytes length ready).stored.length = c.uartShare length ready := by
      rw [hstored, hqueue, List.nil_append, List.length_take]
      unfold uartShare
      omega
    refine ⟨?_, ?_, ?_, ?_⟩
    · rw [hlen]
      exact c.length_uartShare_le length ready
    · rw [hlen, hcount]
    · rw [hstored, hchannel, hqueue]
      simp
    · rw [hchannel, hqueue]
      simp

/-- `_inbyte` with an empty queue gives the byte that the UART has in time, and takes
no other. -/
theorem inbyte_of_queue_nil (hqueue : c.queue = []) :
    (c.inbyte ready).2.stored.length ≤ 1 ∧ (c.inbyte ready).2.channel.queue = [] ∧
      (c.inbyte ready).1.toList ++ (c.inbyte ready).2.channel.rx = c.rx := by
  obtain ⟨hstored, hcount, hchannel⟩ := c.timedReadBytes_pos 1 ready Nat.one_pos
  have hle := c.length_uartShare_le 1 ready
  have hrx : c.uartShare 1 ready ≤ c.rx.length := by
    unfold uartShare
    omega
  rw [hqueue, List.nil_append] at hstored
  simp only [inbyte, hstored, hcount, hchannel]
  refine ⟨by rw [List.length_take]; omega, trivial, ?_⟩
  rcases Nat.le_one_iff_eq_zero_or_eq_one.mp hle with hshare | hshare
  · simp [hshare]
  · cases hbytes : c.rx with
    | nil => simp [hbytes, hshare] at hrx
    | cons data rx => simp [hshare]

/-- With an empty queue a transfer reads what the UART delivers. -/
theorem inbytes_of_queue_nil (hqueue : c.queue = []) (calls : List (Option Nat)) :
    (∀ stored ∈ (c.inbytes calls).2.1, stored.length ≤ 1) ∧ (c.inbytes calls).2.2.queue = [] ∧
      (c.inbytes calls).1.filterMap id ++ (c.inbytes calls).2.2.rx = c.rx := by
  induction calls generalizing c with
  | nil => exact ⟨by simp [inbytes], hqueue, by simp [inbytes]⟩
  | cons ready more ih =>
    obtain ⟨hfits, hempty, hrx⟩ := c.inbyte_of_queue_nil ready hqueue
    obtain ⟨hfits', hempty', hrx'⟩ := ih (c.inbyte ready).2.channel hempty
    simp only [inbytes, List.forall_mem_cons]
    refine ⟨⟨hfits, hfits'⟩, hempty', ?_⟩
    have hhead : ((c.inbyte ready).1 :: ((c.inbyte ready).2.channel.inbytes more).1).filterMap id =
        (c.inbyte ready).1.toList ++ ((c.inbyte ready).2.channel.inbytes more).1.filterMap id := by
      cases (c.inbyte ready).1 <;> simp
    rw [hhead, List.append_assoc, hrx', hrx]

theorem not_delivers_of_queue (hqueue : c.queue ≠ []) (hpos : 0 < length) :
    ¬(c.timedReadBytes length ready).Delivers c length := by
  intro hdelivers
  obtain ⟨hstored, hcount, -⟩ := c.timedReadBytes_pos length ready hpos
  have hcounts := hdelivers.counts
  have hlen := List.length_pos_iff.mpr hqueue
  rw [hcount, hstored, List.length_append, List.length_take] at hcounts
  unfold uartShare at hcounts
  omega

/-- The first call of a transfer writes past its byte, or gives up a byte it took. -/
theorem not_inbytesDeliver_of_queue (hqueue : c.queue ≠ []) (more : List (Option Nat)) :
    ¬c.InbytesDeliver (ready :: more) := by
  rintro ⟨hfits, horder⟩
  obtain ⟨hstored, hcount, hchannel⟩ := c.timedReadBytes_pos 1 ready Nat.one_pos
  have hlen := List.length_pos_iff.mpr hqueue
  have hfirst : (c.inbyte ready).2.stored.length ≤ 1 := hfits _ (by simp [inbytes])
  simp only [inbyte, hstored, List.length_append, List.length_take] at hfirst
  have hshare : c.uartShare 1 ready = 0 := by
    have : c.uartShare 1 ready ≤ c.rx.length := by
      unfold uartShare
      omega
    omega
  have hnone : (c.inbyte ready).1 = none := by simp [inbyte, hcount, hshare]
  have hafter : (c.inbyte ready).2.channel = { c with queue := [] } := by simp [inbyte, hchannel, hshare]
  obtain ⟨-, hempty, hrest⟩ := (c.inbyte ready).2.channel.inbytes_of_queue_nil (by rw [hafter]) more
  have hgiven : (c.inbytes (ready :: more)).1.filterMap id =
      ((c.inbyte ready).2.channel.inbytes more).1.filterMap id := by
    simp [inbytes, hnone]
  have hlast : (c.inbytes (ready :: more)).2.2 = ((c.inbyte ready).2.channel.inbytes more).2.2 := rfl
  rw [hgiven, hlast, hempty, List.nil_append, hrest, hafter] at horder
  change c.rx = c.queue ++ c.rx at horder
  have := congrArg List.length horder
  rw [List.length_append] at this
  omega

/-- Binary reads are in order exactly while no received byte waits in the queue: the
loop over the queue never counts down the bytes that remain, so a queued byte is
stored on top of those asked for, and is not part of the number returned. -/
theorem timedReadBytes_delivers_iff (calls : List (Option Nat)) :
    ((c.timedReadBytes length ready).Delivers c length ↔ c.queue = [] ∨ length = 0) ∧
      (c.InbytesDeliver calls ↔ c.queue = [] ∨ calls = []) := by
  constructor
  · constructor
    · intro hdelivers
      by_contra hnot
      obtain ⟨hqueue, hlength⟩ := not_or.mp hnot
      exact c.not_delivers_of_queue length ready hqueue (Nat.pos_of_ne_zero hlength) hdelivers
    · rintro (hqueue | rfl)
      · exact c.timedReadBytes_delivers length ready hqueue
      · rw [timedReadBytes_zero]
        exact ⟨Nat.le_refl _, rfl, rfl, rfl⟩
  · constructor
    · intro hdeliver
      by_contra hnot
      obtain ⟨hqueue, hcalls⟩ := not_or.mp hnot
      obtain ⟨ready, more, rfl⟩ := List.exists_cons_of_ne_nil hcalls
      exact c.not_inbytesDeliver_of_queue ready hqueue more hdeliver
    · rintro (hqueue | rfl)
      · obtain ⟨hfits, hempty, hrx⟩ := c.inbytes_of_queue_nil hqueue calls
        refine ⟨hfits, ?_⟩
        rw [hempty, hqueue, List.nil_append, List.nil_append, hrx]
      · exact ⟨by simp [inbytes], by simp [inbytes]⟩

/-- Two bytes of a line wait in the queue when a transfer takes over: its first read
of one byte stores three, and says that it is one. -/
theorem timedReadBytes_overruns :
    let c : Channel := { queue := bytes "G0", rx := [0x01] }
    c.timedReadBytes 1 (some 1) = { stored := bytes "G0" ++ [0x01], count := 1, channel := {} } ∧
      ¬(c.timedReadBytes 1 (some 1)).Delivers c 1 ∧ ¬c.InbytesDeliver [some 1] := by
  refine ⟨by decide, fun hdelivers => absurd hdelivers.fits (by decide), fun hdeliver => ?_⟩
  exact absurd (hdeliver.1 (bytes "G0" ++ [0x01]) (by decide)) (by decide)

end Channel

end DuneWeaver
