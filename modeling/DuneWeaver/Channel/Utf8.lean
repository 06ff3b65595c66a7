import DuneWeaver.Bytes
import Mathlib.Algebra.Group.Nat.Defs

namespace DuneWeaver

/-- The `UTF8` decoder: how many bytes of a sequence are still to come, and the
bits of those that have come. -/
structure UTF8 where
  state : Nat := 0
  num : Nat := 0
  deriving DecidableEq

/-- What `UTF8::decode` returns: -1, 0, or 1 with a value. -/
inductive Decoded where
  | error
  | pending
  | value (value : Nat)
  deriving DecidableEq

/-- Decode one byte. Outside of a sequence, 0x80 to 0xbe pass through as they are. -/
def UTF8.decode (u : UTF8) (ch : UInt8) : UTF8 × Decoded :=
  if u.state ≠ 0 then
    if ch &&& 0xc0 ≠ 0x80 then ({ u with state := 0 }, .error)
    else
      let num := u.num <<< 6 ||| (ch &&& 0x3f).toNat
      if u.state - 1 ≠ 0 then ({ state := u.state - 1, num }, .pending)
      else ({ state := 0, num }, .value num)
  else if ch < 0x80 then (u, .value ch.toNat)
  else if ch < 0xbf then (u, .value ch.toNat)
  else if ch ≥ 0xf8 then (u, .error)
  else if ch ≥ 0xf0 then ({ state := 3, num := (ch &&& 0x07).toNat }, .pending)
  else if ch ≥ 0xe0 then ({ state := 2, num := (ch &&& 0x0f).toNat }, .pending)
  else if ch ≥ 0xc0 then ({ state := 1, num := (ch &&& 0x1f).toNat }, .pending)
  else (u, .error)

namespace UTF8

/-- A byte below 0x80 or from 0xc0 on breaks off the sequence it comes in, and is
swallowed. -/
theorem decode_breaks {u : UTF8} {ch : UInt8} (hstate : u.state ≠ 0) (hch : ch &&& 0xc0 ≠ 0x80) :
    u.decode ch = ({ u with state := 0 }, .error) := by
  unfold decode
  rw [if_pos hstate, if_pos hch]

/-- Outside of a sequence an ASCII character stands for itself. -/
theorem decode_ascii {u : UTF8} {ch : UInt8} (hstate : u.state = 0) (hch : ch < 0x80) :
    u.decode ch = (u, .value ch.toNat) := by
  unfold decode
  rw [if_neg (by simpa using hstate), if_pos hch]

/-- So does a byte that GRBL uses for an extended realtime command. -/
theorem decode_extended {u : UTF8} {ch : UInt8} (hstate : u.state = 0) (hch : ch < 0xbf) :
    u.decode ch = (u, .value ch.toNat) := by
  unfold decode
  rw [if_neg (by simpa using hstate), if_pos hch, ite_self]

end UTF8

/-- `UTF8::encode`: nothing for what is no code point, else one to four bytes. -/
def UTF8.encode (value : UInt32) : List UInt8 :=
  List.map UInt32.toUInt8 <|
    if value ≥ 0x110000 then []
    else if value ≥ 0x10000 then
      [(0xf0 : UInt32) ||| ((value >>> 18) &&& 0x07), (0x80 : UInt32) ||| ((value >>> 12) &&& 0x3f),
        (0x80 : UInt32) ||| ((value >>> 6) &&& 0x3f), 0x80 ||| (value &&& 0x3f)]
    else if value ≥ 0x800 then
      [(0xe0 : UInt32) ||| ((value >>> 12) &&& 0x0f), (0x80 : UInt32) ||| ((value >>> 6) &&& 0x3f),
      0x80 ||| (value &&& 0x3f)]
    else if value ≥ 0x80 then
      [(0xc0 : UInt32) ||| ((value >>> 6) &&& 0x01f), 0x80 ||| (value &&& 0x3f)]
    else [value]

/-- The decoder after a run of bytes, and what it returned for each. -/
def UTF8.feed (u : UTF8) : List UInt8 → UTF8 × List Decoded
  | [] => (u, [])
  | ch :: input =>
    let (u, result) := u.decode ch
    let (u, results) := u.feed input
    (u, result :: results)

namespace UTF8

/-- What holds of all 256 bytes by computation holds of every byte. -/
private theorem every_byte {p : UInt8 → Prop} (h : ∀ b : Fin 256, p (UInt8.ofFin b)) (b : UInt8) : p b :=
  h b.toFin

/-- The bytes that follow the first carry six bits each and open with binary 10. -/
private theorem trailing_byte (b : UInt8) :
    (0x80 ||| (b &&& 0x3f)) &&& 0xc0 = 0x80 ∧ (0x80 ||| (b &&& 0x3f)) &&& 0x3f = b &&& 0x3f :=
  every_byte (p := fun b => (0x80 ||| (b &&& 0x3f)) &&& 0xc0 = 0x80 ∧
    (0x80 ||| (b &&& 0x3f)) &&& 0x3f = b &&& 0x3f) (by decide +kernel) b

theorem toNat_low_bits (v : UInt32) (bits : Nat) (hbits : bits ≤ 8) (n : Nat) (hn : n = 2 ^ bits) (mask : UInt8)
    (hmask : mask.toNat = n - 1) : (v.toUInt8 &&& mask).toNat = v.toNat % n := by
  subst hn
  rw [UInt8.toNat_and, hmask, Nat.and_two_pow_sub_one_eq_mod, UInt32.toNat_toUInt8]
  exact Nat.mod_mod_of_dvd _ (Nat.pow_dvd_pow 2 hbits)

/-- A trailing byte, when one is due, shifts its six bits in. -/
private theorem decode_trailing {u : UTF8} (v : UInt32) (hstate : u.state ≠ 0) :
    u.decode (0x80 ||| (v &&& 0x3f)).toUInt8 =
      if u.state - 1 ≠ 0 then
        ({ state := u.state - 1, num := u.num * 64 + v.toNat % 64 }, .pending)
      else
        ({ state := 0, num := u.num * 64 + v.toNat % 64 }, .value (u.num * 64 + v.toNat % 64)) := by
  have hbyte : (0x80 ||| (v &&& 0x3f)).toUInt8 = 0x80 ||| (v.toUInt8 &&& 0x3f) := by
    rw [UInt32.toUInt8_or, UInt32.toUInt8_and]; rfl
  obtain ⟨hopen, hbits⟩ := trailing_byte v.toUInt8
  have hnum : u.num <<< 6 ||| (v.toUInt8 &&& 0x3f).toNat = u.num * 64 + v.toNat % 64 := by
    rw [toNat_low_bits v 6 (by decide) 64 rfl 0x3f rfl, ← Nat.shiftLeft_add_eq_or_of_lt (by omega), Nat.shiftLeft_eq]
  rw [hbyte]
  unfold decode
  simp only [if_pos hstate, hopen, hbits, hnum, ne_eq, not_true_eq_false, if_false]

theorem decode_more (state num : Nat) (v : UInt32) :
    decode { state := state + 2, num } (0x80 ||| (v &&& 0x3f)).toUInt8 =
      ({ state := state + 1, num := num * 64 + v.toNat % 64 }, .pending) :=
  decode_trailing v (Nat.succ_ne_zero _)

theorem decode_last (num : Nat) (v : UInt32) :
    decode { state := 1, num } (0x80 ||| (v &&& 0x3f)).toUInt8 =
      ({ state := 0, num := num * 64 + v.toNat % 64 }, .value (num * 64 + v.toNat % 64)) :=
  decode_trailing v Nat.one_ne_zero

/-- The first byte of a sequence by its range; what the decoder kept of the sequence
before is overwritten. -/
theorem decode_lead {u : UTF8} {ch : UInt8} (hstate : u.state = 0) (hch : 0xc0 ≤ ch) (hlast : ch < 0xf8) :
    u.decode ch =
      if 0xf0 ≤ ch then ({ state := 3, num := (ch &&& 0x07).toNat }, .pending)
      else if 0xe0 ≤ ch then ({ state := 2, num := (ch &&& 0x0f).toNat }, .pending)
      else ({ state := 1, num := (ch &&& 0x1f).toNat }, .pending) := by
  have hascii : ¬ ch < 0x80 := by grind
  have hpass : ¬ ch < 0xbf := by grind
  have hstart : ¬ ch ≥ 0xf8 := by grind
  unfold decode
  rw [if_neg (by simpa using hstate), if_neg hascii, if_neg hpass, if_neg hstart, if_pos hch]

/-- The lead bytes that `encode` builds are in the range of their length, and carry the
bits below the length's mark. -/
private theorem lead_byte (b : UInt8) :
    (0xc0 ≤ 0xc0 ||| (b &&& 0x1f) ∧ 0xc0 ||| (b &&& 0x1f) < 0xe0 ∧
      (0xc0 ||| (b &&& 0x1f)) &&& 0x1f = b &&& 0x1f) ∧
    (0xe0 ≤ 0xe0 ||| (b &&& 0x0f) ∧ 0xe0 ||| (b &&& 0x0f) < 0xf0 ∧
      (0xe0 ||| (b &&& 0x0f)) &&& 0x0f = b &&& 0x0f) ∧
    (0xf0 ≤ 0xf0 ||| (b &&& 0x07) ∧ 0xf0 ||| (b &&& 0x07) < 0xf8 ∧
      (0xf0 ||| (b &&& 0x07)) &&& 0x07 = b &&& 0x07) :=
  every_byte (p := fun b =>
    (0xc0 ≤ 0xc0 ||| (b &&& 0x1f) ∧ 0xc0 ||| (b &&& 0x1f) < 0xe0 ∧
      (0xc0 ||| (b &&& 0x1f)) &&& 0x1f = b &&& 0x1f) ∧
    (0xe0 ≤ 0xe0 ||| (b &&& 0x0f) ∧ 0xe0 ||| (b &&& 0x0f) < 0xf0 ∧
      (0xe0 ||| (b &&& 0x0f)) &&& 0x0f = b &&& 0x0f) ∧
    (0xf0 ≤ 0xf0 ||| (b &&& 0x07) ∧ 0xf0 ||| (b &&& 0x07) < 0xf8 ∧
      (0xf0 ||| (b &&& 0x07)) &&& 0x07 = b &&& 0x07)) (by decide +kernel) b

theorem decode_lead_two {u : UTF8} (v : UInt32) (hstate : u.state = 0) :
    u.decode (0xc0 ||| (v &&& 0x01f)).toUInt8 = ({ state := 1, num := v.toNat % 32 }, .pending) := by
  have hbyte : (0xc0 ||| (v &&& 0x01f)).toUInt8 = 0xc0 ||| (v.toUInt8 &&& 0x1f) := by
    rw [UInt32.toUInt8_or, UInt32.toUInt8_and]; rfl
  obtain ⟨hfirst, hlast, hbits⟩ := (lead_byte v.toUInt8).1
  rw [hbyte, decode_lead hstate hfirst (by grind), if_neg (by grind), if_neg (by grind), hbits,
    toNat_low_bits v 5 (by decide) 32 rfl 0x1f rfl]

theorem decode_lead_three {u : UTF8} (v : UInt32) (hstate : u.state = 0) :
    u.decode (0xe0 ||| (v &&& 0x0f)).toUInt8 = ({ state := 2, num := v.toNat % 16 }, .pending) := by
  have hbyte : (0xe0 ||| (v &&& 0x0f)).toUInt8 = 0xe0 ||| (v.toUInt8 &&& 0x0f) := by
    rw [UInt32.toUInt8_or, UInt32.toUInt8_and]; rfl
  obtain ⟨hfirst, hlast, hbits⟩ := (lead_byte v.toUInt8).2.1
  rw [hbyte, decode_lead hstate (by grind) (by grind), if_neg (by grind), if_pos hfirst, hbits,
    toNat_low_bits v 4 (by decide) 16 rfl 0x0f rfl]

theorem decode_lead_four {u : UTF8} (v : UInt32) (hstate : u.state = 0) :
    u.decode (0xf0 ||| (v &&& 0x07)).toUInt8 = ({ state := 3, num := v.toNat % 8 }, .pending) := by
  have hbyte : (0xf0 ||| (v &&& 0x07)).toUInt8 = 0xf0 ||| (v.toUInt8 &&& 0x07) := by
    rw [UInt32.toUInt8_or, UInt32.toUInt8_and]; rfl
  obtain ⟨hfirst, hlast, hbits⟩ := (lead_byte v.toUInt8).2.2
  rw [hbyte, decode_lead hstate (by grind) hlast, if_pos hfirst, hbits,
    toNat_low_bits v 3 (by decide) 8 rfl 0x07 rfl]

/-- What the decoder returned but for the results that ask for more. -/
def outcomes (results : List Decoded) : List Decoded :=
  results.filter (· ≠ .pending)

theorem feed_append (u : UTF8) (a b : List UInt8) :
    u.feed (a ++ b) = (((u.feed a).1.feed b).1, (u.feed a).2 ++ ((u.feed a).1.feed b).2) := by
  induction a generalizing u with
  | nil => rfl
  | cons ch a ih => simp only [List.cons_append, feed, ih]

/-- A byte that opens no sequence leaves the decoder as it is. -/
theorem decode_single {ch : UInt8} (hch : ¬ (0xc0 ≤ ch ∧ ch < 0xf8)) :
    ∃ result, ∀ u : UTF8, u.state = 0 → u.decode ch = (u, result) := by
  by_cases hpass : ch < 0xbf
  · exact ⟨_, fun u hu => decode_extended hu hpass⟩
  refine ⟨.error, fun u hu => ?_⟩
  have hascii : ¬ ch < 0x80 := by grind
  unfold decode
  rw [if_neg (by simpa using hu), if_neg hascii, if_neg hpass]
  by_cases hstart : ch ≥ 0xf8
  · rw [if_pos hstart]
  · rw [if_neg hstart, if_neg (by grind), if_neg (by grind), if_neg (by grind)]

/-- Between two sequences only the state counts: the bits kept of the last one are not
read again, so the decoder answers any input as a new one does. -/
theorem feed_of_state {u w : UTF8} (hu : u.state = 0) (hw : w.state = 0) (input : List UInt8) :
    (u.feed input).2 = (w.feed input).2 := by
  induction input generalizing u w with
  | nil => rfl
  | cons ch input ih =>
    by_cases hlead : 0xc0 ≤ ch ∧ ch < 0xf8
    · have hsame : u.decode ch = w.decode ch := by
        rw [decode_lead hu hlead.1 hlead.2, decode_lead hw hlead.1 hlead.2]
      simp only [feed, hsame]
    · obtain ⟨result, hsingle⟩ := decode_single hlead
      simp only [feed, hsingle u hu, hsingle w hw, ih hu hw]

/-- One code point: its last byte yields it, those before ask for more, and the decoder is
between two sequences again. -/
theorem feed_encode {u : UTF8} {value : UInt32} (hstate : u.state = 0) (hvalue : value < 0x110000) :
    ∃ waits num, u.feed (encode value) =
      ({ state := 0, num }, List.replicate waits .pending ++ [.value value.toNat]) := by
  have hbound : value.toNat < 0x110000 := by simpa [UInt32.lt_iff_toNat_lt] using hvalue
  have hsix : (value >>> 6).toNat = value.toNat / 64 := by simp [Nat.shiftRight_eq_div_pow]
  have htwelve : (value >>> 12).toNat = value.toNat / 4096 := by simp [Nat.shiftRight_eq_div_pow]
  have heighteen : (value >>> 18).toNat = value.toNat / 262144 := by simp [Nat.shiftRight_eq_div_pow]
  unfold encode
  rw [if_neg (by simpa using hvalue)]
  split
  case isTrue =>
    have hdigits : ((value.toNat / 262144 % 8 * 64 + value.toNat / 4096 % 64) * 64
        + value.toNat / 64 % 64) * 64 + value.toNat % 64 = value.toNat := by omega
    simp only [List.map, feed, decode_lead_four _ hstate, decode_more 1, decode_more 0, decode_last,
      Nat.zero_add, hsix, htwelve, heighteen, hdigits]
    exact ⟨3, _, rfl⟩
  split
  case isTrue hshort _ =>
    have hlow : value.toNat < 0x10000 := by simpa [UInt32.le_iff_toNat_le] using hshort
    have hdigits : (value.toNat / 4096 % 16 * 64 + value.toNat / 64 % 64) * 64
        + value.toNat % 64 = value.toNat := by omega
    simp only [List.map, feed, decode_lead_three _ hstate, decode_more 0, decode_last, Nat.zero_add,
      hsix, htwelve, hdigits]
    exact ⟨2, _, rfl⟩
  split
  case isTrue hshort _ =>
    have hlow : value.toNat < 0x800 := by simpa [UInt32.le_iff_toNat_le] using hshort
    have hdigits : value.toNat / 64 % 32 * 64 + value.toNat % 64 = value.toNat := by omega
    simp only [List.map, feed, decode_lead_two _ hstate, decode_last, hsix, hdigits]
    exact ⟨1, _, rfl⟩
  case isFalse hshort =>
    have hlow : value.toNat < 0x80 := by simpa [UInt32.le_iff_toNat_le] using hshort
    have hbyte : value.toUInt8.toNat = value.toNat := by
      rw [UInt32.toNat_toUInt8, Nat.mod_eq_of_lt (by omega)]
    have hascii : value.toUInt8 < 0x80 := by
      rw [UInt8.lt_iff_toNat_lt, hbyte]; exact hlow
    simp only [List.map, feed, decode_ascii hstate hascii, hbyte]
    have hsame : u = { state := 0, num := u.num } := by rw [← hstate]
    exact ⟨0, u.num, congrArg (·, [Decoded.value value.toNat]) hsame⟩

theorem outcomes_append (a b : List Decoded) : outcomes (a ++ b) = outcomes a ++ outcomes b :=
  List.filter_append ..

theorem outcomes_waits (waits : Nat) : outcomes (List.replicate waits .pending) = [] := by
  simp [outcomes]

/-- The encodings of any code points, one after another, decode to these code points and
nothing else, and leave the decoder between two sequences, where it cannot be told from a
new one. -/
theorem decode_encodings (values : List UInt32) (hvalues : ∀ value ∈ values, value < 0x110000) :
    let fed := feed {} (values.flatMap encode)
    outcomes fed.2 = values.map (fun value => .value value.toNat) ∧ fed.1.state = 0 ∧
      ∀ input, (fed.1.feed input).2 = (feed {} input).2 := by
  have hrun : ∀ u : UTF8, u.state = 0 →
      outcomes (u.feed (values.flatMap encode)).2 = values.map (fun value => .value value.toNat) ∧
        (u.feed (values.flatMap encode)).1.state = 0 := by
    induction values with
    | nil => exact fun u hu => ⟨rfl, hu⟩
    | cons value values ih =>
      intro u hu
      obtain ⟨waits, num, hone⟩ := feed_encode hu (hvalues value (List.mem_cons_self ..))
      obtain ⟨hrest, hlast⟩ :=
        ih (fun v hv => hvalues v (List.mem_cons_of_mem _ hv)) { state := 0, num } rfl
      rw [List.flatMap_cons, feed_append, hone]
      refine ⟨?_, hlast⟩
      rw [outcomes_append, outcomes_append, outcomes_waits, hrest]
      rfl
  obtain ⟨hvalues, hstate⟩ := hrun {} rfl
  exact ⟨hvalues, hstate, feed_of_state hstate rfl⟩

theorem decode_encodings_lengths :
    let fed := feed {} ([0x24, 0x7ff, 0x20ac, 0x10ffff].flatMap encode)
    outcomes fed.2 = [.value 0x24, .value 0x7ff, .value 0x20ac, .value 0x10ffff] ∧ fed.1.state = 0 ∧
      ∀ input, (fed.1.feed input).2 = (feed {} input).2 :=
  decode_encodings [0x24, 0x7ff, 0x20ac, 0x10ffff] (by simp)

end UTF8

end DuneWeaver
