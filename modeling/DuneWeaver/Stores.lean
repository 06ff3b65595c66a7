import Mathlib.Data.List.Induction
import DuneWeaver.Bytes

namespace DuneWeaver

/-- A store into a buffer, which there is only inside of it. -/
def store (buffer : Bytes) (i : Nat) (c : UInt8) : Option Bytes :=
  if i < buffer.length then some (buffer.set i c) else none

/-- The stores of a string, one character after the other. -/
def store_all (buffer : Bytes) (i : Nat) : Bytes → Option Bytes
  | [] => some buffer
  | c :: text => (store buffer i c).bind fun buffer => store_all buffer (i + 1) text

theorem store_length {buffer buffer' : Bytes} {i : Nat} {c : UInt8} (h : store buffer i c = some buffer') :
    buffer'.length = buffer.length := by
  unfold store at h
  split_ifs at h
  rw [← Option.some.inj h, List.length_set]

theorem store_middle (a b : Bytes) (c d : UInt8) : store (a ++ c :: b) a.length d = some (a ++ d :: b) := by
  unfold store
  rw [if_pos (by rw [List.length_append, List.length_cons]; omega), List.set_append_right _ _ (Nat.le_refl _),
    Nat.sub_self]
  rfl

/-- One character of a buffer is copied to another place of it. -/
def move (dst src : Nat) (buffer : Bytes) : Option Bytes :=
  buffer[src]?.bind fun c => store buffer dst c

/-- A copy upwards within a buffer, from its end on: `for (p = end; --p >= stop;) p[0] = p[-dist]`. -/
def shift_up (stop dist : Nat) : Nat → Bytes → Option Bytes
  | 0, buffer => some buffer
  | p + 1, buffer =>
    if stop ≤ p then (move p (p - dist) buffer).bind (shift_up stop dist p) else some buffer

/-- A copy downwards by one character: `for (; p < end; p++) p[0] = p[1]`, which takes so many turns. -/
def shift_down : Nat → Nat → Bytes → Option Bytes
  | 0, _, buffer => some buffer
  | turns + 1, p, buffer => (move p (p + 1) buffer).bind (shift_down turns (p + 1))

theorem getElem?_middle {α : Type} (a b : List α) (c : α) : (a ++ c :: b)[a.length]? = some c := by
  rw [List.getElem?_append_right (Nat.le_refl _), Nat.sub_self]
  rfl

/-- What is copied upwards keeps its order, since the copy begins at its end. -/
theorem shift_up_eq {dist : Nat} (hdist : 0 < dist) (a m junk rest : Bytes) (hjunk : junk.length = dist) :
    shift_up (a.length + dist) dist (a.length + m.length + dist) (a ++ (m ++ junk) ++ rest) =
      some (a ++ ((m ++ junk).take dist ++ m) ++ rest) := by
  induction m using List.reverseRecOn generalizing junk rest with
  | nil =>
    rw [List.length_nil, Nat.add_zero, List.nil_append, List.append_nil, List.take_of_length_le (Nat.le_of_eq hjunk)]
    cases hp : a.length + dist with
    | zero => rfl
    | succ p => rw [shift_up, if_neg (by omega)]
  | append_singleton m c ih =>
    obtain ⟨junk, d, rfl⟩ := List.eq_nil_or_concat junk |>.resolve_left (by
      intro hnil
      rw [hnil, List.length_nil] at hjunk
      omega)
    rw [List.concat_eq_append] at hjunk ⊢
    rw [List.length_append, List.length_singleton] at hjunk
    have hp : a.length + (m ++ [c]).length + dist = a.length + m.length + dist + 1 := by
      rw [List.length_append, List.length_singleton]
      omega
    have hread : a ++ (m ++ [c] ++ (junk ++ [d])) ++ rest = (a ++ m) ++ c :: (junk ++ [d] ++ rest) := by
      simp only [List.append_assoc, List.cons_append, List.nil_append]
    have hwrite : (a ++ m) ++ c :: (junk ++ [d] ++ rest) = (a ++ m ++ c :: junk) ++ d :: rest := by
      simp only [List.append_assoc, List.cons_append, List.nil_append]
    have hdst : a.length + m.length + dist = (a ++ m ++ c :: junk).length := by
      simp only [List.length_append, List.length_cons]
      omega
    have hsrc : a.length + m.length + dist - dist = (a ++ m).length := by
      rw [List.length_append]
      omega
    have hmove : move (a.length + m.length + dist) (a.length + m.length + dist - dist)
        (a ++ (m ++ [c] ++ (junk ++ [d])) ++ rest) = some (a ++ (m ++ c :: junk) ++ c :: rest) := by
      rw [move, hsrc, hread, getElem?_middle, Option.bind_some, hwrite, hdst, store_middle, List.append_assoc a]
    rw [hp, shift_up, if_pos (by omega), hmove, Option.bind_some,
      ih (c :: junk) (c :: rest) (by rw [List.length_cons]; exact hjunk)]
    have hfront : (m ++ c :: junk).take dist = (m ++ [c] ++ (junk ++ [d])).take dist := by
      have hlong : m ++ [c] ++ (junk ++ [d]) = (m ++ c :: junk) ++ [d] := by
        simp only [List.append_assoc, List.cons_append, List.nil_append]
      have hlength : dist ≤ (m ++ c :: junk).length := by
        rw [List.length_append, List.length_cons]
        omega
      rw [hlong, List.take_append_of_le_length hlength]
    rw [hfront]
    simp only [List.append_assoc, List.cons_append, List.nil_append]

/-- What is copied downwards leaves its last character twice. -/
theorem shift_down_eq (a m rest : Bytes) (c : UInt8) :
    ∃ d, shift_down m.length a.length (a ++ c :: m ++ rest) = some (a ++ m ++ d :: rest) := by
  induction m generalizing a c with
  | nil => exact ⟨c, by rw [List.append_nil, List.append_assoc]; rfl⟩
  | cons b m ih =>
    have hread : a ++ c :: b :: m ++ rest = (a ++ [c]) ++ b :: (m ++ rest) := by
      simp only [List.append_assoc, List.cons_append, List.nil_append]
    have hmove : move a.length (a.length + 1) (a ++ c :: b :: m ++ rest) = some ((a ++ [b]) ++ b :: m ++ rest) := by
      have hsrc : a.length + 1 = (a ++ [c]).length := by rw [List.length_append, List.length_singleton]
      rw [move, hread, hsrc, getElem?_middle, Option.bind_some, List.append_assoc, List.singleton_append, store_middle]
      simp only [List.append_assoc, List.cons_append, List.nil_append]
    obtain ⟨d, hd⟩ := ih (a ++ [b]) b
    refine ⟨d, ?_⟩
    rw [List.length_append, List.length_singleton] at hd
    rw [List.length_cons, shift_down, hmove, Option.bind_some, hd]
    simp only [List.append_assoc, List.cons_append, List.nil_append]

/-- A store behind what is there already. -/
theorem store_fits {buffer : Bytes} {i : Nat} (c : UInt8) (h : i < buffer.length) :
    ∃ buffer', store buffer i c = some buffer' ∧ buffer'.length = buffer.length ∧
      buffer'.take (i + 1) = buffer.take i ++ [c] := by
  refine ⟨buffer.set i c, by rw [store, if_pos h], List.length_set, ?_⟩
  rw [List.take_add_one, List.take_set_of_le (Nat.le_refl i), List.getElem?_set_self h]
  rfl

theorem store_all_fits {text : Bytes} {buffer : Bytes} {i : Nat} (h : i + text.length ≤ buffer.length) :
    ∃ buffer', store_all buffer i text = some buffer' ∧ buffer'.length = buffer.length ∧
      buffer'.take (i + text.length) = buffer.take i ++ text := by
  induction text generalizing buffer i with
  | nil => exact ⟨buffer, rfl, rfl, by rw [List.length_nil, Nat.add_zero, List.append_nil]⟩
  | cons c text ih =>
    rw [List.length_cons] at h
    obtain ⟨next, hstore, hlength, htake⟩ := store_fits c (by omega : i < buffer.length)
    obtain ⟨last, hall, hlength', htake'⟩ := ih (by omega : i + 1 + text.length ≤ next.length)
    refine ⟨last, ?_, hlength'.trans hlength, ?_⟩
    · rw [store_all, hstore, Option.bind_some, hall]
    · rw [htake] at htake'
      rw [List.length_cons, Nat.add_comm text.length 1, ← Nat.add_assoc, htake', List.append_assoc]
      rfl

/-- What `sprintf` stores of a text, with a NUL behind it. -/
theorem sprintf_fits {text : Bytes} {buffer : Bytes} {i : Nat} (h : i + text.length < buffer.length) :
    ∃ buffer', store_all buffer i (text ++ [0]) = some buffer' ∧ buffer'.length = buffer.length ∧
      buffer'.take (i + text.length) = buffer.take i ++ text := by
  obtain ⟨last, hall, hlength, htake⟩ :=
    store_all_fits (by rw [List.length_append, List.length_singleton]; omega :
      i + (text ++ [0]).length ≤ buffer.length)
  refine ⟨last, hall, hlength, ?_⟩
  have hshort := congrArg (List.take (i + text.length)) htake
  rw [List.take_take, List.length_append, Nat.min_eq_left (by omega), ← List.append_assoc] at hshort
  rw [hshort]
  apply List.take_left'
  rw [List.length_append, List.length_take, Nat.min_eq_left (by omega)]

/-- A C string ends at the first NUL. -/
theorem c_str_before_nul (text rest : Bytes) : c_str (text ++ 0 :: rest) = c_str text := by
  induction text with
  | nil => rfl
  | cons c text ih =>
    by_cases hc : c = 0
    · simp [c_str, hc]
    · unfold c_str at ih ⊢
      rw [List.cons_append, List.takeWhile_cons_of_pos (by simpa using hc),
        List.takeWhile_cons_of_pos (by simpa using hc), ih]

/-- The string in a buffer, up to a NUL that has been stored behind it. -/
theorem c_str_of_take {buffer buffer' : Bytes} {len : Nat} (htext : 0 ∉ buffer.take len)
    (hstore : store buffer len 0 = some buffer') : c_str buffer' = buffer.take len := by
  unfold store at hstore
  split_ifs at hstore with hlen
  rw [← Option.some.inj hstore]
  have hsplit : buffer.set len 0 = buffer.take len ++ 0 :: buffer.drop (len + 1) := by
    rw [List.set_eq_take_append_cons_drop, if_pos hlen]
  rw [hsplit, c_str_before_nul, c_str_eq_self htext]

end DuneWeaver
