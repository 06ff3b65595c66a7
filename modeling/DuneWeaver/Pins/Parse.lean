import DuneWeaver.Configuration.Generator
import DuneWeaver.Spacing.Words
import Mathlib.Data.List.Infix

open DuneWeaver.Configuration

namespace DuneWeaver.Pins

/-- A text where it stands in memory: the byte in front of it, and what stands behind. Addresses are 32-bit words. -/
structure Placed where
  front : UInt8
  text : Bytes
  behind : Bytes
  fits : text.length + behind.length + 1 < 2 ^ 32

def Placed.memory (s : Placed) : Bytes := s.front :: (s.text ++ s.behind)

/-- `std::string_view`. -/
structure View where
  start : Nat
  length : Nat
  deriving DecidableEq

namespace View

/-- The arithmetic of the address and of the length is that of the words. -/
def remove_prefix (n : Nat) (v : View) : View := ⟨(v.start + n) % 2 ^ 32, (v.length + (2 ^ 32 - n)) % 2 ^ 32⟩

def bytes (memory : Bytes) (v : View) : Bytes := (memory.drop v.start).take v.length

/-- All of `v` is part of `whole`. -/
def Within (v whole : View) : Prop :=
  v.length = 0 ∨ whole.start ≤ v.start ∧ v.start + v.length ≤ whole.start + whole.length

instance (v whole : View) : Decidable (v.Within whole) := inferInstanceAs (Decidable (_ ∨ _))

end View

/-- `std::string_view::npos`. -/
def npos : Nat := 2 ^ 32 - 1

/-- A number without its sign. -/
def unsigned (body : Bytes) : Bytes := if body.head? = some 0x2d ∨ body.head? = some 0x2b then body.tail else body

/-- What is behind the white space, the sign and the digits that `strtoul` goes over. It looks at one character more. -/
def behindNumber (s : Bytes) : Bytes := (unsigned (s.dropWhile isspace)).dropWhile isdigit

/-- How many characters are the same in front of both, in whatever case its letters are. -/
def agreeing : Bytes → Bytes → Nat
  | c :: a, d :: b => if tolower c = tolower d then agreeing a b + 1 else 0
  | _, _ => 0

inductive PinDetail where
  | undefined
  | gpio (number : UInt8) (options : Bytes)
  | i2so (number : UInt8) (options : Bytes)
  | channel (num : Int32) (number : UInt32) (options : Bytes)
  | void

/-- The machine as far as pins are made with it: which of them their constructors take, and which channels there are. -/
structure Details where
  gpio : UInt8 → Bytes → Bool
  i2so : UInt8 → Bytes → Bool
  channel : Int32 → UInt32 → Bytes → Bool
  uart_channels : Int32 → Bool

/-- What `Pin::parse` comes to: the pin, the text of the error that it returns, or an exception. -/
inductive Parsed where
  | pin (pin : PinDetail)
  | error (err : Bytes)
  | throws

/-- A specification taken apart. -/
structure Specification where
  prefix_ : View
  number : UInt32
  options : Bytes

section Parse

variable (d : Details) (s : Placed)

/-- The view that `Pin::parse` is given. -/
def whole : View := ⟨1, s.text.length⟩

def trimmedView : View := ⟨1 + (s.text.takeWhile isspace).length, (trim s.text).length⟩

/-- The view behind the first dot. Without one `npos` is taken off. -/
def numberView : View :=
  let pin_str := (trimmedView s).bytes s.memory
  View.remove_prefix (if 0x2e ∈ pin_str then (pin_str.takeWhile (· ≠ 0x2e)).length + 1 else npos) (trimmedView s)

/-- What `strtoul` looks at. -/
def numberRead : View :=
  let rest := s.memory.drop (numberView s).start
  ⟨(numberView s).start, rest.length - (behindNumber rest).length + 1⟩

def optionsView : View :=
  let rest := s.memory.drop (numberView s).start
  View.remove_prefix (rest.length - (strtoul rest).2.length) (numberView s)

/-- The parts of a specification, unless there is nothing behind the colon of its options. -/
def specification : Option Specification :=
  let prefix_ : View := ⟨(trimmedView s).start, (((trimmedView s).bytes s.memory).takeWhile (· ≠ 0x2e)).length⟩
  let number := (strtoul (s.memory.drop (numberView s).start)).1
  let pin_str := (optionsView s).bytes s.memory
  if pin_str.head? = some 0x3a then
    if pin_str.tail = [] then none else some ⟨prefix_, number, pin_str.tail⟩
  else some ⟨prefix_, number, pin_str⟩

def accept (taken : Bool) (pin : PinDetail) : Parsed := if taken then .pin pin else .throws

/-- What is looked at for `uart_channel`, whether or not the prefix is as long. -/
def channelRead (spec : Specification) : View :=
  ⟨spec.prefix_.start, min 12 (agreeing (s.memory.drop spec.prefix_.start) (bytes "uart_channel") + 1)⟩

/-- The constructors that `Pin::parse` calls, and what they look at. -/
def build (spec : Specification) : Parsed × List View :=
  let prefix_ := spec.prefix_.bytes s.memory
  if equal_ignore_case prefix_ (bytes "gpio") then
    (accept (d.gpio spec.number.toUInt8 spec.options) (.gpio spec.number.toUInt8 spec.options), [])
  else if equal_ignore_case prefix_ (bytes "i2so") then
    (accept (d.i2so spec.number.toUInt8 spec.options) (.i2so spec.number.toUInt8 spec.options), [])
  else if agreeing (s.memory.drop spec.prefix_.start) (bytes "uart_channel") = 12 then
    -- `substr` of a prefix that is shorter
    if prefix_.length < 12 then (.throws, [channelRead s spec])
    else
      let channel_num := (from_chars (prefix_.drop 12)).getD (-1)
      if channel_num = -1 ∨ channel_num > 2 then (.error (bytes "Bad uart_channel number"), [channelRead s spec])
      else if ¬ d.uart_channels channel_num then (.error (bytes "uart_channel is not configured"), [channelRead s spec])
      else (accept (d.channel channel_num spec.number spec.options) (.channel channel_num spec.number spec.options),
        [channelRead s spec])
  else if equal_ignore_case prefix_ (bytes "no_pin") then (.pin .undefined, [channelRead s spec])
  else if equal_ignore_case prefix_ (bytes "void") then (.pin .void, [channelRead s spec])
  else (.error (bytes "Unknown pin prefix"), [channelRead s spec])

/-- `Pin::parse`, and the parts of memory that it looks at. -/
def parse : Parsed × List View :=
  if trim s.text = [] then (.pin .undefined, [whole s])
  else
    match specification s with
    | none => (.error (bytes "Pin attributes after ':' were expected."), [whole s, numberRead s, optionsView s])
    | some spec =>
      let (parsed, more) := build d s spec
      (parsed, [whole s, numberRead s, optionsView s] ++ more)

/-- `Pin::create`: a pin, or `none` for the error pin. Where `Pin::parse` throws, so does it. -/
def create : Except Unit (Option PinDetail) :=
  match (parse d s).1 with
  | .pin pin => .ok (some pin)
  | .error _ => .ok none
  | .throws => .error ()

/-- `Pin::validate` returns the pointer that `Pin::parse` returned, as a `bool`. -/
def validate : Except Unit Bool :=
  match (parse d s).1 with
  | .pin _ => .ok false
  | .error _ => .ok true
  | .throws => .error ()

end Parse

/-- The parts that `strtoul` and the search for `uart_channel` look at are in the text. -/
def Contained (text : Bytes) : Prop :=
  trim text = [] ∨
  (0x2e ∈ text ∧ behindNumber (text.dropWhile (· ≠ 0x2e)).tail ≠ []) ∨
  (0x2e ∉ text ∧ (∃ c ∈ text.head?, isspace c) ∧ behindNumber text ≠ [] ∧
    ¬((text.dropWhile isspace).map tolower <+: bytes "uart_channel" ∧ (text.dropWhile isspace).length < 12))

section Numbers

theorem unsigned_append {body : Bytes} (hbody : body ≠ []) (more : Bytes) :
    unsigned (body ++ more) = unsigned body ++ more := by
  obtain ⟨c, rest, rfl⟩ := List.exists_cons_of_ne_nil hbody
  unfold unsigned
  rw [List.cons_append, List.head?_cons, List.head?_cons]
  split
  · rfl
  · rfl

theorem unsigned_suffix (body : Bytes) : unsigned body <:+ body := by
  unfold unsigned
  split
  · exact List.tail_suffix body
  · exact List.suffix_rfl

theorem behindNumber_suffix (s : Bytes) : behindNumber s <:+ s :=
  ((List.dropWhile_suffix _).trans (unsigned_suffix _)).trans (List.dropWhile_suffix _)

/-- A number that ends within a text ends there whatever follows. -/
theorem behindNumber_append {s : Bytes} (hne : behindNumber s ≠ []) (more : Bytes) :
    behindNumber (s ++ more) = behindNumber s ++ more := by
  have hbody : s.dropWhile isspace ≠ [] := by
    intro hnil
    apply hne
    rw [behindNumber, hnil]
    rfl
  have hspace : (s ++ more).dropWhile isspace = s.dropWhile isspace ++ more := by
    rw [List.dropWhile_append, if_neg (by simpa using hbody)]
  rw [behindNumber, hspace, unsigned_append hbody, List.dropWhile_append, if_neg (by simpa [behindNumber] using hne)]
  rfl

/-- A number that goes on to the end of a text may go on behind it. -/
theorem behindNumber_append_nil {s : Bytes} (hnil : behindNumber s = []) (more : Bytes) :
    (behindNumber (s ++ more)).length ≤ more.length := by
  by_cases hbody : s.dropWhile isspace = []
  · have hspace : (s ++ more).dropWhile isspace = more.dropWhile isspace := by
      rw [List.dropWhile_append, if_pos (by simpa using hbody)]
    rw [behindNumber, hspace]
    exact (behindNumber_suffix more).length_le
  · have hspace : (s ++ more).dropWhile isspace = s.dropWhile isspace ++ more := by
      rw [List.dropWhile_append, if_neg (by simpa using hbody)]
    rw [behindNumber, hspace, unsigned_append hbody, List.dropWhile_append,
      if_pos (by simpa [behindNumber] using hnil)]
    exact (List.dropWhile_suffix _).length_le

theorem behindNumber_space {lead : Bytes} (hlead : Spacing.Blank isspace lead) (s : Bytes) :
    behindNumber (lead ++ s) = behindNumber s := by
  rw [behindNumber, Spacing.dropWhile_blank hlead]
  rfl

/-- What `strtoul` took off the front of a text ends with a digit. -/
theorem strtoul_taken (s : Bytes) : (strtoul s).2 = s ∨
    ((strtoul s).2 = behindNumber s ∧ ∃ front digit, isdigit digit ∧ s = front ++ digit :: behindNumber s) := by
  have hbody : unsigned (s.dropWhile isspace) <:+ s := (unsigned_suffix _).trans (List.dropWhile_suffix _)
  obtain ⟨front, hfront⟩ := hbody
  have hsplit := List.takeWhile_append_dropWhile (p := isdigit) (l := unsigned (s.dropWhile isspace))
  by_cases hdigits : (unsigned (s.dropWhile isspace)).takeWhile isdigit = []
  · left
    show (strto s).2 = s
    unfold strto
    exact congrArg Prod.snd (if_pos hdigits)
  · right
    refine ⟨?_, front ++ ((unsigned (s.dropWhile isspace)).takeWhile isdigit).dropLast,
      ((unsigned (s.dropWhile isspace)).takeWhile isdigit).getLast hdigits, ?_, ?_⟩
    · show (strto s).2 = behindNumber s
      unfold strto
      exact congrArg Prod.snd (if_neg hdigits)
    · exact List.mem_takeWhile_imp (List.getLast_mem hdigits)
    · have hlast := List.dropLast_concat_getLast hdigits
      rw [List.append_assoc, behindNumber, List.append_cons (List.dropLast _), hlast, hsplit, hfront]

end Numbers

section Views

variable {s : Placed} {start : Nat} {post trail : Bytes}

/-- Where the number of a specification stands: behind the dot, or from the byte in front of the name on. -/
structure NumberAt (s : Placed) (start : Nat) (post trail : Bytes) : Prop where
  view : numberView s = ⟨start, post.length⟩
  memory : s.memory.drop start = post ++ (trail ++ s.behind)
  blank : Spacing.Blank isspace trail
  ends : start + post.length + trail.length = 1 + s.text.length

theorem NumberAt.numberRead_within (h : NumberAt s start post trail) :
    (numberRead s).Within (whole s) ↔ 1 ≤ start ∧ behindNumber (post ++ trail) ≠ [] := by
  have hends := h.ends
  have hlength := (behindNumber_suffix (post ++ trail ++ s.behind)).length_le
  have hread : numberRead s = ⟨start, (post ++ trail ++ s.behind).length -
      (behindNumber (post ++ trail ++ s.behind)).length + 1⟩ := by
    rw [List.append_assoc, ← h.memory, numberRead, h.view]
  simp only [List.length_append] at hlength hread
  rw [hread, View.Within, whole]
  by_cases hnil : behindNumber (post ++ trail) = []
  · have hbehind := behindNumber_append_nil hnil s.behind
    simp only [hnil, ne_eq, not_true_eq_false, and_false, iff_false]
    omega
  · rw [behindNumber_append hnil, List.length_append] at hlength ⊢
    have hpositive := List.length_pos_of_ne_nil hnil
    simp only [ne_eq, hnil, not_false_eq_true, and_true]
    omega

/-- The options are what is left of the text behind the number. -/
theorem NumberAt.optionsView_eq (h : NumberAt s start post trail) (hne : behindNumber (post ++ trail) ≠ []) :
    ∃ taken, taken ≤ post.length ∧ optionsView s = ⟨start + taken, post.length - taken⟩ ∧
      (optionsView s).bytes s.memory = post.drop taken := by
  have hends := h.ends
  have hfits := s.fits
  have htaken : (s.memory.drop start).length - (strtoul (s.memory.drop start)).2.length ≤ post.length := by
    rcases strtoul_taken (s.memory.drop start) with hnone | ⟨hbehind, front, digit, hdigit, hsplit⟩
    · rw [hnone]
      omega
    · rw [h.memory, ← List.append_assoc, behindNumber_append hne] at hbehind hsplit
      rw [← List.cons_append, ← List.append_assoc front] at hsplit
      have hfront : post ++ trail = front ++ digit :: behindNumber (post ++ trail) :=
        List.append_cancel_right hsplit
      rw [h.memory, ← List.append_assoc, hbehind]
      have hlengths := congrArg List.length hfront
      simp only [List.length_append, List.length_cons] at hlengths ⊢
      -- a digit does not stand in the white space at the end
      by_contra hmany
      have hmem : digit ∈ trail := by
        have hat : (post ++ trail)[front.length]? = some digit := by
          rw [hfront, List.getElem?_append_right (Nat.le_refl _), Nat.sub_self]
          rfl
        rw [List.getElem?_append_right (by omega)] at hat
        exact List.mem_of_getElem? hat
      have hspace := h.blank digit hmem
      simp only [isspace, isdigit, Bool.or_eq_true, Bool.and_eq_true, decide_eq_true_eq] at hspace hdigit
      grind
  generalize htakenDef : (s.memory.drop start).length - (strtoul (s.memory.drop start)).2.length = taken at htaken
  have hview : optionsView s = ⟨start + taken, post.length - taken⟩ := by
    rw [optionsView, h.view]
    dsimp only
    rw [htakenDef, View.remove_prefix, View.mk.injEq]
    constructor
    · show (start + taken) % 2 ^ 32 = start + taken
      exact Nat.mod_eq_of_lt (by omega)
    · show (post.length + (2 ^ 32 - taken)) % 2 ^ 32 = post.length - taken
      have hwrap : post.length + (2 ^ 32 - taken) = post.length - taken + 2 ^ 32 := by omega
      rw [hwrap, Nat.add_mod_right, Nat.mod_eq_of_lt (by omega)]
  refine ⟨taken, htaken, hview, ?_⟩
  rw [hview, View.bytes, ← List.drop_drop, h.memory, List.drop_append_of_le_length htaken,
    List.take_append_of_le_length (by rw [List.length_drop]), List.take_of_length_le (by rw [List.length_drop])]

theorem NumberAt.optionsView_within (h : NumberAt s start post trail) (hstart : 1 ≤ start)
    (hne : behindNumber (post ++ trail) ≠ []) : (optionsView s).Within (whole s) := by
  obtain ⟨taken, htaken, hview, _⟩ := h.optionsView_eq hne
  have hends := h.ends
  rw [hview, View.Within, whole]
  right
  constructor
  · show 1 ≤ start + taken
    omega
  · show start + taken + (post.length - taken) ≤ 1 + s.text.length
    omega

/-- Where a name in capital or small letters begins otherwise than it should, that is found in the name. -/
theorem agreeing_within (body behind name : Bytes) :
    (agreeing (body ++ behind) name + 1 ≤ body.length ∨ name.length ≤ body.length) ↔
      ¬(body.map tolower <+: name.map tolower ∧ body.length < name.length) := by
  induction body generalizing name with
  | nil =>
    cases name with
    | nil => simp
    | cons d name => simp
  | cons c body ih =>
    cases name with
    | nil => simp
    | cons d name =>
      rw [List.cons_append, agreeing]
      by_cases hsame : tolower c = tolower d
      · rw [if_pos hsame, List.map_cons, List.map_cons, hsame, List.prefix_cons_inj]
        simpa using ih name
      · simp [List.cons_prefix_cons, hsame]

/-- A dot is not part of any of the names. -/
theorem agreeing_dot (front rest name : Bytes) (hname : ∀ c ∈ name, tolower c ≠ 0x2e) :
    agreeing (front ++ 0x2e :: rest) name ≤ front.length := by
  induction front generalizing name with
  | nil =>
    cases name with
    | nil => exact Nat.le_refl 0
    | cons d name =>
      rw [List.nil_append, agreeing, if_neg]
      · exact Nat.le_refl 0
      · exact fun hsame => hname d List.mem_cons_self hsame.symm
  | cons c front ih =>
    cases name with
    | nil => exact Nat.zero_le _
    | cons d name =>
      rw [List.cons_append, agreeing]
      split
      · exact Nat.succ_le_succ (ih name fun c hc => hname c (List.mem_cons_of_mem d hc))
      · exact Nat.zero_le _

end Views

section Contained

variable {s : Placed} {lead mid trail : Bytes}

/-- A text with something in it, and the white space around that. -/
structure Trimmed (text lead mid trail : Bytes) : Prop where
  text : text = lead ++ (mid ++ trail)
  lead : Spacing.Blank isspace lead
  mid : Spacing.Solid isspace mid
  trail : Spacing.Blank isspace trail

theorem trimmed_of_ne {text : Bytes} (hne : trim text ≠ []) : ∃ lead mid trail, Trimmed text lead mid trail := by
  rcases Spacing.blank_or_solid isspace text with hblank | ⟨lead, mid, trail, htext, hlead, hmid, htrail⟩
  · exact absurd (Spacing.trimmed_blank hblank) hne
  · exact ⟨lead, mid, trail, htext, hlead, hmid, htrail⟩

theorem Trimmed.trim_eq {text : Bytes} (h : Trimmed text lead mid trail) : trim text = mid := by
  rw [h.text]
  exact Spacing.trimmed_solid h.lead h.mid h.trail

theorem Trimmed.dropWhile {text : Bytes} (h : Trimmed text lead mid trail) :
    text.dropWhile isspace = mid ++ trail := by
  rw [h.text, Spacing.dropWhile_blank h.lead, h.mid.dropWhile]

theorem Trimmed.takeWhile {text : Bytes} (h : Trimmed text lead mid trail) : text.takeWhile isspace = lead := by
  have hsplit := List.takeWhile_append_dropWhile (p := isspace) (l := text)
  rw [h.dropWhile] at hsplit
  nth_rewrite 2 [h.text] at hsplit
  exact List.append_cancel_right hsplit

theorem Trimmed.memory (h : Trimmed s.text lead mid trail) :
    s.memory.drop (1 + lead.length) = mid ++ (trail ++ s.behind) := by
  rw [Placed.memory, Nat.add_comm, List.drop_succ_cons, h.text, List.append_assoc, List.drop_left, List.append_assoc]

theorem Trimmed.view_eq (h : Trimmed s.text lead mid trail) : trimmedView s = ⟨1 + lead.length, mid.length⟩ := by
  rw [trimmedView, h.trim_eq, h.takeWhile]

theorem Trimmed.view_bytes (h : Trimmed s.text lead mid trail) : (trimmedView s).bytes s.memory = mid := by
  rw [h.view_eq, View.bytes, h.memory, List.take_left]

theorem Trimmed.length (h : Trimmed s.text lead mid trail) :
    s.text.length = lead.length + (mid.length + trail.length) := by
  rw [h.text, List.length_append, List.length_append]

theorem blank_dot {gap : Bytes} (hgap : Spacing.Blank isspace gap) : 0x2e ∉ gap := by
  intro hmem
  have hspace := hgap 0x2e hmem
  revert hspace
  decide

theorem Trimmed.dot_mem (h : Trimmed s.text lead mid trail) : 0x2e ∈ s.text ↔ 0x2e ∈ mid := by
  rw [h.text, List.mem_append, List.mem_append]
  have hlead := blank_dot h.lead
  have htrail := blank_dot h.trail
  tauto

/-- The text up to the first dot, and the text behind it. -/
theorem split_dot {text : Bytes} (hdot : 0x2e ∈ text) : ∃ pre post, text = pre ++ 0x2e :: post ∧ 0x2e ∉ pre := by
  obtain ⟨pre, post, hsplit, hpre⟩ := List.eq_append_cons_of_mem hdot
  exact ⟨pre, post, hsplit, hpre⟩

theorem takeWhile_dot {pre : Bytes} (hpre : 0x2e ∉ pre) (post : Bytes) :
    (pre ++ 0x2e :: post).takeWhile (· ≠ 0x2e) = pre := by
  have hall : ∀ c ∈ pre, decide (c ≠ 0x2e) = true := fun c hc => decide_eq_true fun heq => hpre (heq ▸ hc)
  rw [List.takeWhile_append_of_pos hall, List.takeWhile_cons_of_neg (by simp), List.append_nil]

theorem dropWhile_dot {pre : Bytes} (hpre : 0x2e ∉ pre) (post : Bytes) :
    (pre ++ 0x2e :: post).dropWhile (· ≠ 0x2e) = 0x2e :: post := by
  have hall : ∀ c ∈ pre, decide (c ≠ 0x2e) = true := fun c hc => decide_eq_true fun heq => hpre (heq ▸ hc)
  rw [List.dropWhile_append_of_pos hall, List.dropWhile_cons_of_neg (by simp)]

theorem takeWhile_no_dot (hdot : 0x2e ∉ mid) : mid.takeWhile (· ≠ 0x2e) = mid :=
  List.takeWhile_eq_self_iff.mpr fun _ hc => decide_eq_true fun heq => hdot (heq ▸ hc)

theorem Trimmed.numberAt_dot {pre post : Bytes} (h : Trimmed s.text lead (pre ++ 0x2e :: post) trail)
    (hpre : 0x2e ∉ pre) : NumberAt s (1 + lead.length + (pre.length + 1)) post trail where
  view := by
    have hfits := s.fits
    have hlength := h.length
    rw [List.length_append, List.length_cons] at hlength
    rw [numberView, h.view_bytes, if_pos (List.mem_append_right _ List.mem_cons_self), takeWhile_dot hpre, h.view_eq,
      View.remove_prefix, View.mk.injEq, List.length_append, List.length_cons]
    dsimp only
    constructor
    · exact Nat.mod_eq_of_lt (by omega)
    · have hwrap : pre.length + (post.length + 1) + (2 ^ 32 - (pre.length + 1)) = post.length + 2 ^ 32 := by omega
      rw [hwrap, Nat.add_mod_right, Nat.mod_eq_of_lt (by omega)]
  memory := by
    rw [← List.drop_drop, h.memory, List.append_assoc, ← List.drop_drop, List.drop_left]
    rfl
  blank := h.trail
  ends := by
    have hlength := h.length
    rw [List.length_append, List.length_cons] at hlength
    omega

/-- Without a dot the number begins one byte in front of the name. -/
theorem Trimmed.numberAt_no_dot (h : Trimmed s.text lead mid trail) (hdot : 0x2e ∉ mid) :
    NumberAt s lead.length ((s.front :: lead).getLast (List.cons_ne_nil _ _) :: mid) trail where
  view := by
    have hfits := s.fits
    have hlength := h.length
    rw [numberView, h.view_bytes, if_neg hdot, h.view_eq, View.remove_prefix, View.mk.injEq, npos, List.length_cons]
    dsimp only
    constructor
    · have hwrap : 1 + lead.length + (2 ^ 32 - 1) = lead.length + 2 ^ 32 := by omega
      rw [hwrap, Nat.add_mod_right, Nat.mod_eq_of_lt (by omega)]
    · have hwrap : 2 ^ 32 - (2 ^ 32 - 1) = 1 := by omega
      rw [hwrap, Nat.mod_eq_of_lt (by omega)]
  memory := by
    have hlast := List.dropLast_concat_getLast (List.cons_ne_nil s.front lead)
    have hlength : (s.front :: lead).dropLast.length =
        lead.length := by rw [List.length_dropLast, List.length_cons]; rfl
    have hmemory : s.memory = (s.front :: lead).dropLast ++
        ((s.front :: lead).getLast (List.cons_ne_nil _ _) :: mid ++ (trail ++ s.behind)) := by
      rw [List.cons_append, List.append_cons, hlast, Placed.memory, h.text]
      simp only [List.cons_append, List.append_assoc]
    rw [hmemory, ← hlength, List.drop_left]
  blank := h.trail
  ends := by
    have hlength := h.length
    rw [List.length_cons]
    omega

theorem whole_within : (whole s).Within (whole s) := .inr ⟨Nat.le_refl _, Nat.le_refl _⟩

theorem parse_within {d : Details} (hne : trim s.text ≠ []) :
    (∀ v ∈ (parse d s).2, v.Within (whole s)) ↔
      (numberRead s).Within (whole s) ∧ (optionsView s).Within (whole s) ∧
        ∀ spec, specification s = some spec → ∀ v ∈ (build d s spec).2, v.Within (whole s) := by
  rw [parse, if_neg hne]
  cases hspec : specification s with
  | none => simp [whole_within]
  | some spec => simp [whole_within, or_imp, forall_and]

theorem specification_prefix (h : Trimmed s.text lead mid trail) {spec : Specification}
    (hspec : specification s = some spec) :
    spec.prefix_ = ⟨1 + lead.length, (mid.takeWhile (· ≠ 0x2e)).length⟩ := by
  unfold specification at hspec
  rw [h.view_bytes, h.view_eq] at hspec
  dsimp only at hspec
  split at hspec
  · split at hspec
    · cases hspec
    · rw [← Option.some.inj hspec]
  · rw [← Option.some.inj hspec]

theorem build_views {d : Details} {spec : Specification} : ∀ v ∈ (build d s spec).2, v = channelRead s spec := by
  intro v hv
  unfold build at hv
  dsimp only at hv
  split at hv
  · cases hv
  split at hv
  · cases hv
  split at hv
  · split at hv
    · exact List.mem_singleton.mp hv
    split at hv
    · exact List.mem_singleton.mp hv
    split at hv
    · exact List.mem_singleton.mp hv
    · exact List.mem_singleton.mp hv
  split at hv
  · exact List.mem_singleton.mp hv
  split at hv
  · exact List.mem_singleton.mp hv
  · exact List.mem_singleton.mp hv

theorem channelRead_mem {d : Details} {spec : Specification}
    (hgpio : equal_ignore_case (spec.prefix_.bytes s.memory) (bytes "gpio") = false)
    (hi2so : equal_ignore_case (spec.prefix_.bytes s.memory) (bytes "i2so") = false) :
    channelRead s spec ∈ (build d s spec).2 := by
  unfold build
  simp only [hgpio, hi2so, Bool.false_eq_true, if_false]
  repeat' split
  all_goals exact List.mem_singleton_self _

/-- The search for `uart_channel` stops at the dot. -/
theorem channelRead_dot {pre post : Bytes} (h : Trimmed s.text lead (pre ++ 0x2e :: post) trail) {spec : Specification}
    (hspec : specification s = some spec) : (channelRead s spec).Within (whole s) := by
  have hlength := h.length
  rw [List.length_append, List.length_cons] at hlength
  have hname : ∀ c ∈ bytes "uart_channel", tolower c ≠ 0x2e := by
    intro c hc
    exact of_decide_eq_true (List.all_eq_true.mp
      (by decide : (bytes "uart_channel").all (fun c => decide (tolower c ≠ 0x2e)) = true) c hc)
  have hagreeing := agreeing_dot pre (post ++ (trail ++ s.behind)) (bytes "uart_channel") hname
  rw [channelRead, specification_prefix h hspec]
  dsimp only
  rw [h.memory, List.append_assoc, List.cons_append, View.Within, whole]
  right
  dsimp only
  omega

theorem channelRead_no_dot (h : Trimmed s.text lead mid trail) {spec : Specification}
    (hspec : specification s = some spec) :
    (channelRead s spec).Within (whole s) ↔
      ¬((mid ++ trail).map tolower <+: bytes "uart_channel" ∧ (mid ++ trail).length < 12) := by
  have hlength := h.length
  have hname : (bytes "uart_channel").map tolower = bytes "uart_channel" := by decide
  have htwelve : (bytes "uart_channel").length = 12 := by decide
  have hagreeing := agreeing_within (mid ++ trail) s.behind (bytes "uart_channel")
  rw [hname, htwelve, List.length_append] at hagreeing
  rw [List.length_append, ← hagreeing, channelRead, specification_prefix h hspec]
  dsimp only
  rw [h.memory, ← List.append_assoc, View.Within, whole]
  dsimp only
  omega

theorem parse_within_dot {d : Details} {pre post : Bytes} (h : Trimmed s.text lead (pre ++ 0x2e :: post) trail)
    (hpre : 0x2e ∉ pre) :
    (∀ v ∈ (parse d s).2, v.Within (whole s)) ↔ behindNumber (post ++ trail) ≠ [] := by
  have hne : trim s.text ≠ [] := by
    rw [h.trim_eq]
    exact h.mid.ne_nil
  have hnumber := h.numberAt_dot hpre
  rw [parse_within hne, hnumber.numberRead_within]
  constructor
  · rintro ⟨⟨_, hbehind⟩, _⟩
    exact hbehind
  · intro hbehind
    have hstart : 1 ≤ 1 + lead.length + (pre.length + 1) := by omega
    refine ⟨⟨hstart, hbehind⟩, hnumber.optionsView_within hstart hbehind, ?_⟩
    intro spec hspec v hv
    rw [build_views v hv]
    exact channelRead_dot h hspec

/-- The byte in front of the name is white space where there is any. -/
theorem Trimmed.front_space (h : Trimmed s.text lead mid trail) (hlead : lead ≠ []) :
    isspace ((s.front :: lead).getLast (List.cons_ne_nil _ _)) := by
  rw [List.getLast_cons hlead]
  exact h.lead _ (List.getLast_mem hlead)

theorem Trimmed.behindNumber_front (h : Trimmed s.text lead mid trail) (hlead : lead ≠ []) :
    behindNumber ((s.front :: lead).getLast (List.cons_ne_nil _ _) :: mid ++ trail) = behindNumber s.text := by
  have hfront : Spacing.Blank isspace [(s.front :: lead).getLast (List.cons_ne_nil _ _)] := by
    intro c hc
    rw [List.mem_singleton.mp hc]
    exact h.front_space hlead
  rw [h.text, behindNumber_space h.lead]
  exact behindNumber_space hfront (mid ++ trail)

/-- A name that `uart_channel` begins with has no colon, and is none of those looked for in front of it. -/
theorem specification_of_prefix (h : Trimmed s.text lead mid trail) (hdot : 0x2e ∉ mid) (hlead : lead ≠ [])
    (hbehind : behindNumber s.text ≠ []) (hname : mid.map tolower <+: bytes "uart_channel") :
    ∃ spec, specification s = some spec ∧
      equal_ignore_case (spec.prefix_.bytes s.memory) (bytes "gpio") = false ∧
      equal_ignore_case (spec.prefix_.bytes s.memory) (bytes "i2so") = false := by
  have hother : ∀ name, ¬name.map tolower <+: bytes "uart_channel" → equal_ignore_case mid name = false := by
    intro name hnot
    apply decide_eq_false
    intro heq
    exact hnot (heq ▸ hname)
  have hcolon : ((optionsView s).bytes s.memory).head? ≠ some 0x3a := by
    rw [← h.behindNumber_front hlead] at hbehind
    obtain ⟨taken, _, _, hoptions⟩ := (h.numberAt_no_dot hdot).optionsView_eq hbehind
    rw [hoptions]
    intro hhead
    rcases List.mem_cons.mp (List.mem_of_mem_drop (List.mem_of_mem_head? hhead)) with hfront | hmid
    · have hspace := h.front_space hlead
      rw [← hfront] at hspace
      exact absurd hspace (by decide)
    · have hmem : tolower 0x3a ∈ bytes "uart_channel" := hname.subset (List.mem_map_of_mem hmid)
      exact absurd hmem (by decide)
  have hspec : ∃ spec, specification s = some spec := by
    unfold specification
    dsimp only
    rw [if_neg hcolon]
    exact ⟨_, rfl⟩
  obtain ⟨spec, hspec⟩ := hspec
  have hfirst : spec.prefix_.bytes s.memory = mid := by
    rw [ specification_prefix h hspec, takeWhile_no_dot hdot, View.bytes, h.memory, List.take_left]
  refine ⟨spec, hspec, ?_, ?_⟩
  · rw [hfirst]
    exact hother _ (by decide)
  · rw [hfirst]
    exact hother _ (by decide)

theorem parse_within_no_dot {d : Details} (h : Trimmed s.text lead mid trail) (hdot : 0x2e ∉ mid) :
    (∀ v ∈ (parse d s).2, v.Within (whole s)) ↔
      lead ≠ [] ∧ behindNumber s.text ≠ [] ∧
        ¬((mid ++ trail).map tolower <+: bytes "uart_channel" ∧ (mid ++ trail).length < 12) := by
  have hne : trim s.text ≠ [] := by
    rw [h.trim_eq]
    exact h.mid.ne_nil
  have hnumber := h.numberAt_no_dot hdot
  have hstart : 1 ≤ lead.length ↔ lead ≠ [] := List.length_pos_iff
  rw [parse_within hne, hnumber.numberRead_within, hstart]
  constructor
  · rintro ⟨⟨hlead, hbehind⟩, _, hbuild⟩
    rw [h.behindNumber_front hlead] at hbehind
    refine ⟨hlead, hbehind, ?_⟩
    intro hproper
    have hname : mid.map tolower <+: bytes "uart_channel" := by
      rw [List.map_append] at hproper
      exact (List.prefix_append _ _).trans hproper.1
    obtain ⟨spec, hspec, hgpio, hi2so⟩ := specification_of_prefix h hdot hlead hbehind hname
    exact (channelRead_no_dot h hspec).mp (hbuild spec hspec _ (channelRead_mem hgpio hi2so)) hproper
  · rintro ⟨hlead, hbehind, hproper⟩
    rw [← h.behindNumber_front hlead] at hbehind
    refine ⟨⟨hlead, hbehind⟩, hnumber.optionsView_within (hstart.mpr hlead) hbehind, ?_⟩
    intro spec hspec v hv
    rw [build_views v hv]
    exact (channelRead_no_dot h hspec).mpr hproper

theorem Trimmed.head_space (h : Trimmed s.text lead mid trail) :
    (∃ c ∈ s.text.head?, isspace c) ↔ lead ≠ [] := by
  rw [h.text]
  cases lead with
  | nil =>
    obtain ⟨c, rest, hmid, hc⟩ := h.mid.begins
    rw [hmid]
    simp [hc]
  | cons c lead => simp [h.lead c List.mem_cons_self]

theorem parse_within_iff (d : Details) (s : Placed) :
    (∀ v ∈ (parse d s).2, v.Within (whole s)) ↔ Contained s.text := by
  by_cases hne : trim s.text = []
  · rw [parse, if_pos hne]
    exact iff_of_true (by simp [whole_within]) (.inl hne)
  · obtain ⟨lead, mid, trail, h⟩ := trimmed_of_ne hne
    unfold Contained
    by_cases hdot : 0x2e ∈ mid
    · obtain ⟨pre, post, rfl, hpre⟩ := split_dot hdot
      have hfront : 0x2e ∉ lead ++ pre := by
        rw [List.mem_append]
        exact not_or.mpr ⟨blank_dot h.lead, hpre⟩
      have htail : (s.text.dropWhile (· ≠ 0x2e)).tail = post ++ trail := by
        rw [h.text, List.append_assoc, ← List.append_assoc lead, List.cons_append, dropWhile_dot hfront, List.tail_cons]
      rw [parse_within_dot h hpre, htail]
      simp [hne, h.dot_mem.mpr hdot]
    · rw [parse_within_no_dot h hdot, h.dropWhile, h.head_space]
      simp only [hne, h.dot_mem, hdot, false_and, not_false_eq_true, true_and, false_or]

end Contained

section Refused

variable (d : Details) (s : Placed)

/-- The constructor that a specification leads to does not take it, or there is no number behind `uart_channel` to look
for: the name ends within it, and what is behind the name goes on with it. -/
def Refuses (spec : Specification) : Prop :=
  let prefix_ := spec.prefix_.bytes s.memory
  if equal_ignore_case prefix_ (bytes "gpio") then d.gpio spec.number.toUInt8 spec.options = false
  else if equal_ignore_case prefix_ (bytes "i2so") then d.i2so spec.number.toUInt8 spec.options = false
  else if agreeing (s.memory.drop spec.prefix_.start) (bytes "uart_channel") = 12 then
    prefix_.length < 12 ∨ ∃ channel_num, from_chars (prefix_.drop 12) = some channel_num ∧ channel_num ≠ -1 ∧
      channel_num ≤ 2 ∧ d.uart_channels channel_num ∧ d.channel channel_num spec.number spec.options = false
  else False

def Refused : Prop := trim s.text ≠ [] ∧ ∃ spec, specification s = some spec ∧ Refuses d s spec

variable {d s}

theorem accept_throws {taken : Bool} {pin : PinDetail} : accept taken pin = .throws ↔ taken = false := by
  cases taken with
  | true => simp [accept]
  | false => simp [accept]

theorem build_throws {spec : Specification} : (build d s spec).1 = .throws ↔ Refuses d s spec := by
  unfold build Refuses
  dsimp only
  split
  · exact accept_throws
  split
  · exact accept_throws
  split
  · split
    next hshort => exact iff_of_true rfl (.inl hshort)
    next hlong =>
      cases hnum : from_chars (((spec.prefix_.bytes s.memory)).drop 12) with
      | none => simp [hlong]
      | some channel_num =>
        simp only [Option.getD_some, Option.some.injEq, hlong, false_or]
        split
        next hbad =>
          apply iff_of_false (by simp)
          rintro ⟨_, rfl, hne, hle, _⟩
          rcases hbad with hminus | hmore
          · exact hne hminus
          · exact absurd hmore (Int32.not_lt.mpr hle)
        next hgood =>
          simp only [not_or, Int32.not_lt] at hgood
          split
          next hmissing =>
            apply iff_of_false (by simp)
            rintro ⟨_, rfl, _, _, hthere, _⟩
            exact hmissing hthere
          next hthere =>
            rw [accept_throws]
            constructor
            · intro htaken
              exact ⟨channel_num, rfl, hgood.1, hgood.2, not_not.mp hthere, htaken⟩
            · rintro ⟨_, rfl, _, _, _, htaken⟩
              exact htaken
  split
  · exact iff_of_false (by simp) id
  split
  · exact iff_of_false (by simp) id
  · exact iff_of_false (by simp) id

theorem parse_throws : (parse d s).1 = .throws ↔ Refused d s := by
  rw [parse, Refused]
  by_cases hne : trim s.text = []
  · simp [hne]
  · rw [if_neg hne]
    cases hspec : specification s with
    | none => simp
    | some spec => simp [hne, build_throws]

/-- `Pin::validate` says of every text that `Pin::parse` returns from the opposite of what `Pin::create` does
with it. -/
theorem validate_iff_create :
    (validate d s = .ok true ↔ ∃ pin, create d s = .ok (some pin)) ↔ (parse d s).1 = .throws := by
  unfold validate create
  cases hparsed : (parse d s).1 with
  | pin pin => simp
  | error err => simp
  | throws => simp

end Refused

/-- Only the text is looked at exactly where it is empty, or a dot comes before a number that ends within the text, or
without a dot white space comes before the name and something other than a number behind it. `Pin::validate` and
`Pin::create` agree exactly on what makes both throw. -/
theorem Pin_parse_iff (d : Details) (s : Placed) :
    ((∀ v ∈ (parse d s).2, v.Within (whole s)) ↔ Contained s.text) ∧
      ((validate d s = .ok true ↔ ∃ pin, create d s = .ok (some pin)) ↔ Refused d s) :=
  ⟨parse_within_iff d s, validate_iff_create.trans parse_throws⟩

/-- A machine without channels whose constructors take everything. -/
def taking : Details := ⟨fun _ _ => true, fun _ _ => true, fun _ _ _ => true, fun _ => false⟩

/-- `no_pin`, behind a digit. The digit is read, and `gpio.5:low` makes a pin that is not valid. -/
theorem no_pin_reads_in_front :
    ¬(∀ v ∈ (parse taking ⟨0x37, bytes "no_pin", [0], by decide⟩).2,
        v.Within (whole ⟨0x37, bytes "no_pin", [0], by decide⟩)) ∧
      (∃ pin, create taking ⟨0, bytes "gpio.5:low", [0], by decide⟩ = .ok (some pin)) ∧
      validate taking ⟨0, bytes "gpio.5:low", [0], by decide⟩ = .ok false := by
  refine ⟨by decide, ⟨.gpio 5 (bytes "low"), rfl⟩, by decide⟩

end DuneWeaver.Pins
