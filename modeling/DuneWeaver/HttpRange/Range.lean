import DuneWeaver.Decimal.Numeral
import DuneWeaver.Settings.Setting

open Decimal

namespace DuneWeaver.HttpRange

def SIZE_MAX : UInt32 := 4294967295

/-- `Partial` stands for the answer 206 with the window to serve. -/
inductive Result where
  | None
  | Partial (start len : UInt32)
  | Unsatisfiable
  deriving DecidableEq

/-- The loop of `parseNum`. A number too large for `size_t` is kept at its maximum. -/
def accumulate (v : UInt32) : Bytes → UInt32 × Bytes
  | [] => (v, [])
  | c :: rest =>
    if isdigit c then
      let digit := (c - 48).toUInt32
      accumulate (if v > (SIZE_MAX - digit) / 10 then SIZE_MAX else v * 10 + digit) rest
    else (v, c :: rest)

/-- The number at `p` and what is behind it. -/
def parseNum (p : Bytes) : Option (UInt32 × Bytes) :=
  match p with
  | [] => none
  | c :: rest => if isdigit c then some (accumulate 0 (c :: rest)) else none

/-- `-n`, the last `n` bytes; `p` is behind the dash. -/
def parseSuffix (p : Bytes) (fileSize : UInt32) : Result :=
  match parseNum p with
  | some (n, []) =>
    if n = 0 ∨ fileSize = 0 then .Unsatisfiable
    else
      let len := if n < fileSize then n else fileSize
      .Partial (fileSize - len) len
  | _ => .None

/-- `a-b`; `p` is behind the dash. -/
def parseLast (first : UInt32) (p : Bytes) (fileSize : UInt32) : Result :=
  match parseNum p with
  | some (last, []) =>
    if last < first then .None
    else if first ≥ fileSize then .Unsatisfiable
    else
      let last := if last ≥ fileSize then fileSize - 1 else last
      .Partial first (last - first + 1)
  | _ => .None

/-- `a-`, from `a` to the end, and `a-b`. -/
def parseFirst (p : Bytes) (fileSize : UInt32) : Result :=
  match parseNum p with
  | some (first, 45 :: p) =>
    if p = [] then if first ≥ fileSize then .Unsatisfiable else .Partial first (fileSize - first)
    else parseLast first p fileSize
  | _ => .None

/-- The window a `Range` header asks for; the header may be absent. -/
def parse : Option Bytes → UInt32 → Result
  | none, _ => .None
  | some value, fileSize =>
    let value := c_str value
    if ¬ bytes "bytes=" <+: value then .None
    else
      let p := value.drop 6
      -- more than one range: legal to ignore
      if 44 ∈ p then .None
      else
        match p with
        | 45 :: p => parseSuffix p fileSize
        | p => parseFirst p fileSize

/-- A single range, over unbounded numbers. -/
inductive Form where
  | suffix (n : Nat)
  | from (first : Nat)
  | closed (first last : Nat)

/-- The positions of the file that the range asks for. -/
def Form.Selects (fileSize : Nat) : Form → Nat → Prop
  | suffix n, i => i < fileSize ∧ fileSize ≤ i + n
  | .from first, i => i < fileSize ∧ first ≤ i
  | closed first last, i => i < fileSize ∧ first ≤ i ∧ i ≤ last

/-- What a header says. -/
inductive Denotes : Bytes → Form → Prop
  | suffix {n : Bytes} (hn : Numeral n) : Denotes (bytes "bytes=" ++ 45 :: n) (.suffix (number n))
  | from {a : Bytes} (ha : Numeral a) : Denotes (bytes "bytes=" ++ (a ++ [45])) (.from (number a))
  | closed {a b : Bytes} (ha : Numeral a) (hb : Numeral b) (hle : number a ≤ number b) :
      Denotes (bytes "bytes=" ++ (a ++ 45 :: b)) (.closed (number a) (number b))

/-- What `parseNum` gives for it is the maximum, whatever the number is. -/
def Saturates (n : Nat) : Prop := SIZE_MAX.toNat ≤ n

/-- Both numbers of a closed range saturate, so that their order is lost. -/
def Indistinct (value : Bytes) : Prop :=
  ∃ a b, Numeral a ∧ Numeral b ∧ value = bytes "bytes=" ++ (a ++ 45 :: b) ∧
    Saturates (number a) ∧ Saturates (number b) ∧ number b < number a

/-- The answer is right for a range of a file. -/
def Answers (fileSize : Nat) (form : Form) : Result → Prop
  | .None => False
  | .Partial start len => 1 ≤ len.toNat ∧
      ∀ i, form.Selects fileSize i ↔ start.toNat ≤ i ∧ i < start.toNat + len.toNat
  | .Unsatisfiable => ∀ i, ¬ form.Selects fileSize i

theorem digit_toNat {c : UInt8} (h : isdigit c = true) : (c - 48).toUInt32.toNat = c.toNat - 48 ∧ c.toNat - 48 ≤ 9 := by
  have hrange := isdigit_iff.mp h
  have hzero : (48 : UInt8).toNat = 48 := rfl
  have hle : (48 : UInt8) ≤ c := UInt8.le_iff_toNat_le.mpr hrange.1
  rw [UInt8.toNat_toUInt32, UInt8.toNat_sub_of_le _ _ hle, hzero]
  omega

/-- One digit more, with the number kept at the maximum once it is there. -/
theorem accumulate_step {v digit : UInt32} {n d : Nat} (hv : v.toNat = min n SIZE_MAX.toNat) (hdigit : digit.toNat = d)
    (hd : d ≤ 9) :
    (if v > (SIZE_MAX - digit) / 10 then SIZE_MAX else v * 10 + digit).toNat = min (n * 10 + d) SIZE_MAX.toNat := by
  have hmax : SIZE_MAX.toNat = 4294967295 := rfl
  have hten : (10 : UInt32).toNat = 10 := rfl
  have hle : digit ≤ SIZE_MAX := by
    rw [UInt32.le_iff_toNat_le]
    omega
  have hroom : ((SIZE_MAX - digit) / 10).toNat = (4294967295 - d) / 10 := by
    rw [UInt32.toNat_div, UInt32.toNat_sub_of_le _ _ hle, hmax, hdigit, hten]
  by_cases hfull : v > (SIZE_MAX - digit) / 10
  · rw [if_pos hfull]
    rw [gt_iff_lt, UInt32.lt_iff_toNat_lt, hroom] at hfull
    omega
  · rw [if_neg hfull]
    rw [gt_iff_lt, UInt32.lt_iff_toNat_lt, hroom] at hfull
    rw [UInt32.toNat_add, UInt32.toNat_mul, hdigit, hten]
    omega

theorem accumulate_digits {ds rest : Bytes} (hds : ∀ c ∈ ds, isdigit c = true) (hrest : Stops rest)
    {v : UInt32} {n : Nat}
    (hv : v.toNat = min n SIZE_MAX.toNat) :
    ∃ w, accumulate v (ds ++ rest) = (w, rest) ∧
      w.toNat = min (ds.foldl (fun n c => n * 10 + (c.toNat - 48)) n) SIZE_MAX.toNat := by
  induction ds generalizing v n with
  | nil =>
    refine ⟨v, ?_, hv⟩
    cases rest with
    | nil => rfl
    | cons c rest =>
      have hc : ¬ isdigit c = true := Bool.eq_false_iff.mp (hrest c rfl)
      rw [List.nil_append, accumulate, if_neg hc]
  | cons c ds ih =>
    have hc : isdigit c = true := hds c List.mem_cons_self
    obtain ⟨hdigit, hd⟩ := digit_toNat hc
    rw [List.cons_append, accumulate, if_pos hc, List.foldl_cons]
    exact ih (fun d hd => hds d (List.mem_cons_of_mem c hd)) (accumulate_step hv hdigit hd)

theorem parseNum_numeral {ds rest : Bytes} (hds : Numeral ds) (hrest : Stops rest) :
    ∃ w, parseNum (ds ++ rest) = some (w, rest) ∧ w.toNat = min (number ds) SIZE_MAX.toNat := by
  obtain ⟨w, hread, hw⟩ := accumulate_digits hds.digits hrest (v := 0) (n := 0) rfl
  refine ⟨w, ?_, hw⟩
  cases ds with
  | nil => exact absurd rfl hds.ne_nil
  | cons c ds =>
    have hc : isdigit c = true := hds.digits c List.mem_cons_self
    rw [List.cons_append] at hread ⊢
    rw [parseNum, if_pos hc, hread]

/-- Every text starts with a numeral that `parseNum` reads, or without any digit. -/
theorem parseNum_cases (p : Bytes) :
    (∃ ds rest w, p = ds ++ rest ∧ Numeral ds ∧ Stops rest ∧ parseNum p = some (w, rest) ∧
      w.toNat = min (number ds) SIZE_MAX.toNat) ∨ (Stops p ∧ parseNum p = none) := by
  obtain ⟨ds, rest, rfl, hds, hrest⟩ | hstops := exists_cut p
  · obtain ⟨w, hread, hw⟩ := parseNum_numeral hds hrest
    exact .inl ⟨ds, rest, w, rfl, hds, hrest, hread, hw⟩
  · refine .inr ⟨hstops, ?_⟩
    cases p with
    | nil => rfl
    | cons c rest =>
      have hc : ¬ isdigit c = true := Bool.eq_false_iff.mp (hstops c rfl)
      rw [parseNum, if_neg hc]

theorem stops_dash (rest : Bytes) : Stops (45 :: rest) := stops_cons rfl

theorem le_toNat {a b : UInt32} : a ≤ b ↔ a.toNat ≤ b.toNat := UInt32.le_iff_toNat_le

theorem lt_toNat {a b : UInt32} : a < b ↔ a.toNat < b.toNat := UInt32.lt_iff_toNat_lt

/-- The last `n` bytes of a file. -/
theorem suffix_answers {n : Nat} {w : UInt32} (hw : w.toNat = min n SIZE_MAX.toNat) (fileSize : UInt32) :
    Answers fileSize.toNat (.suffix n)
      (if w = 0 ∨ fileSize = 0 then .Unsatisfiable
      else
        let len := if w < fileSize then w else fileSize
        .Partial (fileSize - len) len) := by
  have hmax : SIZE_MAX.toNat = 4294967295 := rfl
  have hsize := fileSize.toNat_lt
  have hzero (a : UInt32) : a = 0 ↔ a.toNat = 0 := by
    rw [← UInt32.toNat_inj]
    rfl
  split_ifs with hempty hshort
  · rw [hzero, hzero] at hempty
    rintro i ⟨hi, hlast⟩
    omega
  · rw [hzero, hzero] at hempty
    rw [lt_toNat] at hshort
    refine ⟨by omega, fun i => ?_⟩
    rw [UInt32.toNat_sub_of_le _ _ (le_toNat.mpr hshort.le), Form.Selects]
    omega
  · rw [hzero, hzero] at hempty
    rw [lt_toNat] at hshort
    refine ⟨by omega, fun i => ?_⟩
    rw [UInt32.toNat_sub_of_le _ _ (le_toNat.mpr le_rfl), Form.Selects]
    omega

/-- What is left of a file from `first` on. -/
theorem from_answers {first : Nat} {w : UInt32} (hw : w.toNat = min first SIZE_MAX.toNat) (fileSize : UInt32) :
    Answers fileSize.toNat (.from first)
      (if w ≥ fileSize then .Unsatisfiable else .Partial w (fileSize - w)) := by
  have hmax : SIZE_MAX.toNat = 4294967295 := rfl
  have hsize := fileSize.toNat_lt
  split_ifs with hbeyond
  · rw [ge_iff_le, le_toNat] at hbeyond
    rintro i ⟨hi, hfirst⟩
    omega
  · rw [ge_iff_le, le_toNat] at hbeyond
    have hlen : (fileSize - w).toNat = fileSize.toNat - w.toNat := UInt32.toNat_sub_of_le _ _ (le_toNat.mpr (by omega))
    refine ⟨by omega, fun i => ?_⟩
    rw [hlen, Form.Selects]
    omega

/-- What lies between two positions, both included. -/
theorem closed_answers {first last : Nat} {a b : UInt32} (ha : a.toNat = min first SIZE_MAX.toNat)
    (hb : b.toNat = min last SIZE_MAX.toNat) (hle : first ≤ last) (fileSize : UInt32) :
    Answers fileSize.toNat (.closed first last)
      (if b < a then .None
      else if a ≥ fileSize then .Unsatisfiable
      else
        let b := if b ≥ fileSize then fileSize - 1 else b
        .Partial a (b - a + 1)) := by
  have hmax : SIZE_MAX.toNat = 4294967295 := rfl
  have hsize := fileSize.toNat_lt
  have hone : (1 : UInt32).toNat = 1 := rfl
  have hwindow {c : UInt32} (hac : a ≤ c) (hc : c.toNat < fileSize.toNat) :
      (c - a + 1).toNat = c.toNat - a.toNat + 1 := by
    rw [le_toNat] at hac
    rw [UInt32.toNat_add, UInt32.toNat_sub_of_le _ _ (le_toNat.mpr hac), hone]
    omega
  have hordered : ¬ b < a := by
    rw [lt_toNat]
    omega
  rw [if_neg hordered]
  rw [lt_toNat] at hordered
  by_cases hbeyond : a ≥ fileSize
  · rw [if_pos hbeyond]
    rw [ge_iff_le, le_toNat] at hbeyond
    rintro i ⟨hi, hfirst, hlast⟩
    omega
  · rw [if_neg hbeyond]
    rw [ge_iff_le, le_toNat] at hbeyond
    dsimp only
    by_cases hover : b ≥ fileSize
    · have hend : (fileSize - 1).toNat = fileSize.toNat - 1 := by
        rw [UInt32.toNat_sub_of_le _ _ (le_toNat.mpr (by omega)), hone]
      rw [if_pos hover]
      rw [ge_iff_le, le_toNat] at hover
      have hlen := hwindow (c := fileSize - 1) (le_toNat.mpr (by omega)) (by omega)
      refine ⟨by omega, fun i => ?_⟩
      rw [hlen, hend, Form.Selects]
      omega
    · rw [if_neg hover]
      rw [ge_iff_le, le_toNat] at hover
      have hlen := hwindow (c := b) (le_toNat.mpr (by omega)) (by omega)
      refine ⟨by omega, fun i => ?_⟩
      rw [hlen, Form.Selects]
      omega

/-- How a header is answered: for what it says, with the whole file when it says nothing,
and as if it were beyond the file when the order of its numbers is lost. -/
inductive Outcome (value : Bytes) (fileSize : UInt32) : Result → Prop
  | answered {form : Form} {r : Result} (hform : Denotes value form) (hanswer : Answers fileSize.toNat form r) :
      Outcome value fileSize r
  | ignored (hnone : ∀ form, ¬ Denotes value form) : Outcome value fileSize .None
  | indistinct (hnone : ∀ form, ¬ Denotes value form) (hlost : Indistinct value) :
      Outcome value fileSize .Unsatisfiable

/-- What a header says is behind its `bytes=`, with or without a dash in front. -/
theorem Denotes.cases_of {p : Bytes} {form : Form} (h : Denotes (bytes "bytes=" ++ p) form) :
    (∃ n, Numeral n ∧ p = 45 :: n ∧ form = .suffix (number n)) ∨
      ∃ a rest, Numeral a ∧ p = a ++ 45 :: rest ∧
        ((rest = [] ∧ form = .from (number a)) ∨
          (Numeral rest ∧ number a ≤ number rest ∧ form = .closed (number a) (number rest))) := by
  generalize hvalue : bytes "bytes=" ++ p = value at h
  cases h with
  | suffix hn => exact .inl ⟨_, hn, List.append_cancel_left hvalue, rfl⟩
  | «from» ha => exact .inr ⟨_, [], ha, List.append_cancel_left hvalue, .inl ⟨rfl, rfl⟩⟩
  | closed ha hb hle => exact .inr ⟨_, _, ha, List.append_cancel_left hvalue, .inr ⟨hb, hle, rfl⟩⟩

theorem Denotes.starts {value : Bytes} {form : Form} (h : Denotes value form) : ∃ p, value = bytes "bytes=" ++ p := by
  cases h <;> exact ⟨_, rfl⟩

theorem not_dash {a rest p : Bytes} (ha : Numeral a) (heq : a ++ rest = 45 :: p) : False := by
  cases a with
  | nil => exact ha.ne_nil rfl
  | cons c a =>
    cases heq
    exact absurd (ha.digits 45 List.mem_cons_self) (by decide)

theorem parseSuffix_outcome (p : Bytes) (fileSize : UInt32) :
    Outcome (bytes "bytes=" ++ 45 :: p) fileSize (parseSuffix p fileSize) := by
  have hnone (hother : ¬ Numeral p) (form : Form) : ¬ Denotes (bytes "bytes=" ++ 45 :: p) form := by
    intro hform
    obtain ⟨n, hn, heq, -⟩ | ⟨a, rest, ha, heq, -⟩ := hform.cases_of
    · cases heq
      exact hother hn
    · exact not_dash ha heq.symm
  obtain ⟨ds, rest, w, rfl, hds, hrest, hread, hw⟩ | ⟨hstops, hread⟩ := parseNum_cases p
  · unfold parseSuffix
    rw [hread]
    cases rest with
    | nil =>
      rw [List.append_nil]
      exact .answered (.suffix hds) (suffix_answers hw fileSize)
    | cons c rest =>
      refine .ignored (hnone fun hnum => ?_)
      have hdigit := hnum.digits c (List.mem_append_right ds List.mem_cons_self)
      rw [hrest c rfl] at hdigit
      cases hdigit
  · unfold parseSuffix
    rw [hread]
    refine .ignored (hnone fun hnum => ?_)
    cases p with
    | nil => exact hnum.ne_nil rfl
    | cons c p =>
      have hdigit := hnum.digits c List.mem_cons_self
      rw [hstops c rfl] at hdigit
      cases hdigit

/-- A text that does not start with a digit is no numeral with something behind it. -/
theorem not_numeral {p a rest : Bytes} (hstops : Stops p) (ha : Numeral a) : p ≠ a ++ rest := by
  rintro rfl
  cases a with
  | nil => exact ha.ne_nil rfl
  | cons c a =>
    have hdigit := ha.digits c List.mem_cons_self
    rw [hstops c rfl] at hdigit
    cases hdigit

/-- What a header says once its first number has been read: there is only one way to do so. -/
theorem Denotes.behind {a rest : Bytes} {form : Form} (ha : Numeral a) (hrest : Stops rest)
    (h : Denotes (bytes "bytes=" ++ (a ++ rest)) form) :
    ∃ last, rest = 45 :: last ∧ (last = [] ∨ Numeral last ∧ number a ≤ number last) := by
  obtain ⟨n, -, heq, -⟩ | ⟨a', last, ha', heq, hlast⟩ := h.cases_of
  · exact (not_dash ha heq).elim
  · obtain ⟨rfl, rfl⟩ := cut_unique ha.digits ha'.digits hrest (stops_dash last) heq
    exact ⟨last, rfl, hlast.imp And.left fun hclosed => ⟨hclosed.1, hclosed.2.1⟩⟩

/-- A header says one thing only. -/
theorem Denotes.unique {value : Bytes} {form form' : Form} (h : Denotes value form) (h' : Denotes value form') :
    form = form' := by
  obtain ⟨p, rfl⟩ := h.starts
  obtain ⟨n, hn, rfl, rfl⟩ | ⟨a, rest, ha, rfl, hform⟩ := h.cases_of
  · obtain ⟨n', hn', heq, rfl⟩ | ⟨a', rest', ha', heq, -⟩ := h'.cases_of
    · cases heq
      rfl
    · exact (not_dash ha' heq.symm).elim
  · obtain ⟨n', hn', heq, -⟩ | ⟨a', rest', ha', heq, hform'⟩ := h'.cases_of
    · exact (not_dash ha heq).elim
    · obtain ⟨rfl, hrest⟩ := cut_unique ha.digits ha'.digits (stops_dash rest) (stops_dash rest') heq
      cases hrest
      obtain ⟨rfl, rfl⟩ | ⟨hrest, -, rfl⟩ := hform <;> obtain ⟨hnil, rfl⟩ | ⟨hrest', -, rfl⟩ := hform'
      · rfl
      · exact absurd rfl hrest'.ne_nil
      · exact absurd hnil hrest.ne_nil
      · rfl

/-- What is behind the dash is the last position, or nothing that a header says. -/
theorem parseLast_outcome {a : Bytes} (ha : Numeral a) {first : UInt32}
    (hfirst : first.toNat = min (number a) SIZE_MAX.toNat) {p : Bytes} (hp : p ≠ []) (fileSize : UInt32) :
    Outcome (bytes "bytes=" ++ (a ++ 45 :: p)) fileSize (parseLast first p fileSize) := by
  have hbehind {form : Form} (hform : Denotes (bytes "bytes=" ++ (a ++ 45 :: p)) form) :
      Numeral p ∧ number a ≤ number p := by
    obtain ⟨last, heq, hlast⟩ := hform.behind ha (stops_dash p)
    cases heq
    exact hlast.resolve_left hp
  unfold parseLast
  obtain ⟨b, rest, last, rfl, hb, hrest, hread, hlast⟩ | ⟨hstops, hread⟩ := parseNum_cases p
  · rw [hread]
    cases rest with
    | cons c rest =>
      refine .ignored fun form hform => ?_
      have hdigit := (hbehind hform).1.digits c (List.mem_append_right b List.mem_cons_self)
      rw [hrest c rfl] at hdigit
      cases hdigit
    | nil =>
      rw [List.append_nil] at hbehind ⊢
      by_cases hle : number a ≤ number b
      · exact .answered (.closed ha hb hle) (closed_answers hfirst hlast hle fileSize)
      · have hnone (form : Form) : ¬ Denotes (bytes "bytes=" ++ (a ++ 45 :: b)) form := fun hform =>
          hle (hbehind hform).2
        dsimp only
        by_cases hless : last < first
        · rw [if_pos hless]
          exact .ignored hnone
        · -- both numbers have come out as the maximum
          rw [if_neg hless]
          rw [lt_toNat] at hless
          have hmax : SIZE_MAX.toNat = 4294967295 := rfl
          have hsize := fileSize.toNat_lt
          have hbeyond : first ≥ fileSize := by
            rw [ge_iff_le, le_toNat]
            omega
          rw [if_pos hbeyond]
          refine .indistinct hnone ⟨a, b, ha, hb, rfl, ?_, ?_, by omega⟩
          · unfold Saturates
            omega
          · unfold Saturates
            omega
  · rw [hread]
    refine .ignored fun form hform => ?_
    have hdigits : Numeral p := (hbehind hform).1
    have hnot : p ≠ p ++ [] := not_numeral hstops hdigits
    exact hnot (List.append_nil p).symm

theorem parseFirst_dash {p last : Bytes} {first : UInt32} (hread : parseNum p = some (first, 45 :: last))
    (fileSize : UInt32) :
    parseFirst p fileSize =
      if last = [] then if first ≥ fileSize then .Unsatisfiable else .Partial first (fileSize - first)
      else parseLast first last fileSize := by
  rw [parseFirst, hread]
  rfl

theorem parseFirst_outcome {p : Bytes} (hdash : p.head? ≠ some 45) (fileSize : UInt32) :
    Outcome (bytes "bytes=" ++ p) fileSize (parseFirst p fileSize) := by
  obtain ⟨a, rest, first, rfl, ha, hrest, hread, hfirst⟩ | ⟨hstops, hread⟩ := parseNum_cases p
  · by_cases hbehind : ∃ last, rest = 45 :: last
    · obtain ⟨last, rfl⟩ := hbehind
      rw [parseFirst_dash hread]
      by_cases hopen : last = []
      · subst hopen
        rw [if_pos rfl]
        exact .answered (.from ha) (from_answers hfirst fileSize)
      · rw [if_neg hopen]
        exact parseLast_outcome ha hfirst hopen fileSize
    · have hnone (form : Form) : ¬ Denotes (bytes "bytes=" ++ (a ++ rest)) form := by
        intro hform
        obtain ⟨last, heq, -⟩ := hform.behind ha hrest
        exact hbehind ⟨last, heq⟩
      unfold parseFirst
      rw [hread]
      split
      · rename_i heq
        cases heq
        exact absurd ⟨_, rfl⟩ hbehind
      · exact .ignored hnone
  · unfold parseFirst
    rw [hread]
    refine .ignored fun form hform => ?_
    obtain ⟨n, -, rfl, -⟩ | ⟨a, rest, ha, heq, -⟩ := hform.cases_of
    · exact hdash rfl
    · exact not_numeral hstops ha heq

/-- Every header is answered for what it says. -/
theorem parse_outcome (value : Bytes) (fileSize : UInt32) :
    Outcome (c_str value) fileSize (parse (some value) fileSize) := by
  rw [parse]
  generalize c_str value = value
  dsimp only
  by_cases hunit : bytes "bytes=" <+: value
  · obtain ⟨p, rfl⟩ := hunit
    have hp : (bytes "bytes=" ++ p).drop 6 = p := rfl
    rw [if_neg (not_not.mpr (List.prefix_append _ _)), hp]
    by_cases hcomma : 44 ∈ p
    · rw [if_pos hcomma]
      refine .ignored fun form hform => ?_
      have hdigits {text : Bytes} (htext : Numeral text) : 44 ∉ text := fun hmem =>
        absurd (htext.digits 44 hmem) (by decide)
      obtain ⟨n, hn, rfl, -⟩ | ⟨a, rest, ha, rfl, ⟨rfl, -⟩ | ⟨hb, -⟩⟩ := hform.cases_of
      · simp [hdigits hn] at hcomma
      · simp [hdigits ha] at hcomma
      · simp [hdigits ha, hdigits hb] at hcomma
    · rw [if_neg hcomma]
      split
      · exact parseSuffix_outcome _ fileSize
      · rename_i hother
        refine parseFirst_outcome (fun hdash => ?_) fileSize
        obtain ⟨rest, rfl⟩ := List.head?_eq_some_iff.mp hdash
        exact hother rest rfl
  · rw [if_pos hunit]
    refine .ignored fun form hform => hunit ?_
    obtain ⟨p, rfl⟩ := hform.starts
    exact List.prefix_append _ _

/-- The header is there and says this. -/
def Says (value : Option Bytes) (form : Form) : Prop := ∃ text ∈ value, Denotes (c_str text) form

theorem says_of_answer (value : Option Bytes) (fileSize : UInt32) (hanswer : parse value fileSize ≠ .None) :
    ∃ text ∈ value, Outcome (c_str text) fileSize (parse value fileSize) := by
  cases value with
  | none => exact absurd rfl hanswer
  | some text => exact ⟨text, rfl, parse_outcome text fileSize⟩

/-- What a header says is answered. -/
theorem Says.answers {value : Option Bytes} {form : Form} (h : Says value form) (fileSize : UInt32) :
    Answers fileSize.toNat form (parse value fileSize) := by
  obtain ⟨text, rfl, hform⟩ := h
  generalize hr : parse (some text) fileSize = r
  have houtcome := parse_outcome text fileSize
  rw [hr] at houtcome
  cases houtcome with
  | answered hform' hanswer =>
    rw [hform.unique hform']
    exact hanswer
  | ignored hnone => exact absurd hform (hnone form)
  | indistinct hnone => exact absurd hform (hnone form)

/-- Only what a header says is answered with a window. -/
theorem says_of_window {value : Option Bytes} {fileSize start len : UInt32}
    (hspan : parse value fileSize = .Partial start len) :
    ∃ form, Says value form ∧ Answers fileSize.toNat form (.Partial start len) := by
  obtain ⟨text, rfl, houtcome⟩ := says_of_answer value fileSize (by simp [hspan])
  rw [hspan] at houtcome
  cases houtcome with
  | answered hform hanswer => exact ⟨_, ⟨text, rfl, hform⟩, hanswer⟩

/-- The window of an answer lies in the file. -/
theorem Answers.inside {fileSize start len : UInt32} {form : Form}
    (h : Answers fileSize.toNat form (.Partial start len)) : start.toNat + len.toNat ≤ fileSize.toNat := by
  obtain ⟨hlen, hselects⟩ := h
  have hlast := (hselects (start.toNat + len.toNat - 1)).mpr (by omega)
  have hlt : start.toNat + len.toNat - 1 < fileSize.toNat := by
    cases form with
    | suffix n => exact hlast.1
    | «from» first => exact hlast.1
    | closed first last => exact hlast.1
  omega

/-- Two windows with the same positions are the same. -/
theorem Answers.window_unique {fileSize start len start' len' : UInt32} {form : Form}
    (h : Answers fileSize.toNat form (.Partial start len)) (h' : Answers fileSize.toNat form (.Partial start' len')) :
    Result.Partial start len = .Partial start' len' := by
  obtain ⟨hlen, hselects⟩ := h
  obtain ⟨hlen', hselects'⟩ := h'
  have hsame (i : Nat) : start.toNat ≤ i ∧ i < start.toNat + len.toNat ↔
      start'.toNat ≤ i ∧ i < start'.toNat + len'.toNat := (hselects i).symm.trans (hselects' i)
  have hfirst := hsame start.toNat
  have hfirst' := hsame start'.toNat
  have hlast := hsame (start.toNat + len.toNat - 1)
  have hlast' := hsame (start'.toNat + len'.toNat - 1)
  have hstart : start = start' := UInt32.toNat_inj.mp (by omega)
  have hcount : len = len' := UInt32.toNat_inj.mp (by omega)
  rw [hstart, hcount]

/-- The answer to a `Range` header is the one that the header asks for, over unbounded
numbers; only when both its numbers saturate may their order be missed. -/
theorem parse_correct (value : Option Bytes) (fileSize : UInt32) :
    (∀ start len, parse value fileSize = .Partial start len ↔
      ∃ form, Says value form ∧ Answers fileSize.toNat form (.Partial start len)) ∧
    ((¬ ∃ text ∈ value, Indistinct (c_str text)) →
      (parse value fileSize = .Unsatisfiable ↔ ∃ form, Says value form ∧ ∀ i, ¬ form.Selects fileSize.toNat i) ∧
      (parse value fileSize = .None ↔ ∀ form, ¬ Says value form)) ∧
    ∀ start len, parse value fileSize = .Partial start len →
      1 ≤ len.toNat ∧ start.toNat + len.toNat ≤ fileSize.toNat := by
  refine ⟨fun start len => ⟨says_of_window, ?_⟩, fun hdistinct => ⟨⟨fun hbeyond => ?_, ?_⟩, fun hnone => ?_, ?_⟩,
    fun start len hspan => ?_⟩
  · rintro ⟨form, hsays, hwindow⟩
    have hanswer := hsays.answers fileSize
    generalize parse value fileSize = r at hanswer
    cases r with
    | None => exact hanswer.elim
    | Partial start' len' => exact hanswer.window_unique hwindow
    | Unsatisfiable =>
      obtain ⟨hlen, hselects⟩ := hwindow
      exact absurd ((hselects start.toNat).mpr (by omega)) (hanswer _)
  · obtain ⟨text, rfl, houtcome⟩ := says_of_answer value fileSize (by simp [hbeyond])
    rw [hbeyond] at houtcome
    cases houtcome with
    | answered hform hanswer => exact ⟨_, ⟨text, rfl, hform⟩, hanswer⟩
    | indistinct _ hlost => exact absurd ⟨text, rfl, hlost⟩ hdistinct
  · rintro ⟨form, hsays, hbeyond⟩
    have hanswer := hsays.answers fileSize
    generalize parse value fileSize = r at hanswer
    cases r with
    | None => exact hanswer.elim
    | Partial start len =>
      obtain ⟨hlen, hselects⟩ := hanswer
      exact absurd ((hselects start.toNat).mpr (by omega)) (hbeyond _)
    | Unsatisfiable => rfl
  · intro form hsays
    have hanswer := hsays.answers fileSize
    rw [hnone] at hanswer
    exact hanswer
  · intro hnone
    by_contra hanswer
    obtain ⟨text, rfl, houtcome⟩ := says_of_answer _ _ hanswer
    generalize parse (some text) fileSize = r at houtcome hanswer
    cases houtcome with
    | answered hform => exact hnone _ ⟨text, rfl, hform⟩
    | ignored => exact hanswer rfl
    | indistinct _ hlost => exact hdistinct ⟨text, rfl, hlost⟩
  · obtain ⟨form, -, hwindow⟩ := says_of_window hspan
    exact ⟨hwindow.1, hwindow.inside⟩

/-- The bytes 2 to 5 of a file of ten. -/
theorem parse_correct_closed :
    (parse (some (bytes "bytes=2-5")) 10 = .Partial 2 4 ↔
      ∃ form, Says (some (bytes "bytes=2-5")) form ∧ Answers 10 form (.Partial 2 4)) ∧
    (parse (some (bytes "bytes=2-5")) 10 = .Unsatisfiable ↔
      ∃ form, Says (some (bytes "bytes=2-5")) form ∧ ∀ i, ¬ form.Selects 10 i) ∧
    (parse (some (bytes "bytes=2-5")) 10 = .None ↔ ∀ form, ¬ Says (some (bytes "bytes=2-5")) form) := by
  obtain ⟨hclosed, hdistinct, -⟩ := parse_correct (some (bytes "bytes=2-5")) 10
  refine ⟨hclosed 2 4, hdistinct ?_⟩
  rintro ⟨text, htext, a, b, ha, -, heq, hsaturates, -⟩
  cases htext
  have hlength : a.length ≤ 3 := by
    have hsame := congrArg List.length heq
    have hwhole : (c_str (bytes "bytes=2-5")).length = 9 := by decide
    have hunit : (bytes "bytes=").length = 6 := rfl
    rw [hwhole, List.length_append, List.length_append, List.length_cons, hunit] at hsame
    omega
  have hsmall : number a < 10 ^ 3 :=
    (Decimal.number_lt ha.digits).trans_le (Nat.pow_le_pow_right (by decide) hlength)
  have hmax : SIZE_MAX.toNat = 4294967295 := rfl
  unfold Saturates at hsaturates
  omega

end DuneWeaver.HttpRange
