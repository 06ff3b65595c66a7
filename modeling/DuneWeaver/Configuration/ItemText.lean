import DuneWeaver.Configuration.Generator
import DuneWeaver.Configuration.Load

open Outline

namespace DuneWeaver.Configuration

/-- What the tokenizer makes of a value that is printed, if it can make anything of it. -/
def seen (value : Bytes) : Option Bytes := (Tokenizer.parseValue { _remainder := [] } (0x20 :: shown value)).toOption

section Values

variable {t : Tokenizer} {line value : Bytes}

/-- A text that has a character, up to its first one. -/
theorem split_at_first {c : UInt8} (hmem : c ∈ line) : ∃ tail, line = line.takeWhile (· ≠ c) ++ c :: tail := by
  induction line with
  | nil => cases hmem
  | cons b line ih =>
    by_cases heq : b = c
    · exact ⟨line, by simp [heq]⟩
    · obtain ⟨tail, htail⟩ := ih ((List.mem_cons.mp hmem).resolve_left fun h => heq h.symm)
      refine ⟨tail, ?_⟩
      rw [List.takeWhile_cons_of_pos (by simpa using heq), List.cons_append, ← htail]

theorem notMem_takeWhile_ne (c : UInt8) (line : Bytes) : c ∉ line.takeWhile (· ≠ c) := by
  intro hmem
  simpa using List.mem_takeWhile_imp hmem

/-- Where a value is read, the line has it behind some blanks. -/
theorem parseValue_ok (hvalue : t.parseValue line = .ok value) :
    ∃ lead text, line = lead ++ text ∧ (∀ c ∈ lead, isWhiteSpace c) ∧ ValueText value text := by
  refine ⟨line.takeWhile isWhiteSpace, line.dropWhile isWhiteSpace, List.takeWhile_append_dropWhile.symm, ?_, ?_⟩
  · exact fun c hc => List.mem_takeWhile_imp hc
  rw [Tokenizer.parseValue] at hvalue
  cases hcontent : line.dropWhile isWhiteSpace with
  | nil =>
    rw [hcontent] at hvalue
    cases hvalue
    exact .empty
  | cons delimiter rest =>
    have hspace : isWhiteSpace delimiter = false := by
      have hhead := List.head?_dropWhile_not isWhiteSpace line
      rw [hcontent] at hhead
      simpa using hhead
    simp only [hcontent] at hvalue
    split at hvalue
    case isTrue hdelimiter =>
      split at hvalue
      case isTrue hmem =>
        cases hvalue
        obtain ⟨tail, htail⟩ := split_at_first hmem
        have hquoted := ValueText.quoted tail hdelimiter (notMem_takeWhile_ne delimiter rest)
        rwa [List.cons_append, ← htail] at hquoted
      case isFalse => cases hvalue
    case isFalse hquote =>
      cases hvalue
      exact .plain rest hspace hquote

/-- Whether a value is read does not depend on where the tokenizer is. -/
theorem parseValue_error {e : ParseException} (herror : t.parseValue line = .error e) (t' : Tokenizer) :
    ∃ e', t'.parseValue line = .error e' := by
  rw [Tokenizer.parseValue] at herror ⊢
  cases hcontent : line.dropWhile isWhiteSpace with
  | nil =>
    rw [hcontent] at herror
    cases herror
  | cons delimiter rest =>
    simp only [hcontent] at herror ⊢
    split at herror
    case isTrue hdelimiter =>
      split at herror
      case isTrue => cases herror
      case isFalse hmem =>
        rw [if_pos hdelimiter, if_neg hmem]
        exact ⟨_, rfl⟩
    case isFalse => cases herror

/-- A value is no longer than what it is read from. -/
theorem length_le_of_parseValue (hvalue : t.parseValue line = .ok value) : value.length ≤ line.length := by
  obtain ⟨lead, text, rfl, -, htext⟩ := parseValue_ok hvalue
  have hle : value.length ≤ text.length := by
    cases htext with
    | empty => exact Nat.le_refl _
    | plain => exact Nat.le_refl _
    | quoted =>
      simp only [List.cons_append, List.length_cons, List.length_append]
      omega
  rw [List.length_append]
  omega

theorem seen_eq_some {read : Bytes} (hseen : seen value = some read) :
    Tokenizer.parseValue { _remainder := [] } (0x20 :: shown value) = .ok read := by
  unfold seen at hseen
  cases hparse : Tokenizer.parseValue { _remainder := [] } (0x20 :: shown value) with
  | error e =>
    rw [hparse] at hseen
    cases hseen
  | ok read' =>
    rw [hparse] at hseen
    cases hseen
    rfl

theorem identifier_ne {c other : UInt8} (hc : isIdentifierChar c = true) (hother : isIdentifierChar other = false) :
    c ≠ other := by
  rintro rfl
  rw [hother] at hc
  contradiction

/-- A character of a name is neither a blank nor of any use to a line. -/
theorem identifier_plain {c : UInt8} (hc : isIdentifierChar c) :
    isWhiteSpace c = false ∧ c ≠ 0x3a ∧ c ≠ 0x0a ∧ c ≠ 0x0d ∧ c ≠ 0x22 ∧ c ≠ 0x27 ∧ c ≠ 0x00 := by
  refine ⟨?_, ?_, ?_, ?_, ?_, ?_, ?_⟩
  · have hspace : c ≠ 0x20 := identifier_ne hc (by decide)
    have htab : c ≠ 0x09 := identifier_ne hc (by decide)
    have hfeed : c ≠ 0x0c := identifier_ne hc (by decide)
    have hreturn : c ≠ 0x0d := identifier_ne hc (by decide)
    simp [isWhiteSpace, hspace, htab, hfeed, hreturn]
  all_goals exact identifier_ne hc (by decide)

theorem Name.keyText (name : Name) : KeyText name.1 := by
  obtain ⟨name, hne, hchars⟩ := name
  refine ⟨?_, ?_, ?_⟩
  · cases name with
    | nil => contradiction
    | cons c name => exact hchars c List.mem_cons_self
  · exact fun hmem => (identifier_plain (hchars _ hmem)).2.1 rfl
  · exact fun c hc => (identifier_plain (hchars c (List.mem_of_getLast? hc))).1

/-- The line of a value that is seen. -/
theorem lineText_of_seen (name : Name) {value read : Bytes} (hseen : seen value = some read) (indent : Nat) :
    LineText (indent, name.1, read) (List.replicate indent 0x20 ++ name.1 ++ bytes ": " ++ shown value) := by
  obtain ⟨lead, text, hline, hlead, htext⟩ := parseValue_ok (seen_eq_some hseen)
  have hbody : List.replicate indent 0x20 ++ name.1 ++ bytes ": " ++ shown value =
      List.replicate indent 0x20 ++ (name.1 ++ [] ++ 0x3a :: (lead ++ text)) := by
    rw [← hline]
    simp [bytes]
  rw [hbody]
  exact .line indent name.keyText (by simp) hlead htext

end Values

section Plain

/-- A blank in front of a value is no part of it. -/
theorem parseValue_blank (t : Tokenizer) (line : Bytes) : t.parseValue (0x20 :: line) = t.parseValue line := by
  rw [Tokenizer.parseValue, Tokenizer.parseValue, List.dropWhile_cons_of_pos (by rfl)]

/-- A value comes back as it is exactly if it is plain. -/
theorem seen_eq_iff (value : Bytes) : seen value = some value ↔ Plain value := by
  rw [seen, parseValue_blank]
  unfold shown Plain
  by_cases hcolon : 0x3a ∈ value
  · rw [if_neg (not_not.mpr hcolon), if_pos hcolon]
    have hparse : Tokenizer.parseValue { _remainder := [] } (0x27 :: (c_str value ++ [0x27])) =
        .ok ((c_str value ++ [0x27]).takeWhile (· ≠ 0x27)) := by
      rw [Tokenizer.parseValue, List.dropWhile_cons_of_neg (by decide)]
      simp
    rw [hparse]
    simp only [Except.toOption, Option.some.injEq]
    constructor
    · intro hsame
      have hquote : 0x27 ∉ value := hsame ▸ notMem_takeWhile_ne 0x27 _
      have hinside : 0x27 ∉ c_str value := fun hmem => hquote ((List.takeWhile_prefix _).subset hmem)
      rw [(takeWhile_ne_append hinside []).1] at hsame
      exact ⟨hsame ▸ zero_notMem_c_str value, hquote⟩
    · rintro ⟨hnul, hquote⟩
      rw [c_str_eq_self hnul, (takeWhile_ne_append hquote []).1]
  · rw [if_pos hcolon, if_neg hcolon]
    cases value with
    | nil => exact iff_of_true rfl ⟨by simp, by simp⟩
    | cons c rest =>
      -- what is read of less than the value is not the value
      have hshort {line : Bytes} (hle : line.length ≤ rest.length) :
          (Tokenizer.parseValue { _remainder := [] } line).toOption ≠ some (c :: rest) := by
        intro hread
        have hlength : (c :: rest).length ≤ line.length := by
          apply length_le_of_parseValue (t := { _remainder := [] })
          revert hread
          cases Tokenizer.parseValue { _remainder := [] } line with
          | error e =>
            intro h
            cases h
          | ok read => exact fun h => congrArg _ (Option.some.inj h)
        rw [List.length_cons] at hlength
        omega
      have hrest := c_str_length_le rest
      by_cases hnul : c = 0
      · have hempty : c_str (c :: rest) = [] := by simp [c_str, hnul]
        rw [hempty]
        refine iff_of_false (hshort (Nat.zero_le _)) ?_
        simp [hnul]
      · have hcons : c_str (c :: rest) = c :: c_str rest := by simp [c_str, hnul]
        rw [hcons]
        by_cases hspace : isWhiteSpace c = true
        · have hblank : Tokenizer.parseValue { _remainder := [] } (c :: c_str rest) =
              Tokenizer.parseValue { _remainder := [] } (c_str rest) := by
            rw [Tokenizer.parseValue, Tokenizer.parseValue, List.dropWhile_cons_of_pos hspace]
          rw [hblank]
          refine iff_of_false (hshort hrest) ?_
          simp [hspace]
        · have hcontent : (c :: c_str rest).dropWhile isWhiteSpace = c :: c_str rest :=
            List.dropWhile_cons_of_neg hspace
          by_cases hquote : c = 0x22 ∨ c = 0x27
          · refine iff_of_false ?_ ?_
            · rw [Tokenizer.parseValue, hcontent]
              simp only [hquote, if_true]
              split
              · intro hread
                have hsame : (c_str rest).takeWhile (· ≠ c) = c :: rest := Option.some.inj hread
                have hfree := notMem_takeWhile_ne c (c_str rest)
                rw [hsame] at hfree
                exact hfree List.mem_cons_self
              · intro hread
                cases hread
            · rintro ⟨-, hhead⟩
              have := hhead c rfl
              tauto
          · have hparse : Tokenizer.parseValue { _remainder := [] } (c :: c_str rest) = .ok (c :: c_str rest) := by
              rw [Tokenizer.parseValue, hcontent]
              exact if_neg hquote
            rw [hparse]
            simp only [Except.toOption, Option.some.injEq, List.cons.injEq, true_and]
            constructor
            · intro hsame
              have hfree : 0x00 ∉ rest := hsame ▸ zero_notMem_c_str rest
              refine ⟨by simp [hfree, Ne.symm hnul], ?_⟩
              intro d hd
              obtain rfl : c = d := by simpa using hd
              exact ⟨Bool.not_eq_true _ ▸ hspace, not_or.mp hquote⟩
            · rintro ⟨hfree, -⟩
              exact c_str_eq_self fun hmem => hfree (List.mem_cons_of_mem c hmem)

end Plain

section Numbers

theorem digits_value (n : Nat) :
    (digits n).foldl (fun (sofar : Int) c => 10 * sofar + (c.toNat - 48)) 0 = n := by
  have hnumber := Decimal.foldl_int (Decimal.numeral_ofNat n).digits 0
  rw [← Decimal.number, Decimal.number_ofNat] at hnumber
  rw [← Nat.cast_zero, ← hnumber]
  congr 1
  funext sofar c
  rw [mul_comm]

theorem isdigit_of_mem_digits {n : Nat} {c : UInt8} (hc : c ∈ digits n) : isdigit c = true :=
  (Decimal.numeral_ofNat n).digits c hc

theorem digits_ne_nil (n : Nat) : digits n ≠ [] := (Decimal.numeral_ofNat n).ne_nil

theorem not_isspace_of_isdigit {c : UInt8} (hc : isdigit c = true) : isspace c = false ∧ c ≠ 0x2d ∧ c ≠ 0x2b := by
  have hne {other : UInt8} (hother : isdigit other = false) : c ≠ other := by
    rintro rfl
    rw [hother] at hc
    contradiction
  refine ⟨?_, hne (by decide), hne (by decide)⟩
  by_contra hspace
  simp only [isspace, isdigit, Bool.not_eq_false, Bool.or_eq_true, Bool.and_eq_true, decide_eq_true_eq,
    UInt8.le_iff_toNat_le] at hspace hc
  obtain rfl | ⟨_, hhigh⟩ := hspace
  · exact absurd hc.1 (by decide)
  · have hlow : 48 ≤ c.toNat := hc.1
    have htop : c.toNat ≤ 13 := hhigh
    omega

theorem trim_eq_self {s : Bytes} (hnone : ∀ c ∈ s, isspace c = false) : trim s = s := by
  have hdrop (s : Bytes) (hnone : ∀ c ∈ s, isspace c = false) : s.dropWhile isspace = s := by
    cases s with
    | nil => rfl
    | cons c s => exact List.dropWhile_cons_of_neg (by simp [hnone c List.mem_cons_self])
  rw [trim, hdrop s hnone, hdrop s.reverse (fun c hc => hnone c (List.mem_reverse.mp hc)), List.reverse_reverse]

/-- A number is printed in digits, behind a sign if it has one. -/
theorem mem_to_string {value : Int} {c : UInt8} (hc : c ∈ to_string value) : isdigit c = true ∨ c = 0x2d := by
  unfold to_string at hc
  split at hc
  · obtain rfl | hdigit := List.mem_cons.mp hc
    · exact .inr rfl
    · exact .inl (isdigit_of_mem_digits hdigit)
  · exact .inl (isdigit_of_mem_digits hc)

theorem trim_to_string (value : Int) : trim (to_string value) = to_string value := by
  apply trim_eq_self
  intro c hc
  obtain hdigit | rfl := mem_to_string hc
  · exact (not_isspace_of_isdigit hdigit).1
  · rfl

theorem strto_to_string (value : Int) : strto (to_string value) = (value, []) := by
  have hall : ∀ n, ∀ c ∈ digits n, isdigit c = true := fun n c hc => isdigit_of_mem_digits hc
  have htake (n : Nat) : (digits n).takeWhile isdigit = digits n := List.takeWhile_eq_self_iff.mpr (hall n)
  have hdrop (n : Nat) : (digits n).dropWhile isdigit = [] := List.dropWhile_eq_nil_iff.mpr (hall n)
  unfold to_string
  by_cases hnegative : value < 0
  · rw [if_pos hnegative, strto, List.dropWhile_cons_of_neg (by decide)]
    simp only [List.head?_cons, true_or, if_true, List.tail_cons, htake, hdrop, digits_ne_nil, if_false, digits_value]
    congr 1
    omega
  · rw [if_neg hnegative, strto]
    cases hdigits : digits value.natAbs with
    | nil => exact absurd hdigits (digits_ne_nil _)
    | cons c rest =>
      obtain ⟨hspace, hminus, hplus⟩ := not_isspace_of_isdigit (hall value.natAbs c (by simp [hdigits]))
      have hbody : (c :: rest).dropWhile isspace = c :: rest := List.dropWhile_cons_of_neg (by simp [hspace])
      have hmagnitude := digits_value value.natAbs
      rw [hdigits] at hmagnitude
      have htakes := htake value.natAbs
      have hdrops := hdrop value.natAbs
      rw [hdigits] at htakes hdrops
      simp only [hbody, List.head?_cons, Option.some.injEq, hminus, hplus, or_self, if_false, htakes, hdrops,
        List.cons_ne_nil, hmagnitude]
      congr 1
      omega

theorem intValue_to_string (is_float : Bytes → Option Int) (value : Int32) :
    intValue is_float (to_string value.toInt) = .ok value := by
  have hlow : Int32.minValue.toInt ≤ value.toInt := value.minValue_le_toInt
  have hhigh : value.toInt ≤ Int32.maxValue.toInt := value.toInt_le
  have hread : is_int (to_string value.toInt) = some value := by
    unfold is_int strtol
    have hclamp : min Int32.maxValue.toInt (max Int32.minValue.toInt value.toInt) = value.toInt := by omega
    rw [strto_to_string, if_pos rfl]
    simp only [hclamp, Int32.ofInt_toInt]
  rw [intValue, trim_to_string, hread]

theorem uintValue_to_string (is_float : Bytes → Option Int) (value : UInt32) :
    uintValue is_float (to_string value.toNat) = .ok value := by
  have hread : is_uint (to_string value.toNat) = some value := by
    unfold is_uint strtoul
    have hfits : (value.toNat : Int).natAbs < 2 ^ 32 := value.toNat_lt
    rw [strto_to_string, if_pos rfl, if_pos hfits]
    simp only [UInt32.ofInt, Option.some.injEq]
    apply UInt32.toNat_inj.mp
    rw [UInt32.toNat_ofNat']
    omega
  rw [uintValue, trim_to_string, hread]

end Numbers

section Items

theorem plain_of_chars {text : Bytes} (hchars : ∀ c ∈ text, isIdentifierChar c = true ∨ c = 0x2d) : Plain text := by
  have hplain : ∀ c ∈ text, isWhiteSpace c = false ∧ c ≠ 0x3a ∧ c ≠ 0x22 ∧ c ≠ 0x27 ∧ c ≠ 0x00 := by
    intro c hc
    obtain hidentifier | rfl := hchars c hc
    · obtain ⟨hspace, hcolon, -, -, hdouble, hsingle, hnul⟩ := identifier_plain hidentifier
      exact ⟨hspace, hcolon, hdouble, hsingle, hnul⟩
    · decide
  refine ⟨fun hmem => (hplain _ hmem).2.2.2.2 rfl, ?_⟩
  rw [if_neg fun hmem => (hplain _ hmem).2.1 rfl]
  intro c hc
  obtain ⟨hspace, -, hdouble, hsingle, -⟩ := hplain c (List.mem_of_head? hc)
  exact ⟨hspace, hdouble, hsingle⟩

theorem plain_to_string (value : Int) : Plain (to_string value) := by
  apply plain_of_chars
  intro c hc
  refine (mem_to_string hc).imp_left fun hdigit => ?_
  simp only [isdigit, Bool.and_eq_true, decide_eq_true_eq] at hdigit
  simp [isIdentifierChar, hdigit]

theorem equal_ignore_case_comm (a b : Bytes) : equal_ignore_case a b = equal_ignore_case b a := by
  unfold equal_ignore_case
  exact decide_eq_decide.mpr eq_comm

/-- A name of an enumeration finds itself. -/
theorem find_name {items : List (Name × Int32)}
    (hapart : items.Pairwise fun a b => equal_ignore_case a.1.1 b.1.1 = false) {item : Name × Int32}
    (hmem : item ∈ items) : items.find? (fun other => equal_ignore_case item.1.1 other.1.1) = some item := by
  induction items with
  | nil => cases hmem
  | cons first items ih =>
    obtain ⟨hfirst, hrest⟩ := List.pairwise_cons.mp hapart
    obtain rfl | hmem := List.mem_cons.mp hmem
    · exact List.find?_cons_of_pos (by simp [equal_ignore_case])
    · have hother : equal_ignore_case item.1.1 first.1.1 = false := by
        rw [equal_ignore_case_comm]
        exact hfirst item hmem
      rw [List.find?_cons_of_neg (by simp [hother])]
      exact ih hrest hmem

/-- The name printed for a value is that of an item with the value. -/
theorem enum_text (e : EnumItems) (value : { v : Int32 // v ∈ e.items.map Prod.snd }) :
    ∃ item ∈ e.items, item.2 = value.1 ∧ (Item.enum e value).text = item.1.1 := by
  obtain ⟨item, hmem, hvalue⟩ := List.mem_map.mp value.2
  cases hfind : e.items.find? (fun item => item.2 = value.1) with
  | none =>
    have hnone := List.find?_eq_none.mp hfind item hmem
    simp [hvalue] at hnone
  | some found =>
    refine ⟨found, List.mem_of_find?_eq_some hfind, by simpa using List.find?_some hfind, ?_⟩
    simp [Item.text, hfind]

theorem trim_name (name : Name) : trim name.1 = name.1 := by
  apply trim_eq_self
  intro c hc
  have hidentifier := name.2.2 c hc
  by_contra hspace
  simp only [isspace, isIdentifierChar, Bool.not_eq_false, Bool.or_eq_true, Bool.and_eq_true, decide_eq_true_eq,
    UInt8.le_iff_toNat_le, ← UInt8.toNat_inj, UInt8.reduceToNat] at hspace hidentifier
  omega

/-- Every item but a string is read as it is printed, and has its value again. -/
theorem Item.parse_text (is_float : Bytes → Option Int) (item : Item) :
    item.parse is_float item.text = .ok item.value := by
  cases item with
  | int32 minValue maxValue value =>
    obtain ⟨value, hlow, hhigh⟩ := value
    simp only [Item.parse, Item.text, intValue_to_string, Item.value]
    show Except.ok
      (ItemValue.int32 (if value < minValue then minValue else if value > maxValue then maxValue else value)) =
      _
    rw [if_neg (Int32.not_lt.mpr hlow), if_neg (Int32.not_lt.mpr hhigh)]
  | uint32 minValue maxValue value =>
    obtain ⟨value, hlow, hhigh⟩ := value
    simp only [Item.parse, Item.text, uintValue_to_string, Item.value]
    show Except.ok
      (ItemValue.uint32 (if value < minValue then minValue else if value > maxValue then maxValue else value)) =
      _
    rw [if_neg (UInt32.not_lt.mpr hlow), if_neg (UInt32.not_lt.mpr hhigh)]
  | bool value =>
    cases value with
    | true => rfl
    | false => rfl
  | enum e value =>
    obtain ⟨item, hmem, hvalue, htext⟩ := enum_text e value
    have hfind := find_name e.apart hmem
    simp [Item.parse, Item.value, htext, enumValue, trim_name, hfind, hvalue]
    rfl
  | string value => rfl

theorem Item.seen_text {item : Item} (hplain : item.Plain) : seen item.text = some item.text := by
  rw [seen_eq_iff]
  cases item with
  | int32 minValue maxValue value => exact plain_to_string _
  | uint32 minValue maxValue value => exact plain_to_string _
  | bool value =>
    apply plain_of_chars
    cases value with
    | true => decide +kernel
    | false => decide +kernel
  | enum e value =>
    obtain ⟨item, -, -, htext⟩ := enum_text e value
    rw [htext]
    exact plain_of_chars fun c hc => .inl (item.1.2.2 c hc)
  | string value => exact hplain

/-- An item has its value again exactly if it is plain. -/
theorem Item.restores_iff (is_float : Bytes → Option Int) {item : Item} {read : Bytes}
    (hseen : seen item.text = some read) : item.parse is_float read = .ok item.value ↔ item.Plain := by
  constructor
  · intro hparse
    cases item with
    | string value =>
      have hsame : read = value.1 := by simpa [Item.parse, Item.value, pure, Except.pure] using hparse
      rw [Item.Plain, ← seen_eq_iff]
      exact hseen.trans (congrArg some hsame)
    | int32 | uint32 | bool | enum => trivial
  · intro hplain
    obtain rfl : item.text = read := Option.some.inj ((seen_text hplain).symm.trans hseen)
    exact item.parse_text is_float

end Items

end DuneWeaver.Configuration
