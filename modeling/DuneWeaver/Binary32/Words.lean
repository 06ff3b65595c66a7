import DuneWeaver.Binary32.Strtof
import Mathlib.Data.Option.Basic

open Ascii

namespace Binary32

/-- The characters that a number can be written with. -/
def numeric (c : UInt8) : Bool :=
  isdigit c || (97 ≤ tolower c && tolower c ≤ 122) || c = 43 || c = 45 || c = 46 || c = 40 || c = 41 || c = 95

/-- What stands between a text and what is left of it are characters of a number. -/
def Passes (text rest : List UInt8) : Prop := ∃ passed, text = passed ++ rest ∧ ∀ c ∈ passed, numeric c = true

theorem toNat_tolower (c : UInt8) :
    (tolower c).toNat = if 65 ≤ c.toNat ∧ c.toNat ≤ 90 then c.toNat + 32 else c.toNat := by
  have hlow : (65 : UInt8).toNat = 65 := rfl
  have hhigh : (90 : UInt8).toNat = 90 := rfl
  have hshift : (32 : UInt8).toNat = 32 := rfl
  unfold tolower
  simp only [UInt8.le_iff_toNat_le, hlow, hhigh]
  split_ifs with hupper
  · rw [UInt8.toNat_add, hshift]
    omega
  · rfl

theorem numeric_iff {c : UInt8} : numeric c = true ↔ (48 ≤ c.toNat ∧ c.toNat ≤ 57) ∨
    (97 ≤ (tolower c).toNat ∧ (tolower c).toNat ≤ 122) ∨ c.toNat = 43 ∨ c.toNat = 45 ∨ c.toNat = 46 ∨
    c.toNat = 40 ∨ c.toNat = 41 ∨ c.toNat = 95 := by
  have hlow : (97 : UInt8).toNat = 97 := rfl
  have hhigh : (122 : UInt8).toNat = 122 := rfl
  simp only [numeric, Bool.or_eq_true, Bool.and_eq_true, decide_eq_true_eq, Decimal.isdigit_iff, UInt8.le_iff_toNat_le,
    hlow, hhigh, ← UInt8.toNat_inj, or_assoc]
  rfl

theorem isspace_iff {c : UInt8} : isspace c = true ↔ c.toNat = 32 ∨ (9 ≤ c.toNat ∧ c.toNat ≤ 13) := by
  have hblank : (32 : UInt8).toNat = 32 := rfl
  have hlow : (9 : UInt8).toNat = 9 := rfl
  have hhigh : (13 : UInt8).toNat = 13 := rfl
  simp only [isspace, Bool.or_eq_true, Bool.and_eq_true, decide_eq_true_eq, UInt8.le_iff_toNat_le, hlow, hhigh,
    ← UInt8.toNat_inj, hblank]

/-- No number is written with white space or a percent sign. -/
theorem numeric_plain {c : UInt8} (hc : numeric c = true) : isspace c = false ∧ c ≠ 37 := by
  rw [numeric_iff, toNat_tolower] at hc
  constructor
  · rw [← Bool.not_eq_true, isspace_iff]
    split_ifs at hc
    · omega
    · omega
  · rintro rfl
    have hpercent : (37 : UInt8).toNat = 37 := rfl
    rw [hpercent] at hc
    simp at hc

theorem numeric_of_lower {c : UInt8} (hc : numeric (tolower c) = true) : numeric c = true := by
  rw [numeric_iff, toNat_tolower (tolower c)] at hc
  rw [numeric_iff]
  rw [toNat_tolower] at hc ⊢
  split_ifs at hc ⊢
  all_goals omega

theorem numeric_of_isdigit {c : UInt8} (hc : isdigit c = true) : numeric c = true :=
  numeric_iff.mpr (.inl (Decimal.isdigit_iff.mp hc))

theorem numeric_of_hexDigit {c : UInt8} (hc : (hexDigit c).isSome = true) : numeric c = true := by
  have hlow : (48 : UInt8).toNat = 48 := rfl
  have hhigh : (57 : UInt8).toNat = 57 := rfl
  have hletter : (97 : UInt8).toNat = 97 := rfl
  have hlast : (102 : UInt8).toNat = 102 := rfl
  unfold hexDigit at hc
  simp only [UInt8.le_iff_toNat_le, hlow, hhigh, hletter, hlast] at hc
  rw [numeric_iff]
  split_ifs at hc with hdigit hhex
  · exact .inl hdigit
  · exact .inr (.inl (by omega))
  · exact absurd hc (by decide)

theorem Passes.refl (text : List UInt8) : Passes text text :=
  ⟨[], rfl, fun _ h => absurd h List.not_mem_nil⟩

theorem Passes.trans {text middle rest : List UInt8} (hfirst : Passes text middle) (hsecond : Passes middle rest) :
    Passes text rest := by
  obtain ⟨first, rfl, hfirst⟩ := hfirst
  obtain ⟨second, rfl, hsecond⟩ := hsecond
  refine ⟨first ++ second, (List.append_assoc _ _ _).symm, fun c hc => ?_⟩
  rcases List.mem_append.mp hc with hc | hc
  · exact hfirst c hc
  · exact hsecond c hc

theorem Passes.cons {c : UInt8} (hc : numeric c = true) (rest : List UInt8) : Passes (c :: rest) rest :=
  ⟨[c], rfl, fun _ h => List.mem_singleton.mp h ▸ hc⟩

/-- A character that is known is passed. -/
theorem Passes.tail {text : List UInt8} {c : UInt8} (hhead : text.head? = some c) (hc : numeric c = true) :
    Passes text text.tail := by
  cases text with
  | nil => exact absurd hhead (by simp)
  | cons d text =>
    rw [List.head?_cons, Option.some.injEq] at hhead
    exact hhead ▸ Passes.cons hc text

theorem Passes.dropWhile {p : UInt8 → Bool} (hp : ∀ c, p c = true → numeric c = true) (text : List UInt8) :
    Passes text (text.dropWhile p) :=
  ⟨text.takeWhile p, List.takeWhile_append_dropWhile.symm, fun c hc => hp c (List.mem_takeWhile_imp hc)⟩

theorem keyword_passes {word text rest : List UInt8} (hword : word.all numeric = true)
    (h : keyword word text = some rest) : Passes text rest := by
  unfold keyword at h
  split_ifs at h with htake
  rw [← Option.some.inj h]
  refine ⟨text.take word.length, (List.take_append_drop _ _).symm, fun c hc =>
    numeric_of_lower (List.all_eq_true.mp hword _ ?_)⟩
  rw [← htake]
  exact List.mem_map_of_mem hc

theorem signed_passes (text : List UInt8) : Passes text (signed text).2 := by
  unfold signed
  split_ifs with hminus hplus
  · exact Passes.tail hminus (by decide)
  · exact Passes.tail hplus (by decide)
  · exact Passes.refl text

theorem mantissa_passes {digit : UInt8 → Bool} (hdigit : ∀ c, digit c = true → numeric c = true)
    {text whole frac rest : List UInt8} (h : mantissa digit text = some (whole, frac, rest)) : Passes text rest := by
  have hwhole : Passes text (text.dropWhile digit) := Passes.dropWhile hdigit text
  unfold mantissa at h
  dsimp only at h
  by_cases hpoint : (text.dropWhile digit).head? = some 46
  · rw [if_pos hpoint, if_pos hpoint] at h
    split_ifs at h
    simp only [Option.some.injEq, Prod.mk.injEq] at h
    rw [← h.2.2]
    exact (hwhole.trans (Passes.tail hpoint (by decide))).trans (Passes.dropWhile hdigit _)
  · rw [if_neg hpoint, if_neg hpoint] at h
    split_ifs at h
    simp only [Option.some.injEq, Prod.mk.injEq] at h
    rw [← h.2.2]
    exact hwhole

theorem exponent_passes {letter : UInt8} (hletter : numeric letter = true) (text : List UInt8) :
    Passes text (exponent letter text).2 := by
  unfold exponent
  dsimp only
  by_cases h : text.head?.map tolower = some letter ∧ (signed text.tail).2.takeWhile isdigit ≠ []
  · rw [if_pos h]
    obtain ⟨c, hc, hlower⟩ := Option.map_eq_some_iff.mp h.1
    have hnumeric : numeric c = true := numeric_of_lower (hlower ▸ hletter)
    exact ((Passes.tail hc hnumeric).trans (signed_passes _)).trans
      (Passes.dropWhile (fun _ hd => numeric_of_isdigit hd) _)
  · rw [if_neg h]
    exact Passes.refl text

theorem decimal_passes {neg : Bool} {text rest : List UInt8} {v : Value} (h : decimal neg text = some (v, rest)) :
    Passes text rest := by
  unfold decimal at h
  obtain ⟨⟨whole, frac, middle⟩, hmantissa, h⟩ := Option.bind_eq_some_iff.mp h
  simp only [Option.some.injEq, Prod.mk.injEq] at h
  rw [← h.2]
  exact (mantissa_passes (fun _ hc => numeric_of_isdigit hc) hmantissa).trans (exponent_passes (by decide) middle)

theorem hexadecimal_passes {neg : Bool} {text rest : List UInt8} {v : Value}
    (h : hexadecimal neg text = some (v, rest)) : Passes text rest := by
  unfold hexadecimal at h
  obtain ⟨behind, hkeyword, h⟩ := Option.bind_eq_some_iff.mp h
  obtain ⟨⟨whole, frac, middle⟩, hmantissa, h⟩ := Option.bind_eq_some_iff.mp h
  simp only [Option.some.injEq, Prod.mk.injEq] at h
  rw [← h.2]
  exact ((keyword_passes (by decide) hkeyword).trans
    (mantissa_passes (fun _ hc => numeric_of_hexDigit hc) hmantissa)).trans
    (exponent_passes (by decide) middle)

theorem infinity_passes {neg : Bool} {text rest : List UInt8} {v : Value} (h : infinity neg text = some (v, rest)) :
    Passes text rest := by
  unfold infinity at h
  dsimp only at h
  obtain ⟨behind, hkeyword, h⟩ := Option.map_eq_some_iff.mp h
  obtain ⟨-, rfl⟩ := Prod.mk.inj h
  rcases (Option.orElse_eq_some _ _ _).mp hkeyword with hlong | ⟨-, hshort⟩
  · exact keyword_passes (by decide) hlong
  · exact keyword_passes (by decide) hshort

theorem notANumber_passes {text rest : List UInt8} {v : Value} (h : notANumber text = some (v, rest)) :
    Passes text rest := by
  unfold notANumber at h
  obtain ⟨behind, hkeyword, h⟩ := Option.bind_eq_some_iff.mp h
  have hword : Passes text behind := keyword_passes (by decide) hkeyword
  dsimp only at h
  split_ifs at h with hclosed
  · simp only [Option.some.injEq, Prod.mk.injEq] at h
    rw [← h.2]
    refine ((hword.trans (Passes.tail hclosed.1 (by decide))).trans (Passes.dropWhile ?_ _)).trans
      (Passes.tail hclosed.2 (by decide))
    intro c hc
    have hlow : (97 : UInt8).toNat = 97 := rfl
    have hhigh : (122 : UInt8).toNat = 122 := rfl
    simp only [Bool.or_eq_true, Bool.and_eq_true, decide_eq_true_eq, UInt8.le_iff_toNat_le, hlow, hhigh] at hc
    rcases hc with (hhex | hletter) | rfl
    · exact numeric_of_hexDigit hhex
    · exact numeric_iff.mpr (.inr (.inl hletter))
    · decide
  · simp only [Option.some.injEq, Prod.mk.injEq] at h
    rw [← h.2]
    exact hword

/-- A number is written with the characters of one, behind the white space in front of it. -/
theorem strtof_passes {text rest : List UInt8} {v : Value} (h : strtof text = some (v, rest)) :
    Passes (text.dropWhile isspace) rest := by
  unfold strtof at h
  dsimp only at h
  refine (signed_passes _).trans ?_
  rcases (Option.orElse_eq_some _ _ _).mp h with h | ⟨-, h⟩
  · exact hexadecimal_passes h
  rcases (Option.orElse_eq_some _ _ _).mp h with h | ⟨-, h⟩
  · exact decimal_passes h
  rcases (Option.orElse_eq_some _ _ _).mp h with h | ⟨-, h⟩
  · exact infinity_passes h
  · exact notANumber_passes h

/-- What is a number up to its end is written with nothing else, but for white space in front. -/
theorem strtof_whole {text : List UInt8} {v : Value} (h : strtof text = some (v, [])) :
    ∀ c ∈ text.dropWhile isspace, numeric c = true := by
  obtain ⟨passed, htext, hpassed⟩ := strtof_passes h
  rw [htext, List.append_nil]
  exact hpassed

end Binary32
