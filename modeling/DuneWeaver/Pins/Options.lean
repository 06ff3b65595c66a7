import DuneWeaver.Settings.Setting
import DuneWeaver.Lines.Pieces

namespace DuneWeaver.Pins

/-- The characters that end an option. -/
def separator (c : UInt8) : Bool := c = 0x3a || c = 0x3b

def equals (c : UInt8) : Bool := c = 0x3d

/-- What stands in front of the first place that `find_first_of` finds, and what
stands behind it; the whole text and nothing when there is none. -/
def cut (found : UInt8 → Bool) (s : Bytes) : Bytes × Bytes :=
  match s.findIdx? found with
  | none => (s, [])
  | some pos => (s.take pos, s.drop (pos + 1))

structure PinOption where
  options : Bytes
  option : Bytes := []
  key : Bytes := []
  value : Bytes := []
  deriving DecidableEq

namespace PinOption

def tokenize (o : PinOption) : PinOption :=
  if o.options.length = 0 then { o with option := [], key := [], value := [] }
  else
    let (option, options) := cut separator o.options
    let (key, value) := cut equals option
    { options, option, key, value }

/-- The constructor. -/
def ofOptions (options : Bytes) : PinOption := ({ options } : PinOption).tokenize

end PinOption

theorem cut_eq (found : UInt8 → Bool) (s : Bytes) : cut found s = (Lines.piece found s, Lines.behind found s) := by
  unfold cut
  induction s with
  | nil => rfl
  | cons c s ih =>
    cases hc : found c with
    | true => simp [List.findIdx?_cons, hc, Lines.piece_of_end hc, Lines.behind_of_end hc]
    | false =>
      rw [Lines.piece_of_char hc, Lines.behind_of_char hc, List.findIdx?_cons, hc]
      cases hfind : s.findIdx? found with
      | none =>
        rw [hfind] at ih
        simpa using ih
      | some pos =>
        rw [hfind] at ih
        simpa using ih

namespace PinOption

theorem tokenize_eq (o : PinOption) : o.tokenize = ofOptions o.options := by
  unfold ofOptions tokenize
  split
  · rfl
  · rfl

theorem ofOptions_nil : ofOptions [] = { options := [] } := rfl

theorem ofOptions_of_ne_nil {text : Bytes} (htext : text ≠ []) :
    ofOptions text =
      { options := Lines.behind separator text
        option := Lines.piece separator text
        key := Lines.piece equals (Lines.piece separator text)
        value := Lines.behind equals (Lines.piece separator text) } := by
  have hlength : text.length ≠ 0 := fun h => htext (List.length_eq_zero_iff.mp h)
  simp only [ofOptions, tokenize, if_neg hlength, cut_eq]

/-- The walk over the options from `it` on, up to the first that is equal to `end()`:
what it comes by, and the option it stops at. Only the keys are compared, and that of
`end()` is empty. -/
def loop (it : PinOption) : List PinOption × PinOption :=
  if it.key = (ofOptions []).key then ([], it)
  else
    let (more, last) := it.tokenize.loop
    (it :: more, last)
termination_by it.options.length + if it.key = [] then 0 else 1
decreasing_by
  have hkey : it.key ≠ [] := by assumption
  rw [if_neg hkey, tokenize_eq]
  by_cases hoptions : it.options = []
  · rw [hoptions, ofOptions_nil]
    simp
  · rw [ofOptions_of_ne_nil hoptions]
    have hlt := Lines.length_behind_lt separator hoptions
    dsimp only
    split <;> omega

end PinOption

/-- `for (auto opt : options)` over a `PinOptionsParser` of the text. -/
def iterate (options : Bytes) : List PinOption × PinOption := (PinOption.ofOptions (trim options)).loop

/-- An option, its key and its value: the key ends at the first `=`. -/
def entry (segment : Bytes) : Bytes × Bytes × Bytes :=
  (segment, segment.takeWhile (· ≠ 0x3d), (segment.dropWhile (· ≠ 0x3d)).tail)

/-- The options of a text are what stands between its separators, without the empty ones. -/
def segments (text : Bytes) : List Bytes := (text.splitOnP separator).filter (· ≠ [])

/-- The walk comes by the options of the text, and stops at the end of the text. -/
structure Walks (text : Bytes) (walk : List PinOption × PinOption) : Prop where
  yields : walk.1.map (fun o => (o.option, o.key, o.value)) = (segments text).map entry
  exhausts : walk.2.options = []

/-- No option but the last is empty, and none begins with `=`. -/
def Keyed (text : Bytes) : Prop :=
  (∀ segment ∈ (Lines.pieces separator text).dropLast, segment ≠ []) ∧
    ∀ segment ∈ Lines.pieces separator text, segment.head? ≠ some 0x3d

instance (text : Bytes) : Decidable (Keyed text) := inferInstanceAs (Decidable (_ ∧ _))

theorem segments_eq (text : Bytes) : segments text = (Lines.pieces separator text).filter (· ≠ []) := by
  unfold segments Lines.pieces
  split
  · next hlast =>
    conv_lhs => rw [← List.dropLast_append_getLast? [] hlast]
    simp
  · rfl

theorem pieces_eq_nil {text : Bytes} : Lines.pieces separator text = [] ↔ text = [] := by
  constructor
  · intro h
    by_contra hne
    rw [Lines.pieces_of_ne_nil hne] at h
    exact absurd h (List.cons_ne_nil _ _)
  · rintro rfl
    exact Lines.pieces_nil

theorem entry_eq (segment : Bytes) :
    entry segment = (segment, Lines.piece equals segment, Lines.behind equals segment) := by
  simp [entry, Lines.piece, Lines.behind, equals]

/-- A key is empty when its option is, or begins with the `=`. -/
theorem key_eq_nil_iff (segment : Bytes) :
    Lines.piece equals segment = [] ↔ segment = [] ∨ segment.head? = some 0x3d := by
  cases segment with
  | nil => simp [Lines.piece]
  | cons c segment =>
    cases hc : equals c with
    | true =>
      rw [Lines.piece_of_end hc]
      simpa [equals] using hc
    | false =>
      rw [Lines.piece_of_char hc]
      simpa [equals] using hc

theorem loop_nil : (PinOption.ofOptions []).loop = ([], { options := [] }) := by
  rw [PinOption.loop, if_pos rfl, PinOption.ofOptions_nil]

theorem loop_of_keyless {text : Bytes} (htext : text ≠ [])
    (hkey : Lines.piece equals (Lines.piece separator text) = []) :
    (PinOption.ofOptions text).loop = ([], PinOption.ofOptions text) := by
  rw [PinOption.loop, if_pos]
  rw [PinOption.ofOptions_of_ne_nil htext, PinOption.ofOptions_nil]
  exact hkey

theorem loop_of_keyed {text : Bytes} (htext : text ≠ [])
    (hkey : Lines.piece equals (Lines.piece separator text) ≠ []) :
    (PinOption.ofOptions text).loop =
      (PinOption.ofOptions text :: (PinOption.ofOptions (Lines.behind separator text)).loop.1,
        (PinOption.ofOptions (Lines.behind separator text)).loop.2) := by
  rw [PinOption.loop, if_neg, PinOption.tokenize_eq]
  · rw [PinOption.ofOptions_of_ne_nil htext]
  · rw [PinOption.ofOptions_of_ne_nil htext, PinOption.ofOptions_nil]
    exact hkey

/-- Each step of the walk takes one option off the text, until one has no key. -/
theorem loop_walks_iff (text : Bytes) : Walks text (PinOption.ofOptions text).loop ↔ Keyed text := by
  by_cases htext : text = []
  · subst htext
    rw [loop_nil]
    exact ⟨fun _ => by decide, fun _ => ⟨rfl, rfl⟩⟩
  have hpieces : Lines.pieces separator text =
      Lines.piece separator text :: Lines.pieces separator (Lines.behind separator text) :=
    Lines.pieces_of_ne_nil htext
  by_cases hkey : Lines.piece equals (Lines.piece separator text) = []
  · rw [loop_of_keyless htext hkey, Keyed, hpieces]
    rcases (key_eq_nil_iff _).mp hkey with hempty | hequals
    · -- an empty option: only a separator that ends the text may leave one
      by_cases hbehind : Lines.behind separator text = []
      · rw [hbehind, Lines.pieces_nil, hempty]
        refine ⟨fun _ => ⟨by simp, by simp⟩, fun _ => ⟨?_, ?_⟩⟩
        · rw [segments_eq, hpieces, hbehind, Lines.pieces_nil, hempty]
          rfl
        · rw [PinOption.ofOptions_of_ne_nil htext]
          exact hbehind
      · constructor
        · intro hwalks
          have hexhausts := hwalks.exhausts
          rw [PinOption.ofOptions_of_ne_nil htext] at hexhausts
          exact absurd hexhausts hbehind
        · rintro ⟨hfull, -⟩
          rw [List.dropLast_cons_of_ne_nil (fun h => hbehind (pieces_eq_nil.mp h))] at hfull
          exact absurd hempty (hfull _ List.mem_cons_self)
    · constructor
      · intro hwalks
        have hyields := hwalks.yields
        have hne : Lines.piece separator text ≠ [] := by
          intro hnil
          rw [hnil] at hequals
          exact absurd hequals (by decide)
        rw [segments_eq, hpieces, List.filter_cons_of_pos (by simpa using hne)] at hyields
        exact absurd hyields.symm (List.cons_ne_nil _ _)
      · rintro ⟨-, hplain⟩
        exact absurd hequals (hplain _ List.mem_cons_self)
  · have hne : Lines.piece separator text ≠ [] ∧ (Lines.piece separator text).head? ≠ some 0x3d := by
      rw [key_eq_nil_iff] at hkey
      exact not_or.mp hkey
    have ih := loop_walks_iff (Lines.behind separator text)
    have hhead : ((PinOption.ofOptions text).option, (PinOption.ofOptions text).key, (PinOption.ofOptions text).value) =
        entry (Lines.piece separator text) := by
      rw [PinOption.ofOptions_of_ne_nil htext, entry_eq]
    have hwalks : Walks text (PinOption.ofOptions text).loop ↔
        Walks (Lines.behind separator text) (PinOption.ofOptions (Lines.behind separator text)).loop := by
      have hsegments : segments text = Lines.piece separator text :: segments (Lines.behind separator text) := by
        rw [segments_eq, segments_eq, hpieces, List.filter_cons_of_pos (by simpa using hne.1)]
      rw [loop_of_keyed htext hkey]
      constructor
      · rintro ⟨hyields, hexhausts⟩
        rw [hsegments, List.map_cons, List.map_cons, hhead] at hyields
        exact ⟨(List.cons.inj hyields).2, hexhausts⟩
      · rintro ⟨hyields, hexhausts⟩
        refine ⟨?_, hexhausts⟩
        rw [hsegments, List.map_cons, List.map_cons, hhead, hyields]
    have hkeyed : Keyed text ↔ Keyed (Lines.behind separator text) := by
      unfold Keyed
      rw [hpieces, List.forall_mem_cons]
      by_cases hbehind : Lines.behind separator text = []
      · rw [hbehind, Lines.pieces_nil]
        simp [hne.2]
      · rw [List.dropLast_cons_of_ne_nil (fun h => hbehind (pieces_eq_nil.mp h)), List.forall_mem_cons]
        simp [hne.1, hne.2]
    rw [hwalks, hkeyed]
    exact ih
termination_by text.length
decreasing_by exact Lines.length_behind_lt separator htext

/-- The walk over the pin options stops at the first one with an empty key: behind an
empty option, or one that begins with `=`, the options of the text are dropped. -/
theorem iterate_walks_iff (options : Bytes) :
    Walks (trim options) (iterate options) ↔ Keyed (trim options) :=
  loop_walks_iff (trim options)

/-- Two separators in a row: the pull-up behind them is never seen. -/
theorem iterate_drops :
    (iterate (bytes "low::pu")).1.map PinOption.option = [bytes "low"] ∧
      segments (trim (bytes "low::pu")) = [bytes "low", bytes "pu"] ∧
      ¬Walks (trim (bytes "low::pu")) (iterate (bytes "low::pu")) := by
  have htrim : trim (bytes "low::pu") = bytes "low::pu" := by decide
  have hfirst : (PinOption.ofOptions (bytes "low::pu")).loop =
      ([PinOption.ofOptions (bytes "low::pu")], PinOption.ofOptions (bytes ":pu")) := by
    rw [loop_of_keyed (by decide) (by decide)]
    have hbehind : Lines.behind separator (bytes "low::pu") = bytes ":pu" := by decide
    rw [hbehind, loop_of_keyless (by decide) (by decide)]
  refine ⟨?_, by decide, fun hwalks => ?_⟩
  · rw [iterate, htrim, hfirst]
    decide
  · have hexhausts := hwalks.exhausts
    rw [iterate, htrim, hfirst] at hexhausts
    exact absurd hexhausts (by decide)

end DuneWeaver.Pins
