import DuneWeaver.Binary32.Value
import DuneWeaver.Bytes
import Mathlib.Data.List.DropRight

open Binary32 (Value round)

namespace DuneWeaver.PlaylistParse

def CLEAR_NONE : Int := 0
def CLEAR_ADAPTIVE : Int := 1
def CLEAR_IN : Int := 2
def CLEAR_OUT : Int := 3
def CLEAR_SIDEWAY : Int := 4
def CLEAR_RANDOM : Int := 5

/-- Which clear file the policy chose. -/
inductive Clear where
  | None
  | FromIn
  | FromOut
  | Sideway
  deriving DecidableEq

/-- The characters of `" \t\r"`. -/
def isBlank (c : UInt8) : Bool := c = 32 || c = 9 || c = 13

/-- One raw playlist line as a pattern path: the `#` comment stripped, blanks
trimmed and a leading `/` added. Empty for a blank or comment-only line. -/
def clean_line (raw : Bytes) : Bytes :=
  let text := raw.takeWhile (· ≠ 35)
  match (text.dropWhile isBlank).rdropWhile isBlank with
  | [] => []
  | c :: rest => if c ≠ 47 then 47 :: c :: rest else c :: rest

/-- The loop of `parse_playlist` over what is left of the content. -/
def parse_lines (max_items : Nat) (rest : Bytes) (items : List Bytes) : List Bytes :=
  if rest = [] ∨ max_items ≤ items.length then items
  else
    let path := clean_line (rest.takeWhile (· ≠ 10))
    -- past the newline, or at the end of the content when there is none
    parse_lines max_items ((rest.dropWhile (· ≠ 10)).drop 1)
      (if path ≠ [] then items ++ [path] else items)
termination_by rest.length
decreasing_by
  rename_i hmore
  have hsuffix := (List.dropWhile_suffix (l := rest) (· ≠ (10 : UInt8))).length_le
  have hpos : 0 < rest.length := List.length_pos_of_ne_nil fun hnil => hmore (.inl hnil)
  rw [List.length_drop]
  omega

/-- The items of a playlist that is held as a whole, `max_items` at most. -/
def parse_playlist (content : Bytes) (max_items : Nat) : List Bytes := parse_lines max_items content []

/-- The first rho of a pattern, skipping a double `0 0` preamble; -1 when no
coordinates are found. `sscanf` reads the pair of numbers of one line. -/
def first_rho (sscanf : Bytes → Option (Value × Value)) (content : Bytes) : Value :=
  let isComment (line : Bytes) : Bool := line.head? = none || line.head? = some 35
  let coords := (((content.splitOn 10).filter (! isComment ·)).filterMap sscanf).take 3
  let small (x : Value) : Bool := (round true (1 / 10 ^ 9)).lt x && x.lt (round false (1 / 10 ^ 9))
  let isZero (c : Value × Value) : Bool := small c.1 && small c.2
  match coords with
  | [] => round true 1
  | [first, second, third] => if isZero first && isZero second then third.2 else first.2
  | first :: _ => first.2

/-- The clear-pattern policy. A pattern that starts near the centre is
preceded by a clear that ends there, and vice versa. -/
def choose_clear (clear_mode : Int) (first_rho : Value) (rnd : UInt32) : Clear :=
  if clear_mode = CLEAR_IN then .FromIn
  else if clear_mode = CLEAR_OUT then .FromOut
  else if clear_mode = CLEAR_SIDEWAY then .Sideway
  else if clear_mode = CLEAR_RANDOM then
    match rnd % 3 with
    | 0 => .FromIn
    | 1 => .FromOut
    | _ => .Sideway
  else if clear_mode = CLEAR_ADAPTIVE then
    if first_rho.lt (round false 0) then
      if rnd &&& 1 ≠ 0 then .FromIn else .FromOut
    else if first_rho.lt (round false (1 / 2)) then .FromOut
    else .FromIn
  else .None

/-- The `CLEAR_*` value a clear-mode name stands for; `none` for an empty or
unknown name. -/
def parse_clear_mode (name : Bytes) : Option Int :=
  let table : List (Bytes × Int) :=
    [(bytes "none", CLEAR_NONE), (bytes "adaptive", CLEAR_ADAPTIVE), (bytes "in", CLEAR_IN),
     (bytes "out", CLEAR_OUT), (bytes "sideway", CLEAR_SIDEWAY), (bytes "side", CLEAR_SIDEWAY),
     (bytes "random", CLEAR_RANDOM)]
  (table.find? fun entry => name.map tolower = entry.1).map (·.2)

/-- `strncasecmp` finds no difference in `n` characters. -/
def strncasecmp (a b : Bytes) (n : Nat) : Bool := (a.take n).map tolower = (b.take n).map tolower

theorem length_next_word_lt {p : Bytes} (h : p ≠ []) :
    ((p.dropWhile (· = 32)).dropWhile (· ≠ 32)).length < p.length := by
  obtain ⟨c, rest, rfl⟩ := List.exists_cons_of_ne_nil h
  rw [List.length_cons, Nat.lt_succ_iff]
  by_cases hc : c = 32
  · rw [List.dropWhile_cons_of_pos (by simpa using hc)]
    exact ((List.dropWhile_suffix _).trans (List.dropWhile_suffix _)).length_le
  · rw [List.dropWhile_cons_of_neg (by simpa using hc), List.dropWhile_cons_of_pos (by simpa using hc)]
    exact (List.dropWhile_suffix _).length_le

/-- The loop of `has_ext_in` over what is left of the list. -/
def has_ext_loop (name p : Bytes) : Bool :=
  if p = [] then false
  else
    let word := (p.dropWhile (· = 32)).takeWhile (· ≠ 32)
    if word ≠ [] ∧ word.length ≤ name.length ∧
        strncasecmp (name.drop (name.length - word.length)) word word.length then true
    else has_ext_loop name ((p.dropWhile (· = 32)).dropWhile (· ≠ 32))
termination_by p.length
decreasing_by exact length_next_word_lt (by assumption)

/-- Whether the name ends in one of the extensions; without a list it does. -/
def has_ext_in (name : Bytes) (exts : Option Bytes) : Bool :=
  match exts with
  | none => true
  | some exts => if c_str exts = [] then true else has_ext_loop name (c_str exts)

end DuneWeaver.PlaylistParse
