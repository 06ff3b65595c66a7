import Mathlib.Data.List.Basic

namespace Json

/-- The tokens of a text whose only scalars are strings. -/
inductive Token where
  | lbrace
  | rbrace
  | lbracket
  | rbracket
  | comma
  | colon
  | string (s : List UInt8)
  deriving DecidableEq

mutual

/-- What a text stands for: strings, objects and arrays, a string being the
bytes it spells. Numbers, the literal names and `\u` are left out. -/
inductive Value where
  | string (s : List UInt8)
  | object (members : Members)
  | array (elements : Elements)

inductive Members where
  | nil
  | cons (tag : List UInt8) (value : Value) (rest : Members)

inductive Elements where
  | nil
  | cons (value : Value) (rest : Elements)

end

/-- The comma between an item and the one before it. -/
def separator (started : Bool) : List Token := if started then [.comma] else []

mutual

/-- The only way to write a value in tokens. -/
def Value.tokens : Value → List Token
  | .string s => [.string s]
  | .object members => .lbrace :: members.tokens false ++ [.rbrace]
  | .array elements => .lbracket :: elements.tokens false ++ [.rbracket]

/-- `started` says whether a member stands before these. -/
def Members.tokens : Members → Bool → List Token
  | .nil, _ => []
  | .cons tag value rest, started =>
    separator started ++ .string tag :: .colon :: value.tokens ++ rest.tokens true

def Elements.tokens : Elements → Bool → List Token
  | .nil, _ => []
  | .cons value rest, started => separator started ++ value.tokens ++ rest.tokens true

end

/-- The byte after a backslash, and the byte the two stand for. -/
def unescape (c : UInt8) : Option UInt8 :=
  if c = 0x22 ∨ c = 0x5c ∨ c = 0x2f then some c
  else if c = 0x62 then some 0x08
  else if c = 0x66 then some 0x0c
  else if c = 0x6e then some 0x0a
  else if c = 0x72 then some 0x0d
  else if c = 0x74 then some 0x09
  else none

def mark (c : UInt8) : Option Token :=
  if c = 0x7b then some .lbrace
  else if c = 0x7d then some .rbrace
  else if c = 0x5b then some .lbracket
  else if c = 0x5d then some .rbracket
  else if c = 0x2c then some .comma
  else if c = 0x3a then some .colon
  else none

/-- Space, tab, line feed and carriage return. -/
def space (c : UInt8) : Bool := c = 0x20 || c = 0x09 || c = 0x0a || c = 0x0d

/-- Where a reader stands: between tokens, inside a string that has spelled `s`
so far, or behind a backslash there. -/
inductive Mode where
  | outside
  | inside (s : List UInt8)
  | escaped (s : List UInt8)
  deriving DecidableEq

structure Lexer where
  tokens : List Token
  mode : Mode
  deriving DecidableEq

/-- One byte of the text. A control byte may not stand inside a string. -/
def Lexer.step (l : Lexer) (c : UInt8) : Option Lexer :=
  match l.mode with
  | .outside =>
    if space c then some l
    else if c = 0x22 then some { l with mode := .inside [] }
    else (mark c).map fun t => { l with tokens := l.tokens ++ [t] }
  | .inside s =>
    if c = 0x22 then some { tokens := l.tokens ++ [.string s], mode := .outside }
    else if c = 0x5c then some { l with mode := .escaped s }
    else if c < 0x20 then none
    else some { l with mode := .inside (s ++ [c]) }
  | .escaped s => (unescape c).map fun b => { l with mode := .inside (s ++ [b]) }

def Lexer.start : Lexer := { tokens := [], mode := .outside }

/-- The lexer after a text, `none` from the first byte it cannot be followed by. -/
def read (text : List UInt8) : Option Lexer := text.foldlM Lexer.step Lexer.start

/-- The text is valid and decodes to `v`. -/
def Denotes (text : List UInt8) (v : Value) : Prop := read text = some { tokens := v.tokens, mode := .outside }

instance (text : List UInt8) (v : Value) : Decidable (Denotes text v) :=
  inferInstanceAs (Decidable (_ = _))

variable {l : Lexer} {c : UInt8} {t : Token} {text more : List UInt8}

theorem read_append : read (text ++ more) = (read text).bind fun l => more.foldlM Lexer.step l := by
  rw [read, List.foldlM_append]
  rfl

theorem read_concat : read (text ++ [c]) = (read text).bind fun l => l.step c := by
  rw [read_append]
  cases read text with
  | none => rfl
  | some l => simp

theorem step_space (houtside : l.mode = .outside) (hspace : space c) : l.step c = some l := by
  simp only [Lexer.step, houtside, hspace, if_true]

theorem mark_not_space (hmark : mark c = some t) : space c = false ∧ c ≠ 0x22 := by
  constructor
  · cases hspace : space c with
    | false => rfl
    | true =>
      simp only [space, Bool.or_eq_true, decide_eq_true_eq] at hspace
      obtain ((rfl | rfl) | rfl) | rfl := hspace <;> cases hmark
  · rintro rfl
    cases hmark

theorem step_mark (houtside : l.mode = .outside) (hmark : mark c = some t) :
    l.step c = some { l with tokens := l.tokens ++ [t] } := by
  obtain ⟨hspace, hquote⟩ := mark_not_space hmark
  simp [Lexer.step, houtside, hspace, hquote, hmark]

/-- A line end may stand between tokens, never inside a string. -/
theorem step_newline {s : List UInt8} (hmode : l.mode = .inside s ∨ l.mode = .escaped s) : l.step 0x0a = none := by
  rcases hmode with hmode | hmode <;> simp [Lexer.step, hmode, unescape]

mutual

/-- Tokens are read in one way only, whatever follows them. -/
theorem Value.tokens_inj : ∀ {v w : Value} {a b : List Token}, v.tokens ++ a = w.tokens ++ b → v = w ∧ a = b
  | .string s, w, a, b, heq => by
    cases w with
    | string s' =>
      simp only [Value.tokens, List.cons_append, List.nil_append, List.cons.injEq, Token.string.injEq] at heq
      exact ⟨by rw [heq.1], heq.2⟩
    | object _ => simp [Value.tokens] at heq
    | array _ => simp [Value.tokens] at heq
  | .object members, w, a, b, heq => by
    cases w with
    | string _ => simp [Value.tokens] at heq
    | object members' =>
      simp only [Value.tokens, List.cons_append, List.append_assoc, List.nil_append, List.cons.injEq,
        true_and] at heq
      obtain ⟨rfl, rfl⟩ := Members.tokens_inj heq
      exact ⟨rfl, rfl⟩
    | array _ => simp [Value.tokens] at heq
  | .array elements, w, a, b, heq => by
    cases w with
    | string _ => simp [Value.tokens] at heq
    | object _ => simp [Value.tokens] at heq
    | array elements' =>
      simp only [Value.tokens, List.cons_append, List.append_assoc, List.nil_append, List.cons.injEq,
        true_and] at heq
      obtain ⟨rfl, rfl⟩ := Elements.tokens_inj heq
      exact ⟨rfl, rfl⟩

theorem Members.tokens_inj : ∀ {m n : Members} {started : Bool} {a b : List Token},
    m.tokens started ++ .rbrace :: a = n.tokens started ++ .rbrace :: b → m = n ∧ a = b
  | .nil, n, started, a, b, heq => by
    cases n with
    | nil => simpa [Members.tokens] using heq
    | cons tag value rest => cases started <;> simp [Members.tokens, separator] at heq
  | .cons tag value rest, n, started, a, b, heq => by
    cases n with
    | nil => cases started <;> simp [Members.tokens, separator] at heq
    | cons tag' value' rest' =>
      simp only [Members.tokens, List.append_assoc, List.append_cancel_left_eq, List.cons_append,
        List.cons.injEq, Token.string.injEq, true_and] at heq
      obtain ⟨rfl, heq⟩ := heq
      obtain ⟨rfl, hrest⟩ := Value.tokens_inj heq
      obtain ⟨rfl, rfl⟩ := Members.tokens_inj hrest
      exact ⟨rfl, rfl⟩

theorem Elements.tokens_inj : ∀ {m n : Elements} {started : Bool} {a b : List Token},
    m.tokens started ++ .rbracket :: a = n.tokens started ++ .rbracket :: b → m = n ∧ a = b
  | .nil, n, started, a, b, heq => by
    cases n with
    | nil => simpa [Elements.tokens] using heq
    | cons value rest =>
      cases started <;> cases value <;> simp [Elements.tokens, Value.tokens, separator] at heq
  | .cons value rest, n, started, a, b, heq => by
    cases n with
    | nil => cases started <;> cases value <;> simp [Elements.tokens, Value.tokens, separator] at heq
    | cons value' rest' =>
      simp only [Elements.tokens, List.append_assoc, List.append_cancel_left_eq] at heq
      obtain ⟨rfl, hrest⟩ := Value.tokens_inj heq
      obtain ⟨rfl, rfl⟩ := Elements.tokens_inj hrest
      exact ⟨rfl, rfl⟩

end

/-- A text decodes to one value at most. -/
theorem Denotes.unique {v w : Value} (hv : Denotes text v) (hw : Denotes text w) : v = w := by
  have heq := hv.symm.trans hw
  simp only [Option.some.injEq, Lexer.mk.injEq, and_true] at heq
  have happend : v.tokens ++ [] = w.tokens ++ [] := by rw [heq]
  exact (Value.tokens_inj happend).1

end Json
