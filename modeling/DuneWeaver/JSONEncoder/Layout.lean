import DuneWeaver.JSONEncoder.Encoder

open Json

namespace DuneWeaver

/-- The characters written one by one, the opening bracket aside. -/
inductive Mark where
  | lbrace
  | rbrace
  | rbracket
  | comma
  | colon

def Mark.char : Mark → UInt8
  | .lbrace => 0x7b
  | .rbrace => 0x7d
  | .rbracket => 0x5d
  | .comma => 0x2c
  | .colon => 0x3a

def Mark.token : Mark → Token
  | .lbrace => .lbrace
  | .rbrace => .rbrace
  | .rbracket => .rbracket
  | .comma => .comma
  | .colon => .colon

/-- What a call writes: a string, a mark, an opening bracket with the line end
behind it, or a place for a line end with the indentation behind that. -/
inductive Piece where
  | string (s : Bytes)
  | mark (m : Mark)
  | bracket (level : Int)
  | line (level : Int)

def Piece.tokens : Piece → List Token
  | .string s => [.string s]
  | .mark m => [m.token]
  | .bracket _ => [.lbracket]
  | .line _ => []

def Output.put (o : Output) : Piece → Output
  | .string s => o.quoted s
  | .mark m => o.add m.char
  | .bracket level => (o.add 0x5b).line level
  | .line level => o.line level

/-- The level inside what begins at `level`: the sixteenth is not counted. -/
def raise (level : Int) : Int := if level + 1 = MAX_JSON_LEVEL then level else level + 1

/-- What `comma_line` writes. -/
def separate (level : Int) (started : Bool) : List Piece := if started then [.mark .comma, .line level] else []

namespace Call

/-- Whether the call begins an item, and so looks at the count of its level. -/
def item : Call → Bool
  | .end_object => false
  | .end_array => false
  | _ => true

/-- Whether an item stands in front of the next call. -/
def started : Call → Bool
  | .begin_object => false
  | .begin_array _ => false
  | .begin_member_object _ => false
  | _ => true

/-- The level after the call. -/
def level (level : Int) : Call → Int
  | .begin_object => raise level
  | .begin_array _ => raise level
  | .begin_member_object _ => raise level
  | .end_object => level - 1
  | .end_array => level - 1
  | .begin_member _ => level
  | .member _ _ => level
  | .string _ => level

def layout (level : Int) (started : Bool) : Call → List Piece
  | .begin_object => separate level started ++ [.mark .lbrace]
  | .end_object => [.line (level - 1), .mark .rbrace]
  | .begin_array tag => separate level started ++ [.string tag, .mark .colon, .bracket (raise level)]
  | .end_array => [.line (level - 1), .mark .rbracket]
  | .begin_member_object tag =>
    separate level started ++ [.string tag, .mark .colon, .mark .lbrace]
  | .begin_member tag => separate level started ++ [.string tag, .mark .colon]
  | .member tag value =>
    separate level started ++ [.string tag, .mark .colon, .string value]
  | .string s => separate level started ++ [.string s]

/-- The tokens of a call, the comma in front of it among them. -/
def tokens (started : Bool) : Call → List Token
  | .begin_object => separator started ++ [.lbrace]
  | .end_object => [.rbrace]
  | .begin_array tag => separator started ++ [.string tag, .colon, .lbracket]
  | .end_array => [.rbracket]
  | .begin_member_object tag => separator started ++ [.string tag, .colon, .lbrace]
  | .begin_member tag => separator started ++ [.string tag, .colon]
  | .member tag value => separator started ++ [.string tag, .colon, .string value]
  | .string s => separator started ++ [.string s]

end Call

/-- All that a run of calls writes, from a level and a place in it. -/
def layout : Int → Bool → List Call → List Piece
  | _, _, [] => []
  | level, started, call :: rest => call.layout level started ++ layout (call.level level) call.started rest

def levelAfter (level : Int) (calls : List Call) : Int := calls.foldl Call.level level

/-- No item begins below level 0. -/
def Counted : Int → List Call → Prop
  | _, [] => True
  | level, call :: rest => (call.item → 0 ≤ level) ∧ Counted (call.level level) rest

def callTokens : Bool → List Call → List Token
  | _, [] => []
  | started, call :: rest => call.tokens started ++ callTokens call.started rest

theorem raise_lt {level : Int} (hbelow : level < MAX_JSON_LEVEL) : raise level < MAX_JSON_LEVEL := by
  rw [raise]
  split
  · exact hbelow
  · omega

theorem separate_tokens (level : Int) (started : Bool) :
    (separate level started).flatMap Piece.tokens = separator started := by
  cases started <;> rfl

theorem Call.layout_tokens (call : Call) (level : Int) (started : Bool) :
    (call.layout level started).flatMap Piece.tokens = call.tokens started := by
  cases call <;> simp [Call.layout, Call.tokens, separate_tokens, Piece.tokens, Mark.token]

/-- Line ends and indentation aside, the layout is the tokens of the calls. -/
theorem layout_tokens (level : Int) (started : Bool) (calls : List Call) :
    (layout level started calls).flatMap Piece.tokens = callTokens started calls := by
  induction calls generalizing level started with
  | nil => rfl
  | cons call calls ih =>
    rw [layout, callTokens, List.flatMap_append, Call.layout_tokens, ih]

mutual

/-- How many objects are named through `begin_member`. -/
def Members.named : Members → Nat
  | .nil => 0
  | .member _ _ rest => rest.named
  | .array _ elements rest => elements.named + rest.named
  | .member_object _ members rest => members.named + rest.named
  | .named_object _ members rest => 1 + members.named + rest.named

def Elements.named : Elements → Nat
  | .nil => 0
  | .string _ rest => rest.named
  | .object members rest => members.named + rest.named

end

/-- Whether an item stands in front of what follows the members. -/
def Members.started (started : Bool) : Members → Bool
  | .nil => started
  | _ => true

def Elements.started (started : Bool) : Elements → Bool
  | .nil => started
  | _ => true

theorem Members.started_true (members : Members) : members.started true = true := by cases members <;> rfl

theorem Elements.started_true (elements : Elements) : elements.started true = true := by cases elements <;> rfl

section Calls

attribute [local simp] Members.calls Members.json Members.started Members.named Elements.calls Elements.json
  Elements.started Elements.named Json.Members.tokens Json.Elements.tokens Json.Value.tokens callTokens Call.tokens
  Call.started separator

mutual

/-- Where every named object comes from `begin_member_object`, the calls write
the tokens of the tree. -/
theorem Members.callTokens_calls : ∀ (members : Members) (started : Bool) (more : List Call), members.named = 0 →
    callTokens started (members.calls ++ more) =
      members.json.tokens started ++ callTokens (members.started started) more
  | .nil, started, more, _ => by
    simp
  | .member tag value rest, started, more, hnamed => by
    rw [Members.named] at hnamed
    have hrest := rest.callTokens_calls true more hnamed
    rw [rest.started_true] at hrest
    simp [hrest]
  | .array tag elements rest, started, more, hnamed => by
    rw [Members.named] at hnamed
    have helements := elements.callTokens_calls false (.end_array :: (rest.calls ++ more)) (by omega)
    have hrest := rest.callTokens_calls true more (by omega)
    rw [rest.started_true] at hrest
    simp [helements, hrest]
  | .member_object tag members rest, started, more, hnamed => by
    rw [Members.named] at hnamed
    have hmembers := members.callTokens_calls false (.end_object :: (rest.calls ++ more)) (by omega)
    have hrest := rest.callTokens_calls true more (by omega)
    rw [rest.started_true] at hrest
    simp [hmembers, hrest]
  | .named_object tag members rest, started, more, hnamed => by
    rw [Members.named] at hnamed
    omega

theorem Elements.callTokens_calls : ∀ (elements : Elements) (started : Bool) (more : List Call), elements.named = 0 →
    callTokens started (elements.calls ++ more) =
      elements.json.tokens started ++ callTokens (elements.started started) more
  | .nil, started, more, _ => by
    simp
  | .string s rest, started, more, hnamed => by
    rw [Elements.named] at hnamed
    have hrest := rest.callTokens_calls true more hnamed
    rw [rest.started_true] at hrest
    simp [hrest]
  | .object members rest, started, more, hnamed => by
    rw [Elements.named] at hnamed
    have hmembers := members.callTokens_calls false (.end_object :: (rest.calls ++ more)) (by omega)
    have hrest := rest.callTokens_calls true more (by omega)
    rw [rest.started_true] at hrest
    simp [hmembers, hrest]

end

mutual

/-- Every object named through `begin_member` costs a comma that the tree has
not. -/
theorem Members.length_calls : ∀ (members : Members) (started : Bool) (more : List Call),
    (callTokens started (members.calls ++ more)).length =
      (members.json.tokens started).length + members.named + (callTokens (members.started started) more).length
  | .nil, started, more => by
    simp
  | .member tag value rest, started, more => by
    have hrest := rest.length_calls true more
    rw [rest.started_true] at hrest
    simp [hrest]
    omega
  | .array tag elements rest, started, more => by
    have helements := elements.length_calls false (.end_array :: (rest.calls ++ more))
    have hrest := rest.length_calls true more
    rw [rest.started_true] at hrest
    simp [helements, hrest]
    omega
  | .member_object tag members rest, started, more => by
    have hmembers := members.length_calls false (.end_object :: (rest.calls ++ more))
    have hrest := rest.length_calls true more
    rw [rest.started_true] at hrest
    simp [hmembers, hrest]
    omega
  | .named_object tag members rest, started, more => by
    have hmembers := members.length_calls false (.end_object :: (rest.calls ++ more))
    have hrest := rest.length_calls true more
    rw [rest.started_true] at hrest
    simp [hmembers, hrest]
    omega

theorem Elements.length_calls : ∀ (elements : Elements) (started : Bool) (more : List Call),
    (callTokens started (elements.calls ++ more)).length =
      (elements.json.tokens started).length + elements.named + (callTokens (elements.started started) more).length
  | .nil, started, more => by
    simp
  | .string s rest, started, more => by
    have hrest := rest.length_calls true more
    rw [rest.started_true] at hrest
    simp [hrest]
    omega
  | .object members rest, started, more => by
    have hmembers := members.length_calls false (.end_object :: (rest.calls ++ more))
    have hrest := rest.length_calls true more
    rw [rest.started_true] at hrest
    simp [hmembers, hrest]
    omega

end

end Calls

end DuneWeaver
