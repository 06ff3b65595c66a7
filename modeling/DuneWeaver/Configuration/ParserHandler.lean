import DuneWeaver.Bytes
import Mathlib.Data.List.DropRight
import DuneWeaver.Outline.Lines

open Outline

namespace DuneWeaver.Configuration

structure ParseException where
  _linenum : Nat
  _description : Bytes
  deriving DecidableEq

inductive TokenState where
  | Bof
  | Matching
  | Matched
  | Held
  | Eof
  deriving DecidableEq

structure TokenData where
  _key : Bytes := []
  _value : Bytes := []
  _indent : Int := -1
  _state : TokenState := .Bof
  deriving DecidableEq

structure Tokenizer where
  _remainder : Bytes
  _linenum : Nat := 0
  _token : TokenData := {}
  deriving DecidableEq

def isWhiteSpace (c : UInt8) : Bool := c = 0x20 || c = 0x09 || c = 0x0c || c = 0x0d

def isIdentifierChar (c : UInt8) : Bool :=
  (0x61 ≤ c && c ≤ 0x7a) || (0x41 ≤ c && c ≤ 0x5a) || (0x30 ≤ c && c ≤ 0x39) || c = 0x5f

/-- A line without the carriage return at its end. -/
def chomp (line : Bytes) : Bytes := if line.getLast? = some 0x0d then line.dropLast else line

namespace Tokenizer

def ParseError {α : Type} (t : Tokenizer) (description : Bytes) : Except ParseException α :=
  .error ⟨t._linenum, description⟩

/-- The next line that is neither empty nor a comment, and its indent; `none`
at the end of the text. The indents of the lines passed over are overwritten
before anything reads them. -/
def nextLine : Nat → Tokenizer → Except ParseException (Option (Nat × Bytes) × Tokenizer)
  | 0, t => .ok (none, { t with _linenum := t._linenum + 1 })
  | more + 1, t =>
    let t := { t with _linenum := t._linenum + 1 }
    if t._remainder = [] then .ok (none, t)
    else
      let line := chomp (t._remainder.takeWhile (· ≠ 0x0a))
      let t := { t with _remainder := (t._remainder.dropWhile (· ≠ 0x0a)).drop 1 }
      let content := line.dropWhile (· = 0x20)
      if content = [] then nextLine more t
      else if content.head? = some 0x09 then t.ParseError (bytes "Use spaces, not tabs, for indentation")
      else if content.head? = some 0x23 then nextLine more t
      else .ok (some (line.length - content.length, content), t)

/-- The key of the line, and what follows its colon. -/
def parseKey (t : Tokenizer) (_line : Bytes) : Except ParseException (Bytes × Bytes) :=
  if _line.head?.any isIdentifierChar then
    let _key := (_line.takeWhile (· ≠ 0x3a)).rdropWhile isWhiteSpace
    if 0x3a ∈ _line then .ok (_key, (_line.dropWhile (· ≠ 0x3a)).drop 1)
    else t.ParseError (bytes "Key " ++ _key ++ bytes " must be followed by ':'")
  else t.ParseError (bytes "Invalid character")

def parseValue (t : Tokenizer) (_line : Bytes) : Except ParseException Bytes :=
  match _line.dropWhile isWhiteSpace with
  | [] => .ok []
  | delimiter :: rest =>
    if delimiter = 0x22 ∨ delimiter = 0x27 then
      if delimiter ∈ rest then .ok (rest.takeWhile (· ≠ delimiter))
      else t.ParseError (bytes "Did not find matching delimiter")
    else .ok (delimiter :: rest)

def Tokenize (t : Tokenizer) : Except ParseException Tokenizer :=
  if t._token._state = .Held then .ok { t with _token := { t._token with _state := .Matching } }
  else
    match nextLine t._remainder.length t with
    | .error e => .error e
    | .ok (none, t) => .ok { t with _token := { t._token with _state := .Eof, _indent := -1, _key := [] } }
    | .ok (some (_indent, _line), t) => do
      let (_key, _line) ← t.parseKey _line
      let _value ← t.parseValue _line
      return { t with _token := { _key, _value, _indent, _state := .Matching } }

end Tokenizer

/-- What becomes of a value its item is given: most conversions take it or end
the parse, a pin may refuse it with a failed assertion. -/
inductive Conversion where
  | accepted
  | refused
  | exception (description : Bytes)
  deriving DecidableEq

mutual

/-- The calls of a `group` function up to its last: `handler.item`,
`handler.section`, and the factory that makes a new object for each section. -/
inductive Entry where
  | item (name : Bytes) (convert : Bytes → Conversion)
  | section (name : Bytes) (group : Group)
  | factory (builders : List (Bytes × Group))

/-- A `group` function. `single` is the factory that keeps one instance, a
motor's driver or the kinematics system; it is always the last call. -/
inductive Group where
  | mk (entries : List Entry) (single : List (Bytes × Group))

end

/-- What a section knows of its children: the sections whose pointers are no
longer null, and the one instance. An instance has items only, so it carries
nothing of this kind itself. -/
structure Configurable where
  created : List Bytes := []
  inst : Option (Bytes × Group) := none

/-- A value handed to an item, and the sections around it. -/
structure Delivery where
  path : List Bytes
  name : Bytes
  value : Bytes
  deriving DecidableEq

/-- How a run of the handler ends: out of fuel, with an exception that nothing
in it catches, or with a result. -/
inductive Outcome (α : Type) where
  | unfinished
  | exception (e : ParseException)
  | ok (a : α)
  deriving DecidableEq

namespace Outcome

variable {α β : Type}

def andThen (x : Outcome α) (f : α → Outcome β) : Outcome β :=
  match x with
  | unfinished => unfinished
  | exception e => exception e
  | ok a => f a

@[simp] theorem ok_andThen (a : α) (f : α → Outcome β) : (ok a).andThen f = f a := rfl

@[simp] theorem exception_andThen (e : ParseException) (f : α → Outcome β) :
    (exception e : Outcome α).andThen f = exception e := rfl

def ofExcept : Except ParseException α → Outcome α
  | .error e => exception e
  | .ok a => ok a

end Outcome

/-- `strncasecmp` over keys of the same length. -/
def named (expected key : Bytes) : Bool :=
  key ≠ [] && expected.length == key.length && expected.map tolower == key.map tolower

namespace Tokenizer

def matched (t : Tokenizer) : Tokenizer := { t with _token := { t._token with _state := .Matched } }

def held (t : Tokenizer) : Tokenizer := { t with _token := { t._token with _state := .Held } }

/-- Whether the token is one to be matched and has the name. The caller marks
it as matched. -/
def is (t : Tokenizer) (expected : Bytes) : Bool := t._token._state = .Matching && named expected t._token._key

end Tokenizer

/-- Entering a section: the path to it, its `group`, and the token it begins at. -/
abbrev Enter := List Bytes → Group → Tokenizer → Outcome (Tokenizer × List Delivery)

/-- What one token is matched to, and where that leaves the section and the
parser. -/
abbrev Grouped := Outcome (Configurable × Tokenizer × List Delivery)

/-- The factory that keeps one instance. Once it is there, it is entered
whatever the token is. -/
def single (enter : Enter) (path : List Bytes) (builders : List (Bytes × Group)) (self : Configurable)
    (t : Tokenizer) : Grouped :=
  match self.inst with
  | some (name, group) =>
    (enter (path ++ [name]) group t).andThen fun (t, delivered) => .ok (self, t, delivered)
  | none =>
    match builders.find? fun builder => t.is builder.1 with
    | some (name, group) =>
      (enter (path ++ [name]) group t.matched).andThen fun (t, delivered) =>
        .ok ({ self with inst := some (name, group) }, t, delivered)
    | none => .ok (self, t, [])

/-- The calls of a `group` function in turn. A failed assertion ends them, and
is caught behind them. -/
def entries (enter : Enter) (path : List Bytes) (builders : List (Bytes × Group)) :
    List Entry → Configurable → Tokenizer → Grouped
  | [], self, t => single enter path builders self t
  | .item name convert :: rest, self, t =>
    if t.is name then
      match convert t._token._value with
      | .accepted =>
        (entries enter path builders rest self t.matched).andThen fun (self, t', more) =>
          .ok (self, t', ⟨path, name, t._token._value⟩ :: more)
      | .refused => .ok (self, t.matched, [])
      | .exception description => .exception ⟨t._linenum, description⟩
    else entries enter path builders rest self t
  | .section name group :: rest, self, t =>
    if t.is name then
      if name ∈ self.created then .ok (self, t.matched, [])
      else
        (enter (path ++ [name]) group t.matched).andThen fun (t, delivered) =>
          (entries enter path builders rest { self with created := name :: self.created } t).andThen
            fun (self, t, more) => .ok (self, t, delivered ++ more)
    else entries enter path builders rest self t
  | .factory candidates :: rest, self, t =>
    match candidates.find? fun builder => t.is builder.1 with
    | some (name, group) =>
      (enter (path ++ [name]) group t.matched).andThen fun (t, delivered) =>
        (entries enter path builders rest self t).andThen fun (self, t, more) => .ok (self, t, delivered ++ more)
    | none => entries enter path builders rest self t

def Group.apply (enter : Enter) (path : List Bytes) (self : Configurable) (t : Tokenizer) : Group → Grouped
  | .mk calls builders => entries enter path builders calls self t

/-- The loop of `enterSection` over the tokens at `thisIndent`, those further
right being skipped. -/
def section_ (enter : Enter) (path : List Bytes) (group : Group) (thisIndent : Int) :
    Nat → Configurable → Tokenizer → Outcome (Tokenizer × List Delivery)
  | 0, _, _ => .unfinished
  | fuel + 1, self, t =>
    if t._token._indent < thisIndent then .ok (t, [])
    else
      (if thisIndent < t._token._indent then .ok (self, t, []) else group.apply enter path self t).andThen
        fun (self, t, delivered) =>
          (Outcome.ofExcept t.Tokenize).andThen fun t =>
            (section_ enter path group thisIndent fuel self t).andThen fun (t, more) => .ok (t, delivered ++ more)

def enterSection : Nat → Enter
  | 0, _, _, _ => .unfinished
  | fuel + 1, path, group, t =>
    let entryIndent := t._token._indent
    (Outcome.ofExcept t.Tokenize).andThen fun t =>
      let thisIndent := t._token._indent
      (if entryIndent < thisIndent then section_ (enterSection fuel) path group thisIndent fuel {} t
        else .ok (t, [])).andThen fun (t, delivered) => .ok (t.held, delivered)

/-- `load_yaml`: the whole text is the section of the machine. -/
def load_yaml (fuel : Nat) (machine : Group) (input : Bytes) : Outcome (List Delivery) :=
  (enterSection fuel [] machine { _remainder := input }).andThen fun (_, delivered) => .ok delivered

/-- A configuration: keys with their values, and what is nested in them. -/
abbrev Config := Forest (Bytes × Bytes)

inductive Found where
  | item (name : Bytes) (convert : Bytes → Conversion)
  | section (name : Bytes) (group : Group)
  | object (name : Bytes) (group : Group)
  | single (name : Bytes) (group : Group)

/-- The first call of a group that takes a key. -/
def find (builders : List (Bytes × Group)) (key : Bytes) : List Entry → Option Found
  | [] => (builders.find? fun builder => named builder.1 key).map fun (name, group) => .single name group
  | .item name convert :: rest => if named name key then some (.item name convert) else find builders key rest
  | .section name group :: rest => if named name key then some (.section name group) else find builders key rest
  | .factory candidates :: rest =>
    match candidates.find? fun builder => named builder.1 key with
    | some (name, group) => some (.object name group)
    | none => find builders key rest

def Group.find (key : Bytes) : Group → Option Found
  | .mk calls builders => Configuration.find builders key calls

/-- What the tree asks for: every value goes to the item its key names in the
section it is nested in, in the order of the file. Where a key names nothing,
or a section that is there already, all that is nested in it is passed over. -/
def deliveries (path : List Bytes) (group : Group) (self : Configurable) : Config → List Delivery
  | .nil => []
  | .node (key, value) _ children rest =>
    match group.find key with
    | some (.item name convert) =>
      (if convert value = .accepted then [⟨path, name, value⟩] else []) ++ deliveries path group self rest
    | some (.section name inner) =>
      if name ∈ self.created then deliveries path group self rest
      else
        deliveries (path ++ [name]) inner {} children ++
          deliveries path group { self with created := name :: self.created } rest
    | some (.object name inner) =>
      deliveries (path ++ [name]) inner {} children ++ deliveries path group self rest
    | some (.single name inner) =>
      if self.inst.isSome then deliveries path group self rest
      else
        deliveries (path ++ [name]) inner {} children ++
          deliveries path group { self with inst := some (name, inner) } rest
    | none => deliveries path group self rest

end DuneWeaver.Configuration
