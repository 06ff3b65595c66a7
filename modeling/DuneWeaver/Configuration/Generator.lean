import DuneWeaver.Configuration.ParserHandler
import DuneWeaver.Settings.Setting
import Mathlib.Algebra.Group.Nat.Defs

open Outline

namespace DuneWeaver.Configuration

def equal_ignore_case (a b : Bytes) : Bool := a.map tolower = b.map tolower

/-- The name of a section, an item or a value of an enumeration. -/
abbrev Name := { name : Bytes // name ≠ [] ∧ ∀ c ∈ name, isIdentifierChar c }

/-- The names of an enumeration with their values, and the value for any other. No
two names are the same up to case. -/
structure EnumItems where
  items : List (Name × Int32)
  defaultValue : Int32
  apart : items.Pairwise fun a b => equal_ignore_case a.1.1 b.1.1 = false

/-- An item of the configuration with what its handler is told of it, and its value: a
number within its bounds, a value the enumeration has, a string of one line. -/
inductive Item where
  | int32 (minValue maxValue : Int32) (value : { v : Int32 // minValue ≤ v ∧ v ≤ maxValue })
  | uint32 (minValue maxValue : UInt32) (value : { v : UInt32 // minValue ≤ v ∧ v ≤ maxValue })
  | bool (value : Bool)
  | enum (e : EnumItems) (value : { v : Int32 // v ∈ e.items.map Prod.snd })
  | string (value : { s : Bytes // 0x0a ∉ s ∧ 0x0d ∉ s })

/-- The value of an item. -/
inductive ItemValue where
  | int32 (value : Int32)
  | uint32 (value : UInt32)
  | bool (value : Bool)
  | enum (value : Int32)
  | string (value : Bytes)
  deriving DecidableEq

def Item.value : Item → ItemValue
  | int32 _ _ value => .int32 value
  | uint32 _ _ value => .uint32 value
  | bool value => .bool value
  | enum _ value => .enum value
  | string value => .string value

/-- `std::to_string`. -/
def to_string (value : Int) : Bytes := if value < 0 then 0x2d :: digits value.natAbs else digits value.natAbs

/-- What the generator hands to `send_item` for an item. -/
def Item.text : Item → Bytes
  | int32 _ _ value => to_string value.1.toInt
  | uint32 _ _ value => to_string value.1.toNat
  | bool value => if value then bytes "true" else bytes "false"
  | enum e value => ((e.items.find? fun item => item.2 = value.1).map fun item => item.1.1).getD (bytes "unknown")
  | string value => value

/-- What the generator has sent, line by line. -/
structure Generator where
  indent_ : Nat := 0
  lastIsNewline_ : Bool := false
  dst_ : List Bytes := []

/-- A value as it is printed. -/
def shown (value : Bytes) : Bytes := if 0x3a ∉ value then c_str value else 0x27 :: (c_str value ++ [0x27])

namespace Generator

def send_item (name value : Bytes) (g : Generator) : Generator :=
  { g with
    lastIsNewline_ := false
    dst_ := g.dst_ ++ [List.replicate (g.indent_ * 2) 0x20 ++ name ++ bytes ": " ++ shown value] }

def enter (name : Bytes) (g : Generator) : Generator :=
  let g := g.send_item name []
  { g with indent_ := g.indent_ + 1 }

def leave (g : Generator) : Generator :=
  let g := if ¬ g.lastIsNewline_ then { g with dst_ := g.dst_ ++ [[]], lastIsNewline_ := true } else g
  { g with indent_ := g.indent_ - 1 }

/-- The text sent, each line with the end `println` gives it. -/
def text (g : Generator) : Bytes := g.dst_.flatMap fun line => line ++ bytes "\r\n"

end Generator

/-- What the `group` functions of a configuration call: items, sections that are there, and
sections whose pointer is null. -/
inductive Tree where
  | nil
  | item (name : Name) (item : Item) (rest : Tree)
  | section (name : Name) (children : Tree) (rest : Tree)
  | absent (name : Name) (group : Group) (rest : Tree)

namespace Tree

/-- `group` called with the generator. -/
def dump : Tree → Generator → Generator
  | nil, g => g
  | item name it rest, g => rest.dump (g.send_item name it.text)
  | «section» name children rest, g => rest.dump (children.dump (g.enter name)).leave
  | absent _ _ rest, g => rest.dump g

/-- The names called for, beside each other. -/
def names : Tree → List Name
  | nil => []
  | item name _ rest => name :: rest.names
  | «section» name _ rest => name :: rest.names
  | absent name _ rest => name :: rest.names

/-- No two names beside each other are the same up to case. -/
def Apart : Tree → Prop
  | nil => True
  | item name _ rest => (∀ other ∈ rest.names, equal_ignore_case name.1 other.1 = false) ∧ rest.Apart
  | «section» name children rest =>
    (∀ other ∈ rest.names, equal_ignore_case name.1 other.1 = false) ∧ children.Apart ∧ rest.Apart
  | absent name _ rest => (∀ other ∈ rest.names, equal_ignore_case name.1 other.1 = false) ∧ rest.Apart

end Tree

/-- A number at the front of a text, and what is behind it: white space, a sign and
digits. Without digits nothing is read. -/
def strto (s : Bytes) : Int × Bytes :=
  let body := s.dropWhile isspace
  let unsigned := if body.head? = some 0x2d ∨ body.head? = some 0x2b then body.tail else body
  let magnitude : Int := (unsigned.takeWhile isdigit).foldl (fun n c => 10 * n + (c.toNat - 48)) 0
  if unsigned.takeWhile isdigit = [] then (0, s)
  else (if body.head? = some 0x2d then -magnitude else magnitude, unsigned.dropWhile isdigit)

/-- `strtol` stays within a long. -/
def strtol (s : Bytes) : Int32 × Bytes :=
  ((strto s).1 |> max Int32.minValue.toInt |> min Int32.maxValue.toInt |> Int32.ofInt, (strto s).2)

/-- `strtoul` takes a sign too, and is the greatest number where it does not fit. -/
def strtoul (s : Bytes) : UInt32 × Bytes :=
  (if (strto s).1.natAbs < 2 ^ 32 then UInt32.ofInt (strto s).1 else 0xffffffff, (strto s).2)

def is_int (s : Bytes) : Option Int32 := if (strtol s).2 = [] then some (strtol s).1 else none

def is_uint (s : Bytes) : Option UInt32 := if (strtoul s).2 = [] then some (strtoul s).1 else none

section Parser

-- what `lroundf` makes of the float that a text is
variable (is_float : Bytes → Option Int)

def intValue (_value : Bytes) : Except Bytes Int32 :=
  match is_int (trim _value) with
  | some int_value => .ok int_value
  | none =>
    match is_float (trim _value) with
    | some float_value => .ok (.ofInt float_value)
    | none => .error (bytes "Expected an integer value")

def uintValue (_value : Bytes) : Except Bytes UInt32 :=
  match is_uint (trim _value) with
  | some uint_value => .ok uint_value
  | none =>
    match is_float (trim _value) with
    | some float_value => .ok (.ofInt float_value)
    | none => .error (bytes "Expected an integer value")

def boolValue (_value : Bytes) : Bool := equal_ignore_case (trim _value) (bytes "true")

def enumValue (e : EnumItems) (_value : Bytes) : Int32 :=
  ((e.items.find? fun item => equal_ignore_case (trim _value) item.1).map Prod.snd).getD e.defaultValue

/-- What the handler sets an item to for the value of its token. -/
def Item.parse (_value : Bytes) : Item → Except Bytes ItemValue
  | int32 minValue maxValue _ => do
    let value ← intValue is_float _value
    return .int32 (if value < minValue then minValue else if value > maxValue then maxValue else value)
  | uint32 minValue maxValue _ => do
    let value ← uintValue is_float _value
    return .uint32 (if value < minValue then minValue else if value > maxValue then maxValue else value)
  | bool _ => return .bool (boolValue _value)
  | enum e _ => return .enum (enumValue e _value)
  | string _ => return .string _value

def Item.convert (item : Item) (_value : Bytes) : Conversion :=
  match item.parse is_float _value with
  | .ok _ => .accepted
  | .error description => .exception description

/-- `group` called with the parser's handler. -/
def Tree.entries : Tree → List Entry
  | .nil => []
  | .item name it rest => .item name (it.convert is_float) :: rest.entries
  | .section name children rest => .section name (.mk children.entries []) :: rest.entries
  | .absent name group rest => .section name group :: rest.entries

def Tree.group (tree : Tree) : Group := .mk (tree.entries is_float) []

end Parser

/-- A configuration in which every name finds what it names. -/
structure Machine where
  tree : Tree
  apart : tree.Apart

/-- An item where it stands. -/
structure Visit where
  path : List Bytes
  name : Bytes
  item : Item

def Tree.visits (path : List Bytes) : Tree → List Visit
  | nil => []
  | item name it rest => ⟨path, name, it⟩ :: rest.visits path
  | «section» name children rest => children.visits (path ++ [name.1]) ++ rest.visits path
  | absent _ _ rest => rest.visits path

namespace Machine

variable (is_float : Bytes → Option Int)

/-- `$CD`: the configuration as text. -/
def dump (m : Machine) : Bytes := (m.tree.dump {}).text

/-- The delivery gives the item the value it has. -/
structure Restores (delivered : Delivery) (visit : Visit) : Prop where
  path : delivered.path = visit.path
  name : delivered.name = visit.name
  value : visit.item.parse is_float delivered.value = .ok visit.item.value

/-- Loading the dump gives every item its value, one after the other, and visits nothing
else. -/
def RoundTrips (m : Machine) : Prop :=
  ∃ delivered, load_yaml (m.dump.length + 2) (m.tree.group is_float) m.dump = .ok delivered ∧
    List.Forall₂ (Restores is_float) delivered (m.tree.visits [])

end Machine

/-- The string is read as it is printed: it has no NUL; between quotes it has none of its
own, and without them it begins neither with a blank nor with a quote. -/
def Plain (value : Bytes) : Prop :=
  0x00 ∉ value ∧
    if 0x3a ∈ value then 0x27 ∉ value
    else ∀ c ∈ value.head?, isWhiteSpace c = false ∧ c ≠ 0x22 ∧ c ≠ 0x27

/-- The item is no string, or a plain one. -/
def Item.Plain : Item → Prop
  | string value => Configuration.Plain value.1
  | _ => True

end DuneWeaver.Configuration
