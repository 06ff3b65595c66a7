import DuneWeaver.Binary32.Value

open Ascii

namespace Binary32

/-- What follows a word, in whatever case its letters are. -/
def keyword (word text : List UInt8) : Option (List UInt8) :=
  if (text.take word.length).map tolower = word then some (text.drop word.length) else none

/-- A sign that may be left out, and what follows it. -/
def signed (text : List UInt8) : Bool × List UInt8 :=
  if text.head? = some 45 then (true, text.tail)
  else if text.head? = some 43 then (false, text.tail)
  else (false, text)

/-- The value of a hexadecimal digit. -/
def hexDigit (c : UInt8) : Option Nat :=
  if 48 ≤ c ∧ c ≤ 57 then some (c.toNat - 48)
  else if 97 ≤ tolower c ∧ tolower c ≤ 102 then some ((tolower c).toNat - 87)
  else none

def hexNumber (text : List UInt8) : Nat := text.foldl (fun n c => n * 16 + (hexDigit c).getD 0) 0

/-- Digits with at most one point between them, of which at least one is there: the digits in front of it and
    behind it, and what follows. -/
def mantissa (digit : UInt8 → Bool) (text : List UInt8) : Option (List UInt8 × List UInt8 × List UInt8) :=
  let whole := text.takeWhile digit
  let rest := text.dropWhile digit
  let frac := if rest.head? = some 46 then rest.tail.takeWhile digit else []
  if whole = [] ∧ frac = [] then none
  else if rest.head? = some 46 then some (whole, frac, rest.tail.dropWhile digit)
  else some (whole, frac, rest)

/-- An exponent behind its letter; without digits the letter is not part of the number. -/
def exponent (letter : UInt8) (text : List UInt8) : Int × List UInt8 :=
  let (neg, rest) := signed text.tail
  let power := rest.takeWhile isdigit
  if text.head?.map tolower = some letter ∧ power ≠ [] then
    (if neg then -(Decimal.number power : Int) else Decimal.number power, rest.dropWhile isdigit)
  else (0, text)

def decimal (neg : Bool) (text : List UInt8) : Option (Value × List UInt8) := do
  let (whole, frac, rest) ← mantissa isdigit text
  let (power, rest) := exponent 101 rest
  some (round neg (Decimal.number (whole ++ frac) * (10 : ℚ) ^ (power - frac.length)), rest)

def hexadecimal (neg : Bool) (text : List UInt8) : Option (Value × List UInt8) := do
  let (whole, frac, rest) ← mantissa (fun c => (hexDigit c).isSome) (← keyword [48, 120] text)
  let (power, rest) := exponent 112 rest
  some (round neg (hexNumber (whole ++ frac) * (2 : ℚ) ^ (power - 4 * frac.length)), rest)

def infinity (neg : Bool) (text : List UInt8) : Option (Value × List UInt8) :=
  let rest := keyword [105, 110, 102, 105, 110, 105, 116, 121] text <|> keyword [105, 110, 102] text
  rest.map fun rest => (.inf neg, rest)

/-- `nan`, with a word in parentheses if it is closed. -/
def notANumber (text : List UInt8) : Option (Value × List UInt8) := do
  let rest ← keyword [110, 97, 110] text
  let payload := fun c : UInt8 => (hexDigit c).isSome || (97 ≤ tolower c && tolower c ≤ 122) || c = 95
  if rest.head? = some 40 ∧ (rest.tail.dropWhile payload).head? = some 41 then
    some (.nan, (rest.tail.dropWhile payload).tail)
  else some (.nan, rest)

/-- The number in front, rounded to the nearest, and what follows it; nothing if there is none. -/
def strtof (text : List UInt8) : Option (Value × List UInt8) :=
  let (neg, text) := signed (text.dropWhile isspace)
  hexadecimal neg text <|> decimal neg text <|> infinity neg text <|> notANumber text

end Binary32
