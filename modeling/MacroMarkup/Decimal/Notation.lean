/-! Decimal numbers as they are written. -/
namespace MacroMarkup.Decimal

/-- A power of two. -/
def twoTo (exponent : Nat) : Nat :=
  Nat.pow 2 exponent

/-- A power of ten. -/
def tenTo (exponent : Nat) : Nat :=
  Nat.pow 10 exponent

/-- A number in decimal notation: its sign, its digits read as one integer, and
the power of ten that they are multiplied with. -/
structure Notation where
  negative : Bool
  digits : Nat
  exponent : Int
  deriving DecidableEq, Repr, Inhabited

/-- The value of a digit of a base up to sixteen. -/
def digit? (base : Nat) (c : Char) : Option Nat :=
  let value :=
    if '0' ≤ c ∧ c ≤ '9' then some (c.toNat - '0'.toNat)
    else if 'a' ≤ c ∧ c ≤ 'f' then some (c.toNat - 'a'.toNat + 10)
    else if 'A' ≤ c ∧ c ≤ 'F' then some (c.toNat - 'A'.toNat + 10)
    else none
  value.filter (· < base)

def isDigit (c : Char) : Bool :=
  (digit? 10 c).isSome

/-- The integer that digits of a base denote. There has to be one digit. -/
def natural? (base : Nat) : List Char → Option Nat
  | [] => none
  | text => text.foldlM (fun value c => (digit? base c).map (base * value + ·)) 0

/-- A sign, if there is one, and what follows it. -/
def splitSign : List Char → Bool × List Char
  | '-' :: rest => (true, rest)
  | '+' :: rest => (false, rest)
  | text => (false, text)

/-- The exponent that ends a number, zero if the text is empty. -/
def exponent? : List Char → Option Int
  | [] => some 0
  | c :: rest =>
    if c = 'e' ∨ c = 'E' then
      let (negative, rest) := splitSign rest
      (natural? 10 rest).map fun value => if negative then -(value : Int) else value
    else none

/-- Reads digits with an optional sign, fraction and exponent. A digit has to
stand before or after the point. -/
def Notation.read? (text : List Char) : Option Notation := do
  let (negative, text) := splitSign text
  let (whole, text) := text.span isDigit
  let (fraction, text) := match text with
    | '.' :: rest => rest.span isDigit
    | _ => ([], text)
  let digits ← natural? 10 (whole ++ fraction)
  let exponent ← exponent? text
  return { negative, digits, exponent := exponent - fraction.length }

end MacroMarkup.Decimal
