import MacroMarkup.Decimal.Binary64

/-! The shortest decimal that reads back as a given binary64 number, and the two
layouts in which it is written. -/
namespace MacroMarkup.Decimal

/-- A positive number `significand * 2 ^ unit` with the numbers around it: the
gap to the one below is narrow when it is half the gap to the one above. -/
structure Binary where
  significand : Nat
  unit : Int
  narrowBelow : Bool
  deriving DecidableEq, Repr, Inhabited

/-- The number that finite bits stand for, without the sign. -/
def Binary.ofBits (bits : UInt64) : Binary :=
  let magnitude := Binary64.magnitude bits
  let exponent : Nat := magnitude / twoTo 52
  let fraction : Nat := magnitude % twoTo 52
  if exponent = 0 then { significand := fraction, unit := -1074, narrowBelow := false }
  else
    { significand := twoTo 52 + fraction
      unit := (exponent : Int) - 1075
      narrowBelow := fraction = 0 && 1 < exponent }

/-- Compares `left * 10 ^ tens` with `right * 2 ^ twos`, exactly. -/
def compareScaled (left : Nat) (tens : Int) (right : Nat) (twos : Int) : Ordering :=
  compare (left * tenTo tens.toNat * twoTo (-twos).toNat)
    (right * twoTo twos.toNat * tenTo (-tens).toNat)

/-- Whether a decimal rounds to the number: it lies between the middles of the
two gaps. The middles count if the significand is even. -/
def Binary.readsBack (number : Binary) (digits : Nat) (exponent : Int) : Bool :=
  let low := if number.narrowBelow then 4 * number.significand - 1 else 4 * number.significand - 2
  let high := 4 * number.significand + 2
  let closed := number.significand % 2 = 0
  let fromLow := compareScaled digits exponent low (number.unit - 2)
  let toHigh := compareScaled digits exponent high (number.unit - 2)
  (fromLow = .gt || (closed && fromLow = .eq)) && (toHigh = .lt || (closed && toHigh = .eq))

/-- How to decide between two decimals that are equally near. -/
inductive Tie where
  | toEven
  | up
  deriving DecidableEq, Repr, Inhabited

/-- The multiple of `10 ^ exponent` that is not above the number. -/
def Binary.below (number : Binary) (exponent : Int) : Nat :=
  number.significand * twoTo number.unit.toNat * tenTo (-exponent).toNat /
    (tenTo exponent.toNat * twoTo (-number.unit).toNat)

/-- The one of two neighbouring multiples of `10 ^ exponent`, the lower of which
is given, that reads back as the number, or the nearer if both do. -/
def Binary.candidate? (number : Binary) (tie : Tie) (exponent : Int) : Option Nat :=
  let low := number.below exponent
  match number.readsBack low exponent, number.readsBack (low + 1) exponent with
  | false, false => none
  | true, false => some low
  | false, true => some (low + 1)
  | true, true =>
    match compareScaled (2 * low + 1) exponent number.significand (number.unit + 1) with
    | .gt => some low
    | .lt => some (low + 1)
    | .eq => if tie = .toEven ∧ low % 2 = 0 then some low else some (low + 1)

/-- Tries the multiples of falling powers of ten. -/
def Binary.searchFrom (number : Binary) (tie : Tie) : Nat → Int → Nat × Int
  | 0, exponent => (number.below exponent, exponent)
  | fuel + 1, exponent =>
    match number.candidate? tie exponent with
    | some digits => (digits, exponent)
    | none => searchFrom number tie fuel (exponent - 1)

/-- Takes zeros off the end of digits, which raises the power of ten. -/
def dropZeros : Nat → Nat → Int → Nat × Int
  | 0, digits, exponent => (digits, exponent)
  | fuel + 1, digits, exponent =>
    if digits ≠ 0 ∧ digits % 10 = 0 then dropZeros fuel (digits / 10) (exponent + 1)
    else (digits, exponent)

/-- The shortest decimal that reads back as the number of finite bits, the
nearest of those. A power of ten above the number is where the search starts;
seventeen digits below it one is always found. -/
def shortest (tie : Tie) (bits : UInt64) : Notation :=
  let number := Binary.ofBits bits
  let negative := Binary64.isNegative bits
  if number.significand = 0 then { negative, digits := 0, exponent := 0 }
  else
    let log : Int := (number.significand.log2 : Int) + number.unit
    let (digits, exponent) := number.searchFrom tie 20 ((log + 1) * 30103 / 100000 + 1)
    let (digits, exponent) := dropZeros 20 digits exponent
    { negative, digits, exponent }

/-- The digits of a natural number as text. -/
def digitsText (value : Nat) : List Char :=
  Nat.toDigits 10 value

/-- A number with its digits around a point, which stands after the first
`place` digits. Zeros fill the places without digits. -/
def pointed (digits : List Char) (place : Int) : List Char :=
  if place ≤ 0 then "0.".toList ++ List.replicate (-place).toNat '0' ++ digits
  else if digits.length ≤ place.toNat then
    digits ++ List.replicate (place.toNat - digits.length) '0'
  else digits.take place.toNat ++ '.' :: digits.drop place.toNat

/-- A finite number without an exponent. An integer has no point. -/
def positional (bits : UInt64) : String :=
  let number := shortest .up bits
  let digits := digitsText number.digits
  let text :=
    if number.digits = 0 then ['0'] else pointed digits (digits.length + number.exponent)
  String.ofList (if number.negative then '-' :: text else text)

/-- An exponent, always with its sign. -/
def signedExponent (exponent : Int) : List Char :=
  (if 0 ≤ exponent then '+' else '-') :: digitsText exponent.natAbs

/-- A finite number as JSON data hold it: with an exponent when the point would
stand more than sixteen places behind the first digit or more than four zeros
before it, and else with a point even if it is an integer. -/
def jsonNumber (bits : UInt64) : String :=
  let number := shortest .toEven bits
  let digits := digitsText number.digits
  let place : Int := digits.length + number.exponent
  let text :=
    if number.digits = 0 then "0.0".toList
    else if -5 < place ∧ place ≤ 16 then
      let text := pointed digits place
      if text.contains '.' then text else text ++ ".0".toList
    else
      let mantissa := if digits.length = 1 then digits else pointed digits 1
      mantissa ++ 'e' :: signedExponent (place - 1)
  String.ofList (if number.negative then '-' :: text else text)

end MacroMarkup.Decimal
