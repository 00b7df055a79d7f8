import MacroMarkup.Decimal.Binary64
import MacroMarkup.Toml.Text
import MacroMarkup.Toml.Value

/-! Numbers, dates and times of TOML. -/
namespace MacroMarkup.Toml

/-- Digits of a base with single underscores between them, without those. -/
def digits? (base : Nat) (text : List Char) : Option (List Char) :=
  let isDigit (c : Char) : Bool := (Decimal.digit? base c).isSome
  let rec read : List Char → Option (List Char)
    | [] => none
    | [c] => if isDigit c then some [c] else none
    | c :: '_' :: rest => if isDigit c then (read rest).map (c :: ·) else none
    | c :: rest => if isDigit c then (read rest).map (c :: ·) else none
  read text

/-- Digits of an integer part, which has no zero before others. -/
def wholeDigits? (text : List Char) : Option (List Char) :=
  (digits? 10 text).filter fun digits => digits.length = 1 || digits.head? ≠ some '0'

/-- An integer that values can hold. -/
def inRange (value : Int) : Except String Value :=
  if -(Decimal.twoTo 63 : Int) ≤ value ∧ value < Decimal.twoTo 63 then .ok (.int value)
  else .error "number too large to fit in target type"

/-- An integer in decimal, or without a sign in a marked base. -/
def integer? (text : List Char) : Option Int :=
  let marked (base : Nat) (digits : List Char) : Option Int :=
    ((digits? base digits).bind (Decimal.natural? base)).map fun value => (value : Int)
  match text with
  | '0' :: 'x' :: digits => marked 16 digits
  | '0' :: 'o' :: digits => marked 8 digits
  | '0' :: 'b' :: digits => marked 2 digits
  | _ =>
    let (negative, digits) := Decimal.splitSign text
    ((wholeDigits? digits).bind (Decimal.natural? 10)).map fun value =>
      if negative then -(value : Int) else value

/-- The digits of a fraction behind its point, and what follows them. -/
def splitFraction? : List Char → Option (List Char × List Char)
  | '.' :: rest =>
    let (fraction, rest) := rest.span fun c => Decimal.isDigit c || c = '_'
    (digits? 10 fraction).map (·, rest)
  | text => some ([], text)

/-- The exponent that ends a number. -/
def exponent? : List Char → Option Int
  | [] => some 0
  | c :: rest =>
    if c = 'e' ∨ c = 'E' then
      let (negative, digits) := Decimal.splitSign rest
      ((digits? 10 digits).bind (Decimal.natural? 10)).map fun value =>
        if negative then -(value : Int) else value
    else none

/-- A decimal with a fraction, an exponent, or both. -/
def decimal? (text : List Char) : Option Decimal.Notation := do
  let (negative, text) := Decimal.splitSign text
  let (whole, text) := text.span fun c => Decimal.isDigit c || c = '_'
  if text.isEmpty then none
  let whole ← wholeDigits? whole
  let (fraction, text) ← splitFraction? text
  let exponent ← exponent? text
  let digits ← Decimal.natural? 10 (whole ++ fraction)
  return { negative, digits, exponent := exponent - fraction.length }

/-- The float that a text writes. A decimal above the range is refused. -/
def float? (text : List Char) : Option (Except String Value) :=
  let (negative, name) := Decimal.splitSign text
  if name = "inf".toList then
    some (.ok (.float (if negative then Binary64.negativeInfinity else Binary64.infinity)))
  else if name = "nan".toList then some (.ok (.float Binary64.nan))
  else (decimal? text).map fun number =>
    let bits := Binary64.ofDecimal number
    if bits = Binary64.infinity then .error "invalid floating-point number" else .ok (.float bits)

/-- A number of exactly `count` digits within bounds, and what follows it. -/
def fixed? (count least most : Nat) (text : List Char) : Option (Nat × List Char) := do
  let digits := text.take count
  let value ← Decimal.natural? 10 digits
  if digits.length = count ∧ least ≤ value ∧ value ≤ most then some (value, text.drop count)
  else none

/-- What follows a character that a text starts with. -/
def after? (c : Char) : List Char → Option (List Char)
  | first :: rest => if first = c then some rest else none
  | [] => none

/-- A number with zeros before it to the given count of digits. -/
def padded (count value : Nat) : List Char :=
  let digits := Nat.toDigits 10 value
  List.replicate (count - digits.length) '0' ++ digits

def daysInMonth (year month : Nat) : Nat :=
  let leap := (year % 4 = 0 && year % 100 ≠ 0) || year % 400 = 0
  if month = 2 then (if leap then 29 else 28)
  else if [4, 6, 9, 11].contains month then 30
  else 31

/-- A date: its text, and what follows it. -/
def date? (text : List Char) : Option (List Char × List Char) := do
  let (year, text) ← fixed? 4 0 9999 text
  let text ← after? '-' text
  let (month, text) ← fixed? 2 1 12 text
  let text ← after? '-' text
  let (day, text) ← fixed? 2 1 (daysInMonth year month) text
  return (padded 4 year ++ '-' :: padded 2 month ++ '-' :: padded 2 day, text)

/-- The digits behind the second that are kept: nine, less final zeros. -/
def fraction (digits : List Char) : List Char :=
  let kept := (((digits.take 9).reverse.dropWhile (· = '0'))).reverse
  if kept.isEmpty then [] else '.' :: kept

/-- How far clocks go: the last hour of a day, and the hours and minutes that an
offset may have. -/
structure ClockRange where
  lastHour : Nat
  isOffset (hour minute : Nat) : Bool

/-- The range of times that are written as values. -/
def ClockRange.ofValues : ClockRange :=
  { lastHour := 23, isOffset := fun hour minute => hour ≤ 23 && minute ≤ 59 }

/-- The range of times that are written in strings: midnight may end a day, and
an offset is a day at most. -/
def ClockRange.ofStrings : ClockRange :=
  { lastHour := 24, isOffset := fun hour minute => 60 * hour + minute ≤ 24 * 60 }

/-- A time of day: its text, and what follows it. -/
def timeOfDay? (range : ClockRange) (text : List Char) : Option (List Char × List Char) := do
  let (hour, text) ← fixed? 2 0 range.lastHour text
  let text ← after? ':' text
  let (minute, text) ← fixed? 2 0 59 text
  let text ← after? ':' text
  let (second, text) ← fixed? 2 0 60 text
  let (digits, text) := match text with
    | '.' :: c :: rest => if Decimal.isDigit c then (c :: rest).span Decimal.isDigit else ([], text)
    | _ => ([], text)
  let clock := padded 2 hour ++ ':' :: padded 2 minute ++ ':' :: padded 2 second
  return (clock ++ fraction digits, text)

/-- The offset behind a time, if there is one: its text, and what follows it. -/
def offset? (range : ClockRange) : List Char → Option (List Char × List Char)
  | 'Z' :: rest => some (['Z'], rest)
  | 'z' :: rest => some (['Z'], rest)
  | sign :: rest =>
    if sign = '+' ∨ sign = '-' then do
      let (hour, rest) ← fixed? 2 0 99 rest
      let rest ← after? ':' rest
      let (minute, rest) ← fixed? 2 0 99 rest
      if !range.isOffset hour minute then none
      let minutes := 60 * hour + minute
      let sign := if minutes = 0 then '+' else sign
      some (sign :: padded 2 (minutes / 60) ++ ':' :: padded 2 (minutes % 60), rest)
    else some ([], sign :: rest)
  | [] => some ([], [])

/-- A date, a time, or both with an optional offset: the text, and what follows
it. A space may stand between date and time. -/
def time? (range : ClockRange) (text : List Char) : Option (List Char × List Char) :=
  match date? text with
  | none => timeOfDay? range text
  | some (date, rest) =>
    let behind := match rest with
      | c :: rest => if c = 'T' ∨ c = 't' ∨ c = ' ' then timeOfDay? range rest else none
      | [] => none
    match behind with
    | none => some (date, rest)
    | some (time, rest) =>
      (offset? range rest).map fun (offset, rest) => (date ++ 'T' :: time ++ offset, rest)

/-- Characters of numbers. -/
def isNumberChar (c : Char) : Bool :=
  c.isAlphanum || c = '_' || c = '+' || c = '-' || c = '.'

/-- A date, a time, or a number. -/
def Read.number : Read Value := do
  match time? .ofValues (← get) with
  | some (time, rest) =>
    set rest
    return .time (String.ofList time)
  | none =>
    let text ← Read.takeWhile isNumberChar
    match float? text, integer? text with
    | some float, _ => float
    | none, some value => inRange value
    | none, none => throw "invalid number"

end MacroMarkup.Toml
