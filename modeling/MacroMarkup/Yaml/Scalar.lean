import MacroMarkup.Decimal.Binary64
import MacroMarkup.Yaml.Tag
import MacroMarkup.Yaml.Value

/-! What a scalar stands for. -/
namespace MacroMarkup.Yaml

/-- Digits with a sign or a leading zero that make a text and not a number. -/
def isPaddedDigits (text : List Char) : Bool :=
  let digits := match text with
    | '-' :: rest => rest
    | '+' :: rest => rest
    | _ => text
  1 < digits.length && digits.head? = some '0' && digits.all Decimal.isDigit

/-- The bases that are marked by a zero and a letter. -/
def markedBase? : Char → Option Nat
  | 'x' => some 16
  | 'o' => some 8
  | 'b' => some 2
  | _ => none

/-- An integer in a marked base. -/
def markedNatural? : List Char → Option Nat
  | '0' :: mark :: digits => (markedBase? mark).bind (Decimal.natural? · digits)
  | _ => none

/-- The integer that a plain scalar writes. -/
def integer? (text : List Char) : Option Int :=
  let ofSigned (negative : Bool) (digits : List Char) : Option Int :=
    let natural := (markedNatural? digits).or
      (if isPaddedDigits text then none else Decimal.natural? 10 digits)
    natural.map fun value => if negative then -(value : Int) else value
  match text with
  | '-' :: digits => ofSigned true digits
  | '+' :: digits => ofSigned false digits
  | _ => ofSigned false text

/-- How wide an integer is: values hold 64 bits, an integer of up to 128 bits is
refused, and a wider one is no integer. -/
inductive Width where
  | fits
  | refused
  | beyond
  deriving DecidableEq, Repr, Inhabited

def widthOf (value : Int) : Width :=
  if -(Decimal.twoTo 63 : Int) ≤ value ∧ value < Decimal.twoTo 64 then .fits
  else if -(Decimal.twoTo 127 : Int) ≤ value ∧ value < Decimal.twoTo 128 then .refused
  else .beyond

def infinities : List String := [".inf", ".Inf", ".INF"]
def nans : List String := [".nan", ".NaN", ".NAN"]

/-- The float that a plain scalar writes. A decimal too great for the format is
none. -/
def float? (text : List Char) : Option UInt64 :=
  let signed (negative : Bool) (digits : List Char) : Option UInt64 :=
    if infinities.contains (String.ofList digits) then
      some (if negative then Binary64.negativeInfinity else Binary64.infinity)
    else
      let number := match digits with
        | '-' :: _ => none
        | '+' :: _ => none
        | _ => Decimal.Notation.read? digits
      (number.map fun number => Binary64.ofDecimal { number with negative }).filter
        Binary64.isFinite
  if nans.contains (String.ofList text) then some Binary64.nan
  else match text with
    | '-' :: digits => signed true digits
    | '+' :: digits => signed false digits
    | _ => signed false text

def bool? (text : String) : Option Bool :=
  if ["true", "True", "TRUE"].contains text then some true
  else if ["false", "False", "FALSE"].contains text then some false
  else none

def isNull (text : String) : Bool :=
  ["null", "Null", "NULL", "~"].contains text

/-- An integer as a value, `none` if it is too wide to be one. -/
def ofInteger? (value : Int) : Except String (Option Value) :=
  match widthOf value with
  | .fits => .ok (some (.int value))
  | .refused => .error "integer out of range"
  | .beyond => .ok none

/-- What a plain scalar stands for by its text alone. -/
def plainValue (text : String) : Except String Value := do
  if text.isEmpty || isNull text then return .null
  if let some value := bool? text then return .bool value
  if let some value := integer? text.toList then
    if let some value ← ofInteger? value then return value
  if !isPaddedDigits text.toList then
    if let some bits := float? text.toList then return .float bits
  return .string text

/-- What a scalar stands for. A tag of the core kinds has to fit the text, and a
foreign one makes it a string. Without either only a plain scalar is no string. -/
def scalarValue (tag : Option Tag) (text : String) (plain : Bool) : Except String Value :=
  let orError (expected : String) (value : Option Value) : Except String Value :=
    match value with
    | some value => .ok value
    | none => .error ("invalid value, expected " ++ expected)
  match tag with
  | some .bool => orError "a boolean" ((bool? text).map .bool)
  | some .int => do
    match integer? text.toList with
    | some value => orError "an integer" (← ofInteger? value)
    | none => orError "an integer" none
  | some .float => orError "a float" ((float? text.toList).map .float)
  | some .null => orError "null" (if isNull text then some .null else none)
  | some .foreign => .ok (.string text)
  | _ => if plain then plainValue text else .ok (.string text)

end MacroMarkup.Yaml
