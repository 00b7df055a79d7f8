import MacroMarkup.Decimal.Shortest
import MacroMarkup.Library
import MacroMarkup.Settings.Value
import MacroMarkup.Target

/-! The settings that values describe. Where a text or a number is wanted, a
value of another kind is converted if it can be. -/
namespace MacroMarkup

/-- How to compile, and for which target. -/
structure Settings where
  options : Options
  target : Target
  deriving DecidableEq, Repr, Inhabited

/-- Why there are no settings. -/
inductive SettingsError where
  | missingFile (path : String)
  | invalidText (path : String)
  | invalidFile (reason : String)
  | invalidKey (key : String)
  | missingField (key : String)
  | unexpectedValue (expected : String)
  | unknownTarget (name : String)
  deriving DecidableEq, Repr, Inhabited

def SettingsError.message : SettingsError → String
  | missingFile path => "configuration file \"" ++ path ++ "\" not found"
  | invalidText path => "configuration file \"" ++ path ++ "\" is not UTF-8"
  | invalidFile reason => reason
  | invalidKey key => "invalid key path '" ++ key ++ "'"
  | missingField key => "missing field '" ++ key ++ "'"
  | unexpectedValue expected => "invalid value, expected " ++ expected
  | unknownTarget name => Target.unknownMessage name

namespace Settings

/-- A float as text. -/
def floatText (bits : UInt64) : String :=
  if Binary64.isNaN bits then "NaN"
  else if Binary64.isInfinite bits then (if Binary64.isNegative bits then "-inf" else "inf")
  else Decimal.positional bits

/-- A float as a natural number, rounded with a half away from zero and kept
within 64 bits. -/
def floatNatural (bits : UInt64) : Nat :=
  if Binary64.isNaN bits || Binary64.isNegative bits then 0
  else if Binary64.isInfinite bits then Decimal.twoTo 64 - 1
  else
    let number := Decimal.Binary.ofBits bits
    let den := Decimal.twoTo (-number.unit).toNat
    let num := number.significand * Decimal.twoTo number.unit.toNat
    min ((2 * num + den) / (2 * den)) (Decimal.twoTo 64 - 1)

namespace Value

def text : Value → Except SettingsError String
  | string text => .ok text
  | bool value => .ok (if value then "true" else "false")
  | int value => .ok (toString value)
  | float bits => .ok (floatText bits)
  | _ => .error (.unexpectedValue "a string")

/-- A natural number of 64 bits that digits write, with or without a plus. -/
def naturalOfText? (text : List Char) : Option Nat :=
  let digits := match text with
    | '+' :: rest => rest
    | _ => text
  (Decimal.natural? 10 digits).filter (· < Decimal.twoTo 64)

def natural : Value → Except SettingsError Nat
  | int value =>
    if 0 ≤ value then .ok value.toNat else .error (.unexpectedValue "a natural number")
  | bool value => .ok (if value then 1 else 0)
  | float bits => .ok (floatNatural bits)
  | string text =>
    let word := lowerCase text
    if ["true", "on", "yes"].contains word then .ok 1
    else if ["false", "off", "no"].contains word then .ok 0
    else match naturalOfText? text.toList with
      | some value => .ok value
      | none => .error (.unexpectedValue "a natural number")
  | _ => .error (.unexpectedValue "a natural number")

def texts : Value → Except SettingsError (List String)
  | array items => items.mapM text
  | _ => .error (.unexpectedValue "an array")

/-- A target by its name in any case, which may also be the only key of a
table. -/
def target (value : Value) : Except SettingsError Target :=
  let ofName (name : String) : Except SettingsError Target :=
    match Target.ofName? (lowerCase name) with
    | some target => .ok target
    | none => .error (.unknownTarget name)
  match value with
  | string name => ofName name
  | table [(name, _)] => ofName name
  | _ => .error (.unexpectedValue "the name of a target")

/-- A field of a record, which is a table, or an array with the fields in
order. -/
def field (key : String) (place : Nat) : Value → Except SettingsError Value
  | table entries =>
    match entries.lookup key with
    | some value => .ok value
    | none => .error (.missingField key)
  | array items =>
    match items[place]? with
    | some value => .ok value
    | none => .error (.missingField key)
  | _ => .error (.unexpectedValue "a table")

def options (value : Value) : Except SettingsError Options := do
  let includePath ← (← value.field "include_path" 0).texts
  let extensions ← (← value.field "extensions" 1).texts
  let maxDepth ← (← value.field "max_depth" 2).natural
  let preload ← (← value.field "preload" 3).texts
  return { includePath, extensions, maxDepth, preload }

end Value

/-- The settings that a value describes. Keys of no setting are passed over. -/
def ofValue (value : Value) : Except SettingsError Settings := do
  let options ← (← value.field "compile" 0).options
  let target ← (← (← value.field "output" 1).field "target" 0).target
  return { options, target }

end Settings

end MacroMarkup
