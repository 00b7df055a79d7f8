import MacroMarkup.Toml.Number

/-! Dates and times that are given as tables: such a table starts with a key
that is kept for this, and holds the date or time as a string. -/
namespace MacroMarkup.Toml

/-- The key that marks a table as a date or time if it is the first one. -/
def timeMark : String :=
  "$__toml_private_datetime"

/-- The date or time that a whole string writes. -/
def timeOfString? (text : String) : Option String :=
  match time? .ofStrings text.toList with
  | some (time, []) => some (String.ofList time)
  | _ => none

/-- The date or time of a table whose first key marks it as one. -/
def markedTime : Value → Except String Value
  | .string text =>
    match timeOfString? text with
    | some time => .ok (.time time)
    | none => .error "failed to parse datetime"
  | _ => .error "invalid type, expected string containing a datetime"

mutual

/-- A value with marked tables replaced by the dates and times that they hold.
What else is in a marked table is not looked at. -/
def Value.readTimes : Value → Except String Value
  | .array items => return .array (← Value.readItemTimes items)
  | .table [] => return .table []
  | .table ((key, held) :: rest) =>
    if key = timeMark then markedTime held
    else return .table ((key, ← held.readTimes) :: (← Value.readEntryTimes rest))
  | value => return value

def Value.readItemTimes : List Value → Except String (List Value)
  | [] => return []
  | item :: rest => return (← item.readTimes) :: (← Value.readItemTimes rest)

def Value.readEntryTimes : List (String × Value) → Except String (List (String × Value))
  | [] => return []
  | (key, held) :: rest => return (key, ← held.readTimes) :: (← Value.readEntryTimes rest)

end

end MacroMarkup.Toml
