import MacroMarkup.Toml.Document

/-! Values of settings, and where in them a key leads. -/
namespace MacroMarkup.Settings

/-- A value of a setting. There is none yet under a key that was only passed
through. -/
inductive Value where
  | nil
  | bool (value : Bool)
  | int (value : Int)
  | float (bits : UInt64)
  | string (text : String)
  | array (items : List Value)
  | table (entries : List (String × Value))
  deriving Repr, Inhabited

/-- A key with its ASCII letters in lower case, which is how settings hold it. -/
def lowerCase (key : String) : String :=
  String.ofList (key.toList.map Char.toLower)

mutual

/-- The value of a file, with all keys in lower case. -/
def Value.ofToml : Toml.Value → Value
  | .string text => .string text
  | .int value => .int value
  | .float bits => .float bits
  | .bool value => .bool value
  | .time text => .string text
  | .array items => .array (Value.ofTomlItems items)
  | .table entries => .table (Value.ofTomlEntries entries)

def Value.ofTomlItems : List Toml.Value → List Value
  | [] => []
  | item :: rest => Value.ofToml item :: Value.ofTomlItems rest

def Value.ofTomlEntries : List (String × Toml.Value) → List (String × Value)
  | [] => []
  | (key, value) :: rest => (lowerCase key, Value.ofToml value) :: Value.ofTomlEntries rest

end

namespace Value

/-- The entries of a table; any other value has none. -/
def entries : Value → List (String × Value)
  | table entries => entries
  | _ => []

/-- The items of an array; any other value has none. -/
def items : Value → List Value
  | array items => items
  | _ => []

/-- Binds a key in entries, in place if it is there. -/
def bind (key : String) (value : Value) (entries : List (String × Value)) :
    List (String × Value) :=
  if (entries.lookup key).isSome then
    entries.map fun (other, held) => if other = key then (other, value) else (other, held)
  else entries ++ [(key, value)]

mutual

/-- Sets a key of a value, which becomes a table if it is none. A table is
merged into the one that is there, key by key; any other value replaces it. -/
def put (key : String) : Value → Value → Value
  | table incoming, parent =>
    let target := (parent.entries.lookup key).getD (table [])
    table (bind key (putAll incoming target) parent.entries)
  | value, parent => table (bind key value parent.entries)

def putAll : List (String × Value) → Value → Value
  | [], target => target
  | (key, value) :: rest, target => putAll rest (put key value target)

end

/-- Items that have the place which an index names, and that place. A negative
index counts from the end. Where places are lacking, they are added behind or
before the items, and there is nothing in them yet. -/
def reach (index : Int) (items : List Value) : List Value × Nat :=
  if 0 ≤ index then
    (items ++ List.replicate (index.toNat + 1 - items.length) nil, index.toNat)
  else
    (List.replicate (index.natAbs - items.length) nil ++ items, items.length - index.natAbs)

end Value

/-- A step of a key path: to an entry of a table, or to an item of an array. -/
inductive Step where
  | entry (key : String)
  | item (index : Int)
  deriving DecidableEq, Repr, Inhabited

namespace Value

/-- Sets what a path leads to. Values on the way become the tables and arrays
that the path needs. -/
def setAt : List Step → Value → Value → Value
  | [], value, _ => value
  | [.entry key], value, parent => put key value parent
  | .entry key :: path, value, parent =>
    let held := (parent.entries.lookup key).getD nil
    table (bind key (setAt path value held) parent.entries)
  | .item index :: path, value, parent =>
    let (items, place) := reach index parent.items
    array (items.set place (setAt path value (items.getD place nil)))

end Value

/-- Characters of the names in a key path. -/
def isKeyChar (c : Char) : Bool :=
  c.isAlphanum || c = '_' || c = '-' || c = ' '

/-- The name that a key path starts with, as settings hold it, and what follows
it. -/
def takeName? (text : List Char) : Option (String × List Char) :=
  let (name, rest) := text.span isKeyChar
  if name.isEmpty then none else some (lowerCase (String.ofList name), rest)

/-- The index that brackets hold, which blanks may surround. It has 64 bits. -/
def index? (text : List Char) : Option Int :=
  let isBlank (c : Char) : Bool := c = ' ' || c = '\t'
  let text := ((text.dropWhile isBlank).reverse.dropWhile isBlank).reverse
  let index : Option Int := match text with
    | '-' :: digits => (Decimal.natural? 10 digits).map fun value => -(value : Int)
    | digits => (Decimal.natural? 10 digits).map fun value => (value : Int)
  index.filter fun value => -(Decimal.twoTo 63 : Int) ≤ value ∧ value < Decimal.twoTo 63

/-- The steps behind the first name of a key path. -/
def steps? : Nat → List Char → Option (List Step)
  | _, [] => some []
  | 0, _ => none
  | fuel + 1, '.' :: rest => do
    let (name, rest) ← takeName? rest
    (steps? fuel rest).map (.entry name :: ·)
  | fuel + 1, '[' :: rest =>
    match rest.span (· ≠ ']') with
    | (index, ']' :: rest) => do
      let index ← index? index
      (steps? fuel rest).map (.item index :: ·)
    | _ => none
  | _, _ => none

/-- Reads a key path, such as `output.target` or `compile.preload[0]`. Letters
may be in any case. -/
def keyPath? (text : String) : Option (List Step) := do
  let (name, rest) ← takeName? text.toList
  (steps? rest.length rest).map (.entry name :: ·)

end MacroMarkup.Settings
