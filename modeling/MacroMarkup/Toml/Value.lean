/-! Values of TOML documents, and the tables they are collected in. -/
namespace MacroMarkup.Toml

/-- A value. A float is kept as the bits of its binary64 form, and a date or
time as its text. -/
inductive Value where
  | string (text : String)
  | int (value : Int)
  | float (bits : UInt64)
  | bool (value : Bool)
  | time (text : String)
  | array (items : List Value)
  | table (entries : List (String × Value))
  deriving Repr, Inhabited

/-- How a table came to be: by a header of its own, because a longer header goes
through it, or because a dotted key does. -/
inductive Origin where
  | header
  | longerHeader
  | dottedKey
  deriving DecidableEq, Repr, Inhabited

/-- What a document has under a key while it is read. Tables of an array are
held with the latest first. -/
inductive Item where
  | leaf (value : Value)
  | table (origin : Origin) (entries : List (String × Item))
  | tables (items : List (List (String × Item)))
  deriving Repr, Inhabited

abbrev Entries := List (String × Item)

namespace Entries

/-- Replaces what a key has. -/
def replace (key : String) (item : Item) (entries : Entries) : Entries :=
  entries.map fun (other, held) => if other = key then (other, item) else (other, held)

/-- Changes the table that a path leads to. Tables that the path lacks are
made. Of an array of tables it takes the latest. A dotted key does not go
through a table with a header of its own. -/
def descend (dotted : Bool) (change : Origin → Entries → Except String Entries) :
    List String → Origin → Entries → Except String Entries
  | [], origin, entries => change origin entries
  | key :: path, _, entries =>
    match entries.lookup key with
    | none => do
      let origin := if dotted then Origin.dottedKey else .longerHeader
      return entries ++ [(key, .table origin (← descend dotted change path origin []))]
    | some (.leaf _) => .error "dotted key attempted to extend a value"
    | some (.tables []) => .error "duplicate key"
    | some (.tables (last :: others)) => do
      let last ← descend dotted change path .header last
      return replace key (.tables (last :: others)) entries
    | some (.table origin inner) =>
      if dotted && origin = .header then .error "duplicate key"
      else do
        let inner ← descend dotted change path origin inner
        return replace key (.table origin inner) entries

/-- Binds a dotted key, which must be free. Only tables that dotted keys made
can be extended by a dotted key. -/
def bind (path : List String) (key : String) (value : Value) (entries : Entries) :
    Except String Entries :=
  descend true
    (fun origin inner =>
      if !path.isEmpty && origin ≠ .dottedKey then .error "duplicate key"
      else if (inner.lookup key).isSome then .error "duplicate key"
      else .ok (inner ++ [(key, .leaf value)]))
    path .header entries

end Entries

mutual

/-- The value that an item is when its document has been read. -/
def Item.toValue : Item → Value
  | .leaf value => value
  | .table _ entries => .table (Item.entryValues entries)
  | .tables items => .array (Item.tableValues items).reverse

def Item.entryValues : List (String × Item) → List (String × Value)
  | [] => []
  | (key, item) :: rest => (key, item.toValue) :: Item.entryValues rest

def Item.tableValues : List (List (String × Item)) → List Value
  | [] => []
  | entries :: rest => .table (Item.entryValues entries) :: Item.tableValues rest

end

end MacroMarkup.Toml
