import MacroMarkup.Toml.MarkedTime

/-! TOML documents: headers, keys and their values. -/
namespace MacroMarkup.Toml

/-- How deep values and keys may be nested. -/
def depthLimit : Nat := 79

namespace Read

mutual

/-- A value with up to `depth` arrays and inline tables in it. -/
def value : Nat → Nat → Read Value
  | 0, _ => throw "invalid value"
  | fuel + 1, depth => do
    if let some text ← string? fuel then return .string text
    match ← peek with
    | some '[' =>
      modify (·.drop 1)
      if depth = 0 then throw "recursion limit exceeded"
      return .array (← arrayItems fuel (depth - 1) [])
    | some '\x7b' =>
      modify (·.drop 1)
      if depth = 0 then throw "recursion limit exceeded"
      skipBlanks
      if ← takeIf ['\x7d'] then return .table []
      return .table (Item.entryValues (← inlineEntries fuel (depth - 1) []))
    | _ =>
      if ← takeIf "true".toList then return .bool true
      else if ← takeIf "false".toList then return .bool false
      else number

/-- The items of an array, after those read before. A comma may follow the
last. -/
def arrayItems : Nat → Nat → List Value → Read (List Value)
  | 0, _, _ => throw "invalid array"
  | fuel + 1, depth, items => do
    skipLines ((← get).length + 1)
    if ← takeIf [']'] then return items.reverse
    let item ← value fuel depth
    skipLines ((← get).length + 1)
    if ← takeIf [','] then arrayItems fuel depth (item :: items)
    else
      expect [']']
      return (item :: items).reverse

/-- The entries of an inline table, which stands in one line. -/
def inlineEntries : Nat → Nat → Entries → Read Entries
  | 0, _, _ => throw "invalid inline table"
  | fuel + 1, depth, entries => do
    let (path, name) ← key depthLimit
    expect ['=']
    skipBlanks
    let held ← value fuel depth
    let entries ← (entries.bind path name held : Except String Entries)
    skipBlanks
    if ← takeIf [','] then inlineEntries fuel depth entries
    else
      expect ['\x7d']
      return entries

end

end Read

/-- The section that entries go to: the table of a header, or a new one of an
array of tables. -/
structure Section where
  path : List String
  name : String
  inArray : Bool
  deriving Repr, Inhabited

/-- A document as far as it is read. The entries of the current section are
added to the root when the section ends. -/
structure Reading where
  root : Entries := []
  current : Option Section := none
  entries : Entries := []
  deriving Repr, Inhabited

namespace Reading

/-- Ends the current section. -/
def endSection (reading : Reading) : Except String Reading :=
  match reading.current with
  | none => .ok { root := reading.entries }
  | some current => do
    let root ← Entries.descend false
      (fun _ entries =>
        match current.inArray, entries.lookup current.name with
        | true, some (.tables items) =>
          .ok (entries.replace current.name (.tables (reading.entries :: items)))
        | true, none => .ok (entries ++ [(current.name, .tables [reading.entries])])
        | false, none => .ok (entries ++ [(current.name, .table .header reading.entries)])
        | _, _ => .error "duplicate key")
      current.path .header reading.root
    return { root }

/-- Starts the section of a table. Only a table that longer headers made may
exist before. -/
def startTable (reading : Reading) (path : List String) (name : String) :
    Except String Reading := do
  let reading ← reading.endSection
  let current := some { path, name, inArray := false }
  let existing ← find path name reading.root
  match existing with
  | none => return { reading with current }
  | some (.table .longerHeader entries) =>
    let root ← Entries.descend false
      (fun _ inner => .ok (inner.filter fun (other, _) => other ≠ name)) path .header reading.root
    return { root, current, entries }
  | some _ => throw "duplicate key"
where
  /-- What the table at a path has under a name. Tables are made as if the
  section were there. -/
  find (path : List String) (name : String) (root : Entries) : Except String (Option Item) :=
    match path with
    | [] => .ok (root.lookup name)
    | key :: path =>
      match root.lookup key with
      | none => .ok none
      | some (.leaf _) => .error "dotted key attempted to extend a value"
      | some (.tables []) => .error "duplicate key"
      | some (.tables (last :: _)) => find path name last
      | some (.table _ inner) => find path name inner

/-- Starts another table of an array of tables. -/
def startArrayTable (reading : Reading) (path : List String) (name : String) :
    Except String Reading := do
  let reading ← reading.endSection
  let current := some { path, name, inArray := true }
  match ← startTable.find path name reading.root with
  | none => return { reading with current }
  | some (.tables _) => return { reading with current }
  | some _ => throw "duplicate key"

end Reading

namespace Read

/-- The key of a header, between its brackets. -/
def header (closing : List Char) : Read (List String × String) := do
  let found ← key depthLimit
  expect closing
  expectLineEnd
  return found

/-- Reads the lines that remain. -/
def document : Nat → Reading → Read Reading
  | 0, _ => throw "invalid document"
  | fuel + 1, reading => do
    skipLines ((← get).length + 1)
    if (← peek).isNone then return reading
    if ← takeIf ['[', '['] then
      let (path, name) ← header [']', ']']
      document fuel (← (reading.startArrayTable path name : Except String Reading))
    else if ← takeIf ['['] then
      let (path, name) ← header [']']
      document fuel (← (reading.startTable path name : Except String Reading))
    else
      let (path, name) ← key depthLimit
      expect ['=']
      skipBlanks
      let held ← value ((← get).length + 1) depthLimit
      expectLineEnd
      let entries ← (reading.entries.bind path name held : Except String Entries)
      document fuel { reading with entries }

end Read

/-- The text without a byte order mark at its start. -/
def dropByteOrderMark : List Char → List Char
  | '\uFEFF' :: rest => rest
  | text => text

/-- The entries that a TOML text gives. -/
def ofText? (text : String) : Except String (List (String × Value)) := do
  let text := dropByteOrderMark text.toList
  let (reading, _) ← (Read.document (text.length + 1) {}).run text
  let reading ← reading.endSection
  match ← (Value.table (Item.entryValues reading.root)).readTimes with
  | .table entries => return entries
  | _ => throw "configuration root is not a table"

end MacroMarkup.Toml
