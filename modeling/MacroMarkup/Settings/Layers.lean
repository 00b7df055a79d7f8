import MacroMarkup.Settings.Decode

/-! Settings in layers: the defaults, then files in order, then what is set key
by key. Later layers win. -/
namespace MacroMarkup.Settings

/-- A source of settings. A file that is optional may be missing, or be no
text. -/
inductive Layer where
  | file (path : String) (optional : Bool)
  | key (name : String) (value : Value)
  deriving Repr, Inhabited

/-- The settings where nothing else is given. -/
def defaults : Settings :=
  { options := {}, target := .normalize }

/-- Settings as the value that describes them. -/
def toValue (settings : Settings) : Value :=
  let texts (items : List String) : Value := .array (items.map .string)
  .table [
    ("compile", .table [
      ("include_path", texts settings.options.includePath),
      ("extensions", texts settings.options.extensions),
      ("max_depth", .int settings.options.maxDepth),
      ("preload", texts settings.options.preload)]),
    ("output", .table [("target", .string settings.target.name)])]

/-- The location of a settings file. Its name may lack the extension. -/
def locate? (tree : FileTree) (path : String) : Option (List String) :=
  let completed : Option String :=
    (Path.fileName? path).map fun _ => Path.dropIdleEnd path ++ ".toml"
  (tree.locateFile? path).or (completed.bind tree.locateFile?)

/-- The text of a settings file. -/
def fileText (tree : FileTree) (path : String) : Except SettingsError String :=
  match (locate? tree path).bind tree.content? with
  | none => .error (.missingFile path)
  | some content =>
    match String.fromUTF8? content with
    | some text => .ok text
    | none => .error (.invalidText path)

/-- The entries that the text of a settings file gives. -/
def fileEntries (text : String) : Except SettingsError (List (String × Value)) :=
  match Toml.ofText? text with
  | .ok entries => .ok (Value.ofTomlEntries entries)
  | .error reason => .error (.invalidFile reason)

/-- Sets an entry of a file. A key that reads as a path leads on from the top,
any other names an entry there. -/
def setEntry (value : Value) (key : String) (held : Value) : Value :=
  Value.setAt ((keyPath? key).getD [.entry key]) held value

/-- Adds a layer that is a file. An optional file without a text adds nothing,
but a text has to be one of settings. -/
def addFile (tree : FileTree) (value : Value) (path : String) (optional : Bool) :
    Except SettingsError Value := do
  match fileText tree path with
  | .ok text =>
    let entries ← fileEntries text
    return entries.foldl (fun value (key, held) => setEntry value key held) value
  | .error error =>
    if optional then return value
    else throw error

/-- Adds a layer that sets a key, which has to be a path. -/
def addKey (value : Value) (name : String) (held : Value) : Except SettingsError Value :=
  match keyPath? name with
  | some path => .ok (Value.setAt path held value)
  | none => .error (.invalidKey name)

/-- The settings of some layers over the defaults. -/
def ofLayers (tree : FileTree) (layers : List Layer) : Except SettingsError Settings := do
  let value ← layers.foldlM
    (fun value layer => match layer with
      | .file path optional => addFile tree value path optional
      | .key _ _ => return value)
    defaults.toValue
  let value ← layers.foldlM
    (fun value layer => match layer with
      | .file _ _ => return value
      | .key name held => addKey value name held)
    value
  ofValue value

end MacroMarkup.Settings
