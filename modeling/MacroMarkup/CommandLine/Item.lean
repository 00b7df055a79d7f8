/-! The words of a command line, read one by one. -/
namespace MacroMarkup.CommandLine

/-- An option that takes a value. -/
inductive Setting where
  | target
  | directory
  | preload
  | config
  | format
  deriving DecidableEq, Repr, Inhabited

/-- An option that takes none. -/
inductive Switch where
  | verbose
  | quiet
  | help
  | version
  deriving DecidableEq, Repr, Inhabited

/-- An option of either kind. -/
inductive Key where
  | setting (setting : Setting)
  | switch (switch : Switch)
  deriving DecidableEq, Repr, Inhabited

namespace Key

/-- The option that a name stands for behind two hyphens. -/
def ofLong? : String → Option Key
  | "target" => some (setting .target)
  | "include" => some (setting .directory)
  | "preload" => some (setting .preload)
  | "config" => some (setting .config)
  | "format" => some (setting .format)
  | "verbose" => some (switch .verbose)
  | "quiet" => some (switch .quiet)
  | "help" => some (switch .help)
  | "version" => some (switch .version)
  | _ => none

/-- The option that a letter stands for behind one hyphen. -/
def ofShort? : Char → Option Key
  | 't' => some (setting .target)
  | 'I' => some (setting .directory)
  | 'p' => some (setting .preload)
  | 'c' => some (setting .config)
  | 'f' => some (setting .format)
  | 'v' => some (switch .verbose)
  | 'q' => some (switch .quiet)
  | 'h' => some (switch .help)
  | 'V' => some (switch .version)
  | _ => none

/-- An option as messages show it. -/
def shown : Key → String
  | setting .target => "--target <target>"
  | setting .directory => "--include <include>"
  | setting .preload => "--preload <preload>"
  | setting .config => "--config <config>"
  | setting .format => "--format <format>"
  | switch .verbose => "--verbose..."
  | switch .quiet => "--quiet"
  | switch .help => "--help"
  | switch .version => "--version"

end Key

/-- What is wrong with a command line. -/
inductive UsageError where
  | unexpectedWord (word : String)
  | unexpectedValue (switch : Switch) (value : String)
  | missingValue (setting : Setting)
  | invalidValue (setting : Setting) (value : String)
  | repeated (key : Key)
  | quietAndVerbose
  | missingDocument
  deriving DecidableEq, Repr, Inhabited

def UsageError.message : UsageError → String
  | unexpectedWord word => "unexpected argument '" ++ word ++ "' found"
  | unexpectedValue switch value =>
    "unexpected value '" ++ value ++ "' for '" ++ (Key.switch switch).shown ++
      "' found; no more were expected"
  | missingValue setting =>
    "a value is required for '" ++ (Key.setting setting).shown ++ "' but none was supplied"
  | invalidValue setting value =>
    "invalid value '" ++ value ++ "' for '" ++ (Key.setting setting).shown ++ "'"
  | repeated key => "the argument '" ++ key.shown ++ "' cannot be used multiple times"
  | quietAndVerbose => "the argument '--quiet' cannot be used with '--verbose...'"
  | missingDocument => "the following required arguments were not provided:\n  <path>"

/-- What a command line says at one place. -/
inductive Item where
  | document (path : String)
  | setting (setting : Setting) (value : String)
  | switch (switch : Switch)
  | mistake (error : UsageError)
  deriving DecidableEq, Repr, Inhabited

/-- A word is a value or a document unless it starts with a hyphen. A hyphen
alone is one too. -/
def isValue (word : String) : Bool :=
  match word.toList with
  | '-' :: _ :: _ => false
  | _ => true

/-- The items of letters behind one hyphen, and the option that the next word
is for. What follows the letter of an option with a value is the value. -/
def letters : List Char → List Item × Option Setting
  | [] => ([], none)
  | c :: rest =>
    match Key.ofShort? c with
    | none => ([.mistake (.unexpectedWord (String.ofList ['-', c]))], none)
    | some (.switch switch) =>
      let (items, waiting) := letters rest
      (.switch switch :: items, waiting)
    | some (.setting setting) =>
      match rest with
      | [] => ([], some setting)
      | '=' :: value => ([.setting setting (String.ofList value)], none)
      | value => ([.setting setting (String.ofList value)], none)

/-- The items of a word behind two hyphens, and the option that the next word is
for. A value may follow an equals sign. -/
def longWord (word : List Char) : List Item × Option Setting :=
  let (name, rest) := word.span (· ≠ '=')
  match Key.ofLong? (String.ofList name), rest with
  | none, _ => ([.mistake (.unexpectedWord (String.ofList ('-' :: '-' :: name)))], none)
  | some (.switch switch), [] => ([.switch switch], none)
  | some (.switch switch), _ :: value =>
    ([.mistake (.unexpectedValue switch (String.ofList value))], none)
  | some (.setting setting), [] => ([], some setting)
  | some (.setting setting), _ :: value => ([.setting setting (String.ofList value)], none)

/-- The items of one word. -/
def itemsOf (word : String) : List Item × Option Setting :=
  match word.toList with
  | '-' :: '-' :: rest => longWord rest
  | '-' :: c :: rest => letters (c :: rest)
  | _ => ([.document word], none)

/-- The items of a command line. Two hyphens alone end the options. -/
def readItems : List String → List Item
  | [] => []
  | word :: rest =>
    if word = "--" then rest.map Item.document
    else
      match itemsOf word with
      | (items, none) => items ++ readItems rest
      | (items, some setting) =>
        match rest with
        | [] => items ++ [.mistake (.missingValue setting)]
        | value :: rest =>
          if isValue value then items ++ .setting setting value :: readItems rest
          else items ++ [.mistake (.missingValue setting)]

end MacroMarkup.CommandLine
