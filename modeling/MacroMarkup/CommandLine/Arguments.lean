import MacroMarkup.CommandLine.Item
import MacroMarkup.Target

/-! What a command line asks for. -/
namespace MacroMarkup.CommandLine

/-- How a compiled document is written: as its text, or as data with its
headers. -/
inductive Format where
  | text
  | json
  deriving DecidableEq, Repr, Inhabited

def Format.ofName? : String → Option Format
  | "text" => some text
  | "json" => some json
  | _ => none

/-- A target by the name that a command line gives it. -/
def targetOfName? (name : String) : Option Target :=
  (Target.ofName? name).filter (·.name = name)

/-- What the items say that were read so far. -/
structure Draft where
  document : Option String := none
  target : Option Target := none
  includePath : List String := []
  preload : List String := []
  config : Option String := none
  format : Option Format := none
  verbosity : Nat := 0
  quiet : Bool := false
  deriving DecidableEq, Repr, Inhabited

/-- The compilation that a command line asks for. -/
structure Arguments where
  document : String
  target : Option Target
  includePath : List String
  preload : List String
  config : Option String
  format : Format
  deriving DecidableEq, Repr, Inhabited

/-- Why a command line leads to no compilation. -/
inductive Stop where
  | usage (error : UsageError)
  | help
  | version
  deriving DecidableEq, Repr, Inhabited

/-- Gives a setting its value, which it may have once. -/
def setOnce {α : Type} (setting : Setting) (held : Option α) (text : String)
    (value : Option α) : Except Stop (Option α) :=
  match value, held with
  | none, _ => .error (.usage (.invalidValue setting text))
  | some _, some _ => .error (.usage (.repeated (.setting setting)))
  | some value, none => .ok (some value)

namespace Draft

/-- Adds what an item says. -/
def add (draft : Draft) : Item → Except Stop Draft
  | .mistake error => throw (.usage error)
  | .switch .help => throw .help
  | .switch .version => throw .version
  | .switch .verbose => return { draft with verbosity := draft.verbosity + 1 }
  | .switch .quiet =>
    if draft.quiet then throw (.usage (.repeated (.switch .quiet)))
    else return { draft with quiet := true }
  | .setting .directory value => return { draft with includePath := draft.includePath ++ [value] }
  | .setting .preload value => return { draft with preload := draft.preload ++ [value] }
  | .setting .target value =>
    return { draft with target := ← setOnce .target draft.target value (targetOfName? value) }
  | .setting .config value =>
    return { draft with config := ← setOnce .config draft.config value (some value) }
  | .setting .format value =>
    return { draft with format := ← setOnce .format draft.format value (Format.ofName? value) }
  | .document path =>
    match draft.document with
    | none => return { draft with document := some path }
    | some _ => throw (.usage (.unexpectedWord path))

/-- The arguments once all items are read. -/
def finish (draft : Draft) : Except Stop Arguments :=
  if draft.quiet && 0 < draft.verbosity then .error (.usage .quietAndVerbose)
  else
    match draft.document with
    | none => .error (.usage .missingDocument)
    | some document => .ok {
        document
        target := draft.target
        includePath := draft.includePath
        preload := draft.preload
        config := draft.config
        format := draft.format.getD .text }

end Draft

/-- Reads a command line. Its items take effect in order, so that the first
mistake, or the first wish for help or the version, decides. -/
def Arguments.ofWords (words : List String) : Except Stop Arguments := do
  let draft ← (readItems words).foldlM Draft.add {}
  draft.finish

end MacroMarkup.CommandLine
