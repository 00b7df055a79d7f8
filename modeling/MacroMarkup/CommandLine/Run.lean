import MacroMarkup.CommandLine.Arguments
import MacroMarkup.Json.Output
import MacroMarkup.Settings.Layers

/-! The answer to a command line, given the files there are. -/
namespace MacroMarkup.CommandLine

/-- The answer to a command line: its exit code, and what is written to the
standard output and as errors. -/
structure Answer where
  code : Nat
  output : String
  errors : String
  deriving DecidableEq, Repr, Inhabited

namespace Answer

def success (output : String) : Answer :=
  { code := 0, output, errors := "" }

def failure (errors : String) : Answer :=
  { code := 1, output := "", errors }

def usage (errors : String) : Answer :=
  { code := 2, output := "", errors }

end Answer

def versionText : String :=
  "comtext 0.1.0\n"

def usageLine : String :=
  "Usage: comtext [OPTIONS] <path>\n"

def helpText : String :=
  "Compile comtext documents to normalized, doc or web output\n\n" ++ usageLine ++ "
Arguments:
  <path>  Path to the document to compile

Options:
  -t, --target <target>    Output target (defaults to the configured one) [possible values: ctx, doc, web]
  -I, --include <include>  Additional library search directory
  -p, --preload <preload>  Library to load before the document
  -c, --config <config>    Configuration file layered over the defaults (default: ./comtext.toml if present)
  -f, --format <format>    Output format [default: text] [possible values: text, json]
  -v, --verbose...         Log more (repeat for more detail)
  -q, --quiet              Only log errors
  -h, --help               Print help
  -V, --version            Print version
"

/-- The answer where there is nothing to compile. -/
def Stop.answer : Stop → Answer
  | usage error =>
    Answer.usage ("error: " ++ error.message ++ "\n\n" ++ usageLine ++
      "\nFor more information, try '--help'.\n")
  | help => Answer.success helpText
  | version => Answer.success versionText

/-- The settings file that is read, if there is one, where no other is given. -/
def projectFile : String :=
  "comtext.toml"

namespace Arguments

/-- The layers of settings that the arguments ask for. -/
def layers (arguments : Arguments) : List Settings.Layer :=
  let file := match arguments.config with
    | some path => Settings.Layer.file path false
    | none => Settings.Layer.file projectFile true
  let target := arguments.target.map fun target =>
    Settings.Layer.key "output.target" (.string target.name)
  file :: target.toList

/-- The settings of a compilation, where directories and libraries from the
command line follow those from files. -/
def settings (arguments : Arguments) (tree : FileTree) : Except SettingsError Settings := do
  let settings ← Settings.ofLayers tree arguments.layers
  let options := { settings.options with
    includePath := settings.options.includePath ++ arguments.includePath
    preload := settings.options.preload ++ arguments.preload }
  return { settings with options }

end Arguments

/-- What is said of a failed compilation. Lines are shown around a place in the
document itself; the text of another file is not at hand. -/
def failureText (source : Source) : Failure → String
  | .error error =>
    if error.file = source.filename ∧ error.path = source.path then error.report source.text
    else error.message
  | .outOfFuel => "Error: the document takes too long to compile"

/-- The answer that shows a compiled document. -/
def showOutput (format : Format) (output : Output) : Answer :=
  match format with
  | .text => Answer.success output.document
  | .json =>
    match Json.ofOutput output with
    | .ok value => Answer.success (value.text ++ "\n")
    | .error error => Answer.failure ("Serialization error: " ++ error.message ++ "\n")

/-- Compiles as the arguments say. -/
def compileDocument (tree : FileTree) (arguments : Arguments) : Answer :=
  match arguments.settings tree with
  | .error error => Answer.failure ("Configuration error: " ++ error.message ++ "\n")
  | .ok settings =>
    match tree.readText arguments.document with
    | .error error => Answer.failure ("Error reading file: IO error: " ++ error.message ++ "\n")
    | .ok text =>
      let env : Env :=
        { options := settings.options, evaluator := Evaluator.standard none, files := tree }
      let source := Source.ofFile arguments.document text
      match Compiler.compile env source settings.target with
      | .ok output => showOutput arguments.format output
      | .error failure => Answer.failure (failureText source failure ++ "\n")

/-- The answer to a command line. -/
def run (tree : FileTree) (words : List String) : Answer :=
  match Arguments.ofWords words with
  | .error stop => stop.answer
  | .ok arguments => compileDocument tree arguments

end MacroMarkup.CommandLine
