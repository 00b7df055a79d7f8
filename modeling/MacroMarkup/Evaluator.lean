import MacroMarkup.Substitution

/-! Evaluation of macro bodies. A body is bound to its macro in one of two
languages; an evaluator turns a body and the arguments of a call into text. -/
namespace MacroMarkup

/-- The language that a macro body is written in. -/
inductive Language where
  | raw
  | script
  deriving DecidableEq, Repr, Inhabited

namespace Language

def tag : Language → String
  | raw => "raw"
  | script => "script"

def ofTag? : String → Option Language
  | "raw" => some raw
  | "script" => some script
  | _ => none

end Language

/-- A body as one definition statement gives it. -/
structure MacroBody where
  language : Language
  params : List String
  code : String
  deriving DecidableEq, Repr, Inhabited

/-- Why a body could not be evaluated. -/
inductive EvalError where
  | tooManyArguments (function : String) (expected given : Nat)
  | missingArguments (function : String) (missing : List String)
  | unsupportedLanguage (language : Language)
  | runtime (message : String)
  deriving DecidableEq, Repr, Inhabited

namespace EvalError

/-- Names in quotes, with commas between them and an "and" before the last. -/
def listing : List String → String
  | [] => ""
  | names =>
    let quoted := names.map fun name => "'" ++ name ++ "'"
    match quoted.dropLast with
    | [] => ", ".intercalate quoted
    | first => ", ".intercalate first ++ " and " ++ quoted.getLastD ""

def message : EvalError → String
  | tooManyArguments function expected given =>
    function ++ "() takes " ++ toString expected ++ " positional arguments but " ++
      toString given ++ " were given"
  | missingArguments function missing =>
    function ++ "() missing " ++ toString missing.length ++ " required positional argument" ++
      (if missing.length = 1 then "" else "s") ++ ": " ++ listing missing
  | unsupportedLanguage language =>
    "no evaluator available for '" ++ language.tag ++ "' bodies"
  | runtime message => message

end EvalError

/-- What runs macro bodies. `supports` says in which languages; `evaluate` is
given the name of the macro, a body of it, and the values of the arguments. -/
structure Evaluator where
  supports : Language → Bool
  evaluate : String → MacroBody → List String → Except EvalError String

namespace Evaluator

/-- Refuses a call with more or fewer arguments than the body has parameters. -/
def checkArity (name : String) (body : MacroBody) (args : List String) :
    Except EvalError Unit :=
  let expected := body.params.length
  if expected < args.length then
    .error (.tooManyArguments name expected args.length)
  else if args.length < expected then
    .error (.missingArguments name (body.params.drop args.length))
  else .ok ()

/-- Evaluation of raw bodies, by substitution, and of no others. -/
def raw : Evaluator where
  supports language := language = .raw
  evaluate name body args :=
    match body.language with
    | .raw => do
      checkArity name body args
      return substitute body.code body.params args
    | .script => .error (.unsupportedLanguage .script)

/-- Raw substitution, with an engine for scripts if there is one. -/
def standard (script : Option Evaluator) : Evaluator where
  supports
    | .raw => true
    | .script => script.any (·.supports .script)
  evaluate name body args :=
    match body.language, script with
    | .raw, _ => raw.evaluate name body args
    | .script, some engine => engine.evaluate name body args
    | .script, none => .error (.unsupportedLanguage .script)

end Evaluator

end MacroMarkup
