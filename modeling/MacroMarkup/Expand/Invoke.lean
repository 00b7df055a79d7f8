import MacroMarkup.Expand.Define

/-! Invocation of the macros that a document defines. -/
namespace MacroMarkup

/-- The outcome of an invocation: either it fired, or this pass leaves it and
its text stands for itself. -/
inductive Expansion where
  | fired (text : String)
  | passthrough (text : String)
  deriving DecidableEq, Repr, Inhabited

namespace Expansion

def text : Expansion → String
  | fired text => text
  | passthrough text => text

/-- How many invocations this counts as fired. -/
def firings : Expansion → Nat
  | fired _ => 1
  | passthrough _ => 0

end Expansion

/-- What an invocation applies its macro to: the scopes that follow it, and for
an environment with parameters the text enclosed. -/
structure CallArgs where
  scopes : List String
  body : Option String
  deriving DecidableEq, Repr, Inhabited

namespace CallArgs

/-- The values in the order of the parameters. -/
def values (args : CallArgs) : List String :=
  args.scopes ++ args.body.toList

end CallArgs

/-- The invocation as it has to stand for a later pass to read it. -/
def UserMacro.reemit (user : UserMacro) (invocation : String) (args : CallArgs)
    (emptyScope : Bool) : String :=
  let scopes := String.join (args.scopes.map Spelling.braced)
  let empty :=
    if emptyScope || (user.kind = .command && args.scopes.isEmpty) then Spelling.emptyScope
    else ""
  let enclosed := match args.body with
    | some body => "\n" ++ body ++ "\n" ++ Spelling.closeEnvironment user.name
    | none => ""
  invocation ++ scopes ++ empty ++ enclosed

namespace Expand

/-- An error of a document with the file name and path of `current` is taken to
the place reached in `current`; any other stays where it is. -/
def relocate (current : DocumentState) : Failure → Failure
  | .error error =>
    if error.file = current.file ∧ error.path = current.path then
      .error (current.error error.cause)
    else .error error
  | .outOfFuel => .outOfFuel

/-- One round of expansion of generated text, without paragraph markers and at
the depth of the document at hand. The second component is how often it fired. -/
def round (block : BlockReader) (text : String) : Expand (String × Nat) := do
  let current ← document
  let generated := DocumentState.start current.file current.path text current.target
  let generated :=
    { generated with autobreak := AutoBreak.disabled current.target, depth := current.depth }
  let (output, last) ← tryCatch (onDocument generated (wholeDocument block))
    fun failure => throw (relocate current failure)
  addExecuted last.executed
  return (output, last.executed)

/-- Expands generated text round by round until a round fires nothing. -/
def toFixpoint (block : BlockReader) : Nat → String → Expand String
  | 0, _ => throw .outOfFuel
  | rounds + 1, text => do
    let (output, fired) ← round block text
    if fired = 0 then return output
    else toFixpoint block rounds output

/-- The text between the opening of an environment and its closing, which
stands under the opening. The indentation of the opening is removed. -/
def environmentBody (name : String) (indent : Nat) : Expand String := do
  expectLineBreak .environmentExpectedLineBreak
  let closing := Spelling.closeEnvironment name
  let captured ← readPast (blockEnd indent closing) closing
  return String.ofList (Text.stripIndent (Text.dropLineBreak captured.toList) indent)

/-- One argument in a scope. -/
def argument (env : Env) (block : BlockReader) (verbatim : Bool) : Expand String :=
  if verbatim then verbatimScope else parsedScope env block

/-- The arguments of an invocation. The last parameter of an environment takes
the text enclosed. -/
def arguments (env : Env) (block : BlockReader) (user : UserMacro) (indent : Nat) :
    Expand CallArgs :=
  match user.kind with
  | .command => do
    let scopes ← user.signature.verbatim.mapM (argument env block)
    return { scopes, body := none }
  | .environment => do
    let scopes ← user.signature.verbatim.dropLast.mapM (argument env block)
    let body ← environmentBody user.name indent
    return { scopes, body := some body }

/-- The arguments of an invocation, and whether an empty scope stands in their
place. Only a macro without parameters reads one. -/
def callArgs (env : Env) (block : BlockReader) (user : UserMacro) (indent : Nat) :
    Expand (CallArgs × Bool) := do
  if user.signature.verbatim.isEmpty then
    return ({ scopes := [], body := none }, ← emptyScope)
  else
    return (← arguments env block user indent, false)

/-- Evaluates a macro. In the normalizing pass the result is expanded further. -/
def evaluate (env : Env) (block : BlockReader) (rounds : Nat) (user : UserMacro)
    (values : List String) : Expand String := do
  match user.preferredBody? env.evaluator with
  | none => fail .unknownFunction
  | some body =>
    let result ← located
      ((env.evaluator.evaluate user.name body values).mapError ErrorCause.evaluation)
    if (← document).target = .normalize then toFixpoint block rounds result
    else return result

/-- Treats the paragraph around an invocation as its policy says. -/
def settleParagraph (policy : BreakPolicy) : Expand String := do
  let flushed ← withAutoBreak AutoBreak.flush
  let marker ← withAutoBreak (match policy with
    | .wrapInParagraph => AutoBreak.ensureOpen false
    | .leaveParagraph => AutoBreak.close)
  return flushed ++ marker

/-- An invocation of a macro: its arguments are read with paragraph markers
suspended, then it is evaluated, or kept for the pass that its mode names. -/
def invoke (env : Env) (block : BlockReader) (rounds : Nat) (user : UserMacro)
    (invocation : String) : Expand Expansion := do
  let indent := (← document).reader.indent
  let marker ← settleParagraph user.signature.policy
  let (args, emptyScope) ← suspended (callArgs env block user indent)
  if user.signature.mode.appliesTo (← document).target then
    let text ← evaluate env block rounds user args.values
    return .fired (marker ++ text)
  else
    return .passthrough (marker ++ user.reemit invocation args emptyScope)

end Expand

end MacroMarkup
