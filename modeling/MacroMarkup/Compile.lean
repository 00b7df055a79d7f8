import MacroMarkup.Expand.Block

/-! Compilation in two passes. The normalizing pass expands the macros of its
mode and leaves the others in place; for doc or web output a second pass reads
the normalized text with the macros that the first pass collected. -/
namespace MacroMarkup

/-- A compiled document and its headers. -/
structure Output where
  document : String
  headers : Yaml.Headers
  deriving Repr, Inhabited

namespace Expand

/-- The block loop with the given fuel, from an empty output. -/
def blockReader (env : Env) (fuel : Nat) : BlockReader :=
  fun marker? => block env fuel marker? ""

/-- The current document, expanded whole. -/
def expandDocument (env : Env) (fuel : Nat) : Expand String :=
  wholeDocument (blockReader env fuel)

/-- The document with the given names and text, expanded for a target. -/
def pass (env : Env) (fuel : Nat) (source : Source) (text : String) (target : Target) :
    Expand String := do
  modifyDocument fun _ => DocumentState.start source.filename source.path text target
  expandDocument env fuel

/-- Preloads and normalizes the current document, which is the source's, and
renders the result if the target asks for it. -/
def passes (env : Env) (fuel : Nat) (source : Source) (target : Target) : Expand String := do
  env.options.preload.forM fun name => includeLibrary env (blockReader env fuel) name
  let normalized ← expandDocument env fuel
  if target.isRender then pass env fuel source normalized target
  else return normalized

end Expand

namespace Compiler

/-- Enough fuel for any compilation that ends within a lifetime. -/
def defaultFuel : Nat :=
  1000000000000000000

/-- Compiles a document with an explicit bound on the places read. -/
def compileWith (fuel : Nat) (env : Env) (source : Source) (target : Target) :
    Except Failure Output := do
  let (headers, text) ← (FrontMatter.extract source).mapError Failure.error
  let start : ExpandState := {
    session := Session.ofRegistry Registry.builtins
    document := DocumentState.start source.filename source.path text .normalize }
  let document ← ((Expand.passes env fuel source target).run start).1
  return { document, headers }

/-- Compiles a document: its text for the target, and its headers. -/
def compile (env : Env) (source : Source) (target : Target) : Except Failure Output :=
  compileWith defaultFuel env source target

end Compiler

end MacroMarkup
