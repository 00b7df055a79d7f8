import MacroMarkup.Expand.Include
import MacroMarkup.Expand.Invoke

/-! What the builtins do. They are active in every pass. -/
namespace MacroMarkup.Expand

/-- Settles pending blanks and makes sure that a paragraph is open. -/
def inlinePosition : Expand String :=
  settleParagraph .wrapInParagraph

/-- An escaped character in the spelling of the target. It counts as fired only
if that is another spelling than the invocation's. -/
def escapedChar (char : EscapedChar) (invocation : String) : Expand Expansion := do
  let opening ← inlinePosition
  let rendered := char.render (← document).target
  let text := opening ++ rendered
  return if rendered = invocation then .passthrough text else .fired text

/-- A comment runs to the end of its line. The line break stays, so that blank
rows after a comment still count. -/
def comment : Expand Expansion := do
  advance ((← rest).takeWhile (· ≠ '\n')).length
  return .fired ""

/-- A paragraph of its own around the expanded scope that follows. -/
def paragraph (env : Env) (block : BlockReader) : Expand Expansion := do
  let opening ← withAutoBreak (AutoBreak.ensureOpen true)
  let contents ← suspended (parsedScope env block)
  return .fired (opening ++ contents)

/-- A formula is kept as it is written; in web output its delimiters change. -/
def math : Expand Expansion := do
  let opening ← inlinePosition
  let formula ← readPast Spelling.math Spelling.math
  if (← document).target = .web then
    return .fired (opening ++ Spelling.mathBeginWeb ++ formula ++ Spelling.mathEndWeb)
  else
    return .passthrough (opening ++ Spelling.math ++ formula ++ Spelling.math)

/-- Runs a builtin behind its invocation. -/
def runBuiltin (env : Env) (block : BlockReader) (builtin : Builtin) (invocation : String) :
    Expand Expansion :=
  match builtin with
  | .escape => fail .unknownFunction
  | .escapedChar char => escapedChar char invocation
  | .comment => comment
  | .scopeBegin => fail (.unexpectedBeginMarker Spelling.scopeBegin)
  | .scopeEnd => fail (.unexpectedEndMarker Spelling.scopeEnd)
  | .usePackage => do
    let name ← verbatimScope
    includeLibrary env block (Text.trimString name)
    return .fired ""
  | .newCommand => do
    define .command
    return .fired ""
  | .newEnvironment => do
    define .environment
    return .fired ""
  | .environmentBegin => do
    let name ← verbatimScope
    fail (.unknownEnvironment name)
  | .environmentEnd => fail (.unexpectedEndMarker Spelling.environmentEnd)
  | .paragraph => paragraph env block
  | .math => math

end MacroMarkup.Expand
