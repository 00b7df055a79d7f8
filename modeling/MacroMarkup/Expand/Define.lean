import MacroMarkup.Expand.Scope

/-! Definition statements, each a signature scope and a body. A body is written
on the line of the directive, or as a block of indented lines. -/
namespace MacroMarkup.Expand

/-- The marker that ends a block opened on a line indented by `indent`. -/
def blockEnd (indent : Nat) (marker : String) : String :=
  "\n" ++ String.ofList (List.replicate indent ' ') ++ marker

/-- A body on one line. -/
def inlineBody : Expand String := do
  let code ← readPast Spelling.scopeEnd Spelling.scopeEnd
  if code.toList.contains '\n' then fail .expectedLineBreak
  return code

/-- A body of indented lines, without the indentation they share. It ends at a
brace under the directive, and has to be indented deeper than that. -/
def blockBody (indent : Nat) : Expand String := do
  let block ← readPast (blockEnd indent Spelling.scopeEnd) Spelling.scopeEnd
  let block := Text.dropLineBreak block.toList
  match Text.blockIndent block with
  | none => return ""
  | some least =>
    if least ≤ indent then fail (.outdented indent)
    return String.ofList (Text.stripIndent block least)

/-- The body of a definition whose directive is indented by `indent`. -/
def definitionBody (indent : Nat) : Expand String := do
  expectScopeBegin
  if ['\n'].isPrefixOf (← rest) then blockBody indent else inlineBody

/-- Reads a definition statement behind its directive and adds it to the
registry. -/
def define (kind : MacroKind) : Expand Unit := do
  let indent := (← document).reader.indent
  let signature ← verbatimScope
  let declaration ← located (Declaration.parse kind signature.toList)
  let code ← definitionBody indent
  let definition := declaration.define kind code
  setRegistry (← located ((← registry).define definition))

end MacroMarkup.Expand
