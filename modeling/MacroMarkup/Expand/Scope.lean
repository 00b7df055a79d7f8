import MacroMarkup.Expand.State

/-! Reading of scopes. Braces are never counted: a verbatim scope ends at the
first closing brace, a parsed scope at the first that belongs to no invocation
inside it. A brace meant literally is written with an escape. -/
namespace MacroMarkup.Expand

/-- Reads up to a marker and past it. The result is what stands before. If the
marker does not occur, all is read and the error names `shown`. -/
def readPast (marker shown : String) : Expand String := do
  match Text.before? marker.toList (← rest) with
  | some content =>
    advance (content.length + marker.length)
    return String.ofList content
  | none =>
    advanceToEnd
    fail (.expectedEndMarker shown)

/-- Reads the opening brace that has to come next. -/
def expectScopeBegin : Expand Unit := do
  if Spelling.scopeBegin.toList.isPrefixOf (← rest) then
    advance Spelling.scopeBegin.length
  else
    fail (.expectedBeginMarker Spelling.scopeBegin)

/-- The contents of a scope as they are written. -/
def verbatimScope : Expand String := do
  expectScopeBegin
  readPast Spelling.scopeEnd Spelling.scopeEnd

/-- Reads an empty scope if one comes next, and says whether it did. -/
def emptyScope : Expand Bool := do
  if Spelling.emptyScope.toList.isPrefixOf (← rest) then
    advance Spelling.emptyScope.length
    return true
  else
    return false

/-- Fails unless a line break comes next, which is not read. -/
def expectLineBreak (cause : ErrorCause) : Expand Unit := do
  if ['\n'].isPrefixOf (← rest) then return ()
  else fail cause

/-- A way to expand what comes next up to an end marker, which is read too, or
to the end of the document. -/
abbrev BlockReader := Option (List Char) → Expand String

/-- The expanded contents of a scope. -/
def parsedScope (env : Env) (block : BlockReader) : Expand String := do
  expectScopeBegin
  descend env
  let contents ← block (some Spelling.scopeEnd.toList)
  ascend
  return contents

/-- A whole document expanded. A paragraph that is left open is closed. -/
def wholeDocument (block : BlockReader) : Expand String := do
  let output ← block none
  let closing ← withAutoBreak AutoBreak.close
  return output ++ closing

end MacroMarkup.Expand
