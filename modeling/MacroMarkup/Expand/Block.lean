import MacroMarkup.Expand.Builtin

/-! The block loop, which reads a document one place at a time: the end marker
of the enclosing scope comes first, then the longest invocation known, and any
other character is literal text. -/
namespace MacroMarkup.Expand

/-- Runs what an invocation dispatches to. -/
def runHandler (env : Env) (block : BlockReader) (rounds : Nat) (handler : Handler)
    (invocation : String) : Expand Expansion :=
  match handler with
  | .builtin builtin => runBuiltin env block builtin invocation
  | .user user => invoke env block rounds user invocation

/-- Reads an invocation of the given length and runs it one level deeper. -/
def dispatch (env : Env) (block : BlockReader) (rounds : Nat) (handler : Handler)
    (length : Nat) : Expand String := do
  let invocation := String.ofList ((← rest).take length)
  advance length
  descend env
  let expansion ← runHandler env block rounds handler invocation
  ascend
  addExecuted expansion.firings
  return expansion.text

/-- Reads one literal character. -/
def literal (c : Char) : Expand String := do
  let text ← withAutoBreak (AutoBreak.process c)
  advance 1
  return text

/-- Expands up to an end marker, which is read too, or to the end of the
document. `output` is what was expanded before. Every place read takes one unit
of fuel, and what happens at a place has the fuel that is left there. -/
def block (env : Env) : Nat → Option (List Char) → String → Expand String
  | 0, _, _ => throw .outOfFuel
  | fuel + 1, marker?, output => do
    match ← rest, marker? with
    | [], some marker => fail (.expectedEndMarker (String.ofList marker))
    | [], none => return output
    | c :: text, _ =>
      match marker?.filter (·.isPrefixOf (c :: text)) with
      | some marker =>
        advance marker.length
        return output
      | none =>
        let piece ← match (← registry).lookup? (c :: text) with
          | some (length, handler) =>
            dispatch env (fun marker? => block env fuel marker? "") fuel handler length
          | none => literal c
        block env fuel marker? (output ++ piece)

end MacroMarkup.Expand
