import MacroMarkup.Target

/-! Paragraphs made from literal text. Runs of text between blank rows become
paragraphs with explicit markers. Inside a paragraph a run of spaces and single
line breaks collapses to one space, two or more line breaks end the paragraph,
and what is blank before the first visible character is dropped. A suspended
engine emits no markers: there a blank row is worth one space too. -/
namespace MacroMarkup

/-- The state of the engine. `begun` says that the begin marker of the open
paragraph was emitted, so that an end marker is owed. -/
structure AutoBreak where
  opened : Bool
  pendingSpace : Bool
  pendingBreaks : Nat
  enabled : Bool
  begun : Bool
  beginMarker : String
  endMarker : String
  deriving DecidableEq, Repr, Inhabited

namespace AutoBreak

def ofMarkers (beginMarker endMarker : String) : AutoBreak :=
  { opened := false, pendingSpace := false, pendingBreaks := 0, enabled := true,
    begun := false, beginMarker, endMarker }

def ofTarget (target : Target) : AutoBreak :=
  ofMarkers target.paragraphMarkers.1 target.paragraphMarkers.2

/-- An engine that emits no paragraph markers. -/
def disabled (target : Target) : AutoBreak :=
  { ofTarget target with enabled := false }

/-- Stops markers. The first component is the setting to restore. -/
def suspend (engine : AutoBreak) : Bool × AutoBreak :=
  (engine.enabled, { engine with enabled := false })

def restore (enabled : Bool) (engine : AutoBreak) : AutoBreak :=
  { engine with enabled }

def clearPending (engine : AutoBreak) : AutoBreak :=
  { engine with pendingSpace := false, pendingBreaks := 0 }

/-- A space counts only in a paragraph, and after a line break not at all. -/
def processSpace (engine : AutoBreak) : AutoBreak :=
  if engine.opened ∧ engine.pendingBreaks = 0 then { engine with pendingSpace := true }
  else engine

/-- A line break counts only in a paragraph. -/
def processBreak (engine : AutoBreak) : AutoBreak :=
  if engine.opened then
    { engine with pendingSpace := true, pendingBreaks := engine.pendingBreaks + 1 }
  else engine

/-- A visible character opens a paragraph, or settles the blanks before it. -/
def processVisible (c : Char) (engine : AutoBreak) : String × AutoBreak :=
  let visible := String.singleton c
  if !engine.opened then
    if engine.enabled then
      (engine.beginMarker ++ visible, { engine with opened := true, begun := true })
    else
      (visible, { engine with opened := true })
  else if engine.pendingSpace && (engine.pendingBreaks < 2 || !engine.enabled) then
    (" " ++ visible, engine.clearPending)
  else if engine.pendingBreaks > 0 && engine.enabled then
    ((if engine.begun then engine.endMarker else "") ++ engine.beginMarker ++ visible,
      { engine.clearPending with begun := true })
  else
    (visible, engine.clearPending)

/-- The text to emit for one literal character. -/
def process (c : Char) (engine : AutoBreak) : String × AutoBreak :=
  if c = ' ' then ("", engine.processSpace)
  else if c = '\n' then ("", engine.processBreak)
  else engine.processVisible c

/-- Processing of a whole text. -/
def processAll (text : List Char) (engine : AutoBreak) : String × AutoBreak :=
  text.foldl
    (fun (out, engine) c =>
      let (piece, engine) := engine.process c
      (out ++ piece, engine))
    ("", engine)

/-- Ends the paragraph. An end marker is emitted only if one is owed. -/
def close (engine : AutoBreak) : String × AutoBreak :=
  if engine.opened then
    (if engine.begun then engine.endMarker else "",
      { engine.clearPending with opened := false, begun := false })
  else ("", engine)

/-- Starts a paragraph that is known to be closed. -/
def start (engine : AutoBreak) : String × AutoBreak :=
  if engine.enabled then
    (engine.beginMarker, { engine.clearPending with opened := true, begun := true })
  else
    ("", { engine.clearPending with opened := true })

/-- Makes sure that a paragraph is open; with `reopen`, that a fresh one is. -/
def ensureOpen (reopen : Bool) (engine : AutoBreak) : String × AutoBreak :=
  if engine.opened then
    if reopen then
      let (closing, engine) := engine.close
      let (opening, engine) := engine.start
      (closing ++ opening, engine)
    else ("", engine)
  else engine.start

/-- Settles pending blanks before an invocation. A blank row ends the
paragraph; anything less becomes one space. -/
def flush (engine : AutoBreak) : String × AutoBreak :=
  if !engine.opened then ("", engine)
  else if engine.pendingBreaks ≥ 2 && engine.enabled then engine.close
  else
    (if engine.pendingSpace || engine.pendingBreaks > 0 then " " else "", engine.clearPending)

end AutoBreak

end MacroMarkup
