import MacroMarkup.AutoBreak
import MacroMarkup.Library
import MacroMarkup.Reader
import MacroMarkup.Registry

/-! The state of an expansion, and the computations that change it. -/
namespace MacroMarkup

/-- What an expansion is given and never changes. -/
structure Env where
  options : Options
  evaluator : Evaluator
  files : FileTree

/-- What outlives a single document of a compilation: the macros known so far,
and the locations of the libraries that were read. -/
structure Session where
  registry : Registry
  loaded : List (List String)
  deriving DecidableEq, Inhabited

def Session.ofRegistry (registry : Registry) : Session :=
  { registry, loaded := [] }

/-- One document in one pass. The depth counts the invocations and parsed
scopes around the place reached; `executed` counts the invocations that fired. -/
structure DocumentState where
  file : String
  path : String
  reader : Reader
  depth : Nat
  executed : Nat
  target : Target
  autobreak : AutoBreak
  deriving DecidableEq

namespace DocumentState

/-- The start of a document, reported under the given file name and path. -/
def start (file path text : String) (target : Target) : DocumentState :=
  { file, path, reader := Reader.ofText text, depth := 0, executed := 0, target,
    autobreak := AutoBreak.ofTarget target }

/-- An error at the place reached. -/
def error (document : DocumentState) (cause : ErrorCause) : LocatedError :=
  { file := document.file, path := document.path, row := document.reader.cursor.row,
    col := document.reader.cursor.col, cause }

end DocumentState

structure ExpandState where
  session : Session
  document : DocumentState
  deriving DecidableEq

/-- How an expansion ends without a result. Running out of fuel is no error of
the document: with more fuel the same expansion may go on. -/
inductive Failure where
  | error (error : LocatedError)
  | outOfFuel
  deriving DecidableEq, Repr, Inhabited

/-- Computations that may fail. The state at the failure is kept. -/
abbrev Expand := ExceptT Failure (StateM ExpandState)

namespace Expand

def document : Expand DocumentState := do
  return (← get).document

def modifyDocument (change : DocumentState → DocumentState) : Expand Unit :=
  modify fun state => { state with document := change state.document }

def registry : Expand Registry := do
  return (← get).session.registry

def setRegistry (registry : Registry) : Expand Unit :=
  modify fun state => { state with session := { state.session with registry } }

/-- Fails at the place reached. -/
def fail {α : Type} (cause : ErrorCause) : Expand α := do
  throw (.error ((← document).error cause))

/-- The result, where a cause alone becomes an error at the place reached. -/
def located {α : Type} (result : Except ErrorCause α) : Expand α :=
  match result with
  | .ok value => return value
  | .error cause => fail cause

/-- The text that remains to be read. -/
def rest : Expand (List Char) := do
  return (← document).reader.rest

/-- Reads `count` characters. -/
def advance (count : Nat) : Expand Unit :=
  modifyDocument fun document => { document with reader := document.reader.advance count }

/-- Reads all that remains. -/
def advanceToEnd : Expand Unit :=
  modifyDocument fun document => { document with reader := document.reader.toEnd }

/-- An operation of the document's paragraph engine. -/
def withAutoBreak {α : Type} (operation : AutoBreak → α × AutoBreak) : Expand α := do
  let (result, autobreak) := operation (← document).autobreak
  modifyDocument fun document => { document with autobreak }
  return result

/-- Runs a computation with paragraph markers suspended. They are restored
after a failure as well. -/
def suspended {α : Type} (action : Expand α) : Expand α := do
  let enabled ← withAutoBreak AutoBreak.suspend
  let restore := withAutoBreak fun engine => ((), engine.restore enabled)
  let result ← tryCatch action fun failure => do
    restore
    throw failure
  restore
  return result

/-- Marks the entry into an invocation or scope. The depth is counted up even
when it then exceeds the limit. -/
def descend (env : Env) : Expand Unit := do
  modifyDocument fun document => { document with depth := document.depth + 1 }
  if env.options.maxDepth < (← document).depth then
    fail (.recursionLimitExceeded env.options.maxDepth)

/-- Marks the way out again. -/
def ascend : Expand Unit :=
  modifyDocument fun document => { document with depth := document.depth - 1 }

def addExecuted (count : Nat) : Expand Unit :=
  modifyDocument fun document => { document with executed := document.executed + count }

/-- Runs a computation on another document of the same session. The document
at hand stays as it is; the result comes with the other document's last state. -/
def onDocument {α : Type} (other : DocumentState) (action : Expand α) :
    Expand (α × DocumentState) := do
  let current ← document
  modifyDocument fun _ => other
  let result ← tryCatch action fun failure => do
    modifyDocument fun _ => current
    throw failure
  let last ← document
  modifyDocument fun _ => current
  return (result, last)

end Expand

end MacroMarkup
