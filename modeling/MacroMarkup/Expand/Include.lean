import MacroMarkup.Expand.Scope
import MacroMarkup.FrontMatter

/-! Inclusion of libraries. A library is read for its definitions, at most once
in a session. Text it produces is dropped. -/
namespace MacroMarkup.Expand

/-- Adds a location to the libraries that were read. The result is whether it
is new. -/
def markLoaded (location : List String) : Expand Bool := do
  let session := (← get).session
  if session.loaded.contains location then return false
  modify fun state =>
    { state with session := { session with loaded := location :: session.loaded } }
  return true

/-- Reads the library that a path leads to, at the depth and for the target of
the document at hand. -/
def readLibrary (env : Env) (block : BlockReader) (path : String) : Expand Unit := do
  match env.files.readText path with
  | .error cause => fail (.io (path ++ ": " ++ cause.message))
  | .ok text =>
    let source := Source.ofFile path text
    match FrontMatter.extract source with
    | .error error => throw (.error error)
    | .ok (_, body) =>
      let current ← document
      let library := DocumentState.start source.filename source.path body current.target
      let _ ← onDocument { library with depth := current.depth } (wholeDocument block)

/-- Finds a library by name and reads it, unless it was read before. -/
def includeLibrary (env : Env) (block : BlockReader) (name : String) : Expand Unit := do
  let base := baseDirectory (← document).path
  match Library.resolve? env.files env.options base name with
  | none => fail (.fileNotFound name)
  | some (path, location) =>
    if ← markLoaded location then readLibrary env block path

end MacroMarkup.Expand
