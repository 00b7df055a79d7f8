import MacroMarkup.Path

/-! Documents with the names that diagnostics give them. -/
namespace MacroMarkup

/-- A text with the name and directory it was read from. -/
structure Source where
  filename : String
  path : String
  text : String
  deriving DecidableEq, Repr, Inhabited

namespace Source

/-- A document that came from no file. -/
def ofText (text : String) : Source :=
  { filename := "<string>", path := "", text }

/-- A document that came from the file with the given path. -/
def ofFile (file text : String) : Source :=
  { filename := (Path.fileName? file).getD ""
    path := (Path.parent? file).getD ""
    text }

end Source

/-- Where lookups start for a document stored under `path`. -/
def baseDirectory (path : String) : String :=
  if path.isEmpty then "." else path

end MacroMarkup
