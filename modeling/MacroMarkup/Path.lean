import MacroMarkup.Text.Split

/-! Paths as they are written: names between slashes. Joining and taking apart
keep the spelling, so that an answer shows the path a lookup really built. -/
namespace MacroMarkup.Path

def isAbsolute (path : String) : Bool :=
  "/".toList.isPrefixOf path.toList

/-- A path behind a directory. A slash is put between them unless one is there
or the directory is empty. An absolute path stands for itself. -/
def join (directory path : String) : String :=
  if isAbsolute path then path
  else if directory.isEmpty ∨ directory.toList.getLast? = some '/' then directory ++ path
  else directory ++ "/" ++ path

/-- The part of a path that names where it starts: the slash of an absolute
path, or a single dot that is the whole first name. -/
def anchor : List Char → Option Char
  | '/' :: _ => some '/'
  | ['.'] => some '.'
  | '.' :: '/' :: _ => some '.'
  | _ => none

/-- The path behind its anchor. -/
def body (path : List Char) : List Char :=
  if (anchor path).isSome then path.drop 1 else path

/-- The names of a path's body, from the last to the first. Empty names and
single dots are among them. -/
def namesFromLast (path : List Char) : List (List Char) :=
  (Text.splitAt '/' (body path)).reverse

/-- Names that lead nowhere else: an empty one and a single dot. -/
def isIdle (name : List Char) : Bool :=
  name = [] || name = ['.']

/-- The path whose body has the given names, which are given from the last. -/
def withNames (path : List Char) (names : List (List Char)) : List Char :=
  (anchor path).toList ++ ['/'].intercalate names.reverse

/-- The last name that leads somewhere, and the path before it. Idle names at
the end do not count. -/
def splitLast? (path : List Char) : Option (List Char × List Char) :=
  match (namesFromLast path).dropWhile isIdle with
  | [] => none
  | name :: before => some (name, withNames path (before.dropWhile isIdle))

/-- The path without the idle names at its end. -/
def dropIdleEnd (path : String) : String :=
  String.ofList (withNames path.toList ((namesFromLast path.toList).dropWhile isIdle))

/-- The last name of a path, unless it leads up or there is none. -/
def fileName? (path : String) : Option String :=
  match splitLast? path.toList with
  | some (name, _) => if name = ['.', '.'] then none else some (String.ofList name)
  | none => none

/-- The directory that the last name of a path stands in, as far as the path
tells. The root has none, and neither has the empty path. -/
def parent? (path : String) : Option String :=
  match splitLast? path.toList with
  | some (_, before) => some (String.ofList before)
  | none => if anchor path.toList = some '.' then some "" else none

/-- What follows the last dot of the file name. A dot that starts the name does
not count. -/
def extension? (path : String) : Option String := do
  let name ← fileName? path
  let (after, before) := name.toList.reverse.span (· ≠ '.')
  match before with
  | [] => none
  | [_] => none
  | _ :: _ => some (String.ofList after.reverse)

end MacroMarkup.Path
