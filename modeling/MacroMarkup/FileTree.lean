import MacroMarkup.Text.Split

/-! Files and directories as a compilation finds them. -/
namespace MacroMarkup

/-- Why a file could not be read. -/
inductive IoError where
  | notFound
  | notADirectory
  | isADirectory
  | nameTooLong
  | nulInName
  | invalidText
  deriving DecidableEq, Repr, Inhabited

/-- The wording of the operating system, with its error number. -/
def IoError.message : IoError → String
  | notFound => "No such file or directory (os error 2)"
  | notADirectory => "Not a directory (os error 20)"
  | isADirectory => "Is a directory (os error 21)"
  | nameTooLong => "File name too long (os error 36)"
  | nulInName => "file name contained an unexpected NUL byte"
  | invalidText => "stream did not contain valid UTF-8"

/-- Files by their location, the names that lead to them from the root, and
the locations of directories that may hold no file. Paths that are not absolute
start at the working directory. -/
structure FileTree where
  workingDirectory : List String
  files : List (List String × ByteArray)
  directories : List (List String)

namespace FileTree

def empty (workingDirectory : List String) : FileTree :=
  { workingDirectory, files := [], directories := [] }

/-- What a file holds. -/
def content? (tree : FileTree) (location : List String) : Option ByteArray :=
  tree.files.lookup location

/-- A directory is what something known lies in. -/
def isDirectory (tree : FileTree) (location : List String) : Bool :=
  (tree.content? location).isNone &&
    (location.isPrefixOf tree.workingDirectory ||
      tree.directories.any location.isPrefixOf ||
      tree.files.any fun (file, _) => location.isPrefixOf file)

/-- One step of a walk. Only from a directory can a name be followed. -/
def step (tree : FileTree) (location : List String) (name : String) :
    Except IoError (List String) :=
  if !tree.isDirectory location then .error .notADirectory
  else if name = "" ∨ name = "." then .ok location
  else if name = ".." then .ok location.dropLast
  else if name.utf8ByteSize > 255 then .error .nameTooLong
  else
    let next := location ++ [name]
    if (tree.content? next).isSome || tree.isDirectory next then .ok next
    else .error .notFound

/-- The location a path leads to. However it is written, a file or directory
has one location. -/
def locate (tree : FileTree) (path : String) : Except IoError (List String) :=
  if path.toList.contains '\x00' then .error .nulInName
  else if path.isEmpty then .error .notFound
  else if path.utf8ByteSize ≥ 4096 then .error .nameTooLong
  else
    let names := (Text.splitAt '/' path.toList).map String.ofList
    let start := if path.toList.head? = some '/' then [] else tree.workingDirectory
    names.foldlM tree.step start

/-- The location of the file that a path leads to, if it leads to a file. -/
def locateFile? (tree : FileTree) (path : String) : Option (List String) :=
  match tree.locate path with
  | .ok location => if (tree.content? location).isSome then some location else none
  | .error _ => none

/-- The bytes of the file that a path leads to. -/
def readBytes (tree : FileTree) (path : String) : Except IoError ByteArray := do
  let location ← tree.locate path
  match tree.content? location with
  | some content => return content
  | none => throw .isADirectory

/-- The text of the file that a path leads to. -/
def readText (tree : FileTree) (path : String) : Except IoError String := do
  let content ← tree.readBytes path
  match String.fromUTF8? content with
  | some text => return text
  | none => throw .invalidText

end FileTree

end MacroMarkup
