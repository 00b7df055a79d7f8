import MacroMarkup.FileTree
import MacroMarkup.Source

/-! Libraries: where the file behind a name is looked for. -/
namespace MacroMarkup

/-- The settings of a compilation. -/
structure Options where
  includePath : List String := ["."]
  extensions : List String := ["ctx", "tex", "sty"]
  maxDepth : Nat := 128
  preload : List String := []
  deriving DecidableEq, Repr, Inhabited

namespace Library

/-- The file names to try for a library: its name as it is if that has a known
extension, then its name with each extension. -/
def candidateNames (options : Options) (name : String) : List String :=
  let known := match Path.extension? name with
    | some extension => options.extensions.contains extension
    | none => false
  (if known then [name] else []) ++
    options.extensions.map fun extension => name ++ "." ++ extension

/-- The directories to search for a document in `base`. A relative directory
is taken from there first, then from the working directory. -/
def searchDirectories (options : Options) (base : String) : List String :=
  options.includePath.flatMap fun directory =>
    if Path.isAbsolute directory then [directory] else [Path.join base directory, directory]

/-- Every path to try, in order. -/
def candidates (options : Options) (base name : String) : List String :=
  (searchDirectories options base).flatMap fun directory =>
    (candidateNames options name).map (Path.join directory)

/-- The first candidate that is a file, as its path and its location. -/
def resolve? (tree : FileTree) (options : Options) (base name : String) :
    Option (String × List String) :=
  (candidates options base name).findSome? fun path =>
    (tree.locateFile? path).map (path, ·)

end Library

end MacroMarkup
