import MacroMarkup.CommandLine.Run

/-! The program: it takes the files there are as they stand, answers its command
line, and writes the answer. -/
namespace MacroMarkup.Main

/-- The names that lead from the root to a path. -/
def location (components : List String) : List String :=
  components.filter (¬ ·.isEmpty)

/-- Adds a directory with everything in it. What cannot be read is left out. -/
def addDirectory (tree : FileTree) (directory : String) : IO FileTree := do
  let .ok root ← (IO.FS.realPath directory).toBaseIO | return tree
  let .ok paths ← root.walkDir.toBaseIO | return tree
  let start := { tree with directories := tree.directories ++ [location root.components] }
  paths.foldlM
    (fun tree path => do
      let place := location path.components
      if ← path.isDir then return { tree with directories := tree.directories ++ [place] }
      else
        match ← (IO.FS.readBinFile path).toBaseIO with
        | .ok content => return { tree with files := tree.files ++ [(place, content)] }
        | .error _ => return tree)
    start

/-- Whether a path leads to a directory that was added. -/
def isKnown (tree : FileTree) (path : String) : Bool :=
  match tree.locate path with
  | .ok place => tree.directories.contains place
  | .error _ => false

/-- Adds the directories that are not known yet. -/
def addDirectories (tree : FileTree) (paths : List String) : IO FileTree :=
  paths.foldlM
    (fun tree path => if isKnown tree path then return tree else addDirectory tree path)
    tree

/-- The files that a command line may need: those in the working directory, next
to the files it names, and in the directories where libraries are looked for. -/
def filesFor (words : List String) : IO FileTree := do
  let current ← IO.currentDir
  let tree ← addDirectory (FileTree.empty (location current.components)) "."
  match CommandLine.Arguments.ofWords words with
  | .error _ => return tree
  | .ok arguments =>
    let named := (arguments.document :: arguments.config.toList).filterMap Path.parent?
    let tree ← addDirectories tree named
    match arguments.settings tree with
    | .ok settings => addDirectories tree settings.options.includePath
    | .error _ => return tree

end MacroMarkup.Main

def main (words : List String) : IO UInt32 := do
  let answer := MacroMarkup.CommandLine.run (← MacroMarkup.Main.filesFor words) words
  IO.print answer.output
  IO.eprint answer.errors
  return UInt32.ofNat answer.code
