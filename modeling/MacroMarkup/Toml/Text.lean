import MacroMarkup.Decimal.Notation

/-! Reading of a TOML text from left to right: blanks, comments, and strings. -/
namespace MacroMarkup.Toml

/-- Computations that read a text. The state is what remains of it. -/
abbrev Read := StateT (List Char) (Except String)

namespace Read

def peek : Read (Option Char) := do
  return (← get).head?

/-- Takes all characters up to the first that fails a test. -/
def takeWhile (test : Char → Bool) : Read (List Char) := do
  let (taken, rest) := (← get).span test
  set rest
  return taken

/-- Takes a text if it comes next, and says whether it did. -/
def takeIf (expected : List Char) : Read Bool := do
  let text ← get
  if expected.isPrefixOf text then
    set (text.drop expected.length)
    return true
  else return false

def expect (expected : List Char) : Read Unit := do
  if !(← takeIf expected) then throw ("expected " ++ String.ofList expected)

def skipBlanks : Read Unit := do
  let _ ← takeWhile fun c => c = ' ' || c = '\t'

/-- Takes a line break if one comes next, and says whether it did. -/
def takeLineBreak : Read Bool := do
  if ← takeIf ['\n'] then return true else takeIf ['\r', '\n']

/-- Characters of a comment, and of a string but for its quotes and escapes. -/
def isTextChar (c : Char) : Bool :=
  c = '\t' || (0x20 ≤ c.toNat && c.toNat ≤ 0x7E) || 0x80 ≤ c.toNat

def skipComment : Read Unit := do
  if ← takeIf ['#'] then
    let _ ← takeWhile isTextChar

/-- Skips blanks, comments and line breaks. -/
def skipLines : Nat → Read Unit
  | 0 => return ()
  | fuel + 1 => do
    skipBlanks
    skipComment
    if ← takeLineBreak then skipLines fuel

/-- What may follow on a line: a comment, and then the line's end. -/
def expectLineEnd : Read Unit := do
  skipBlanks
  skipComment
  if (← peek).isSome then
    if !(← takeLineBreak) then throw "expected newline, `#`"

/-- The character whose code is written in `count` digits. -/
def escapedCode (count : Nat) : Read Char := do
  let digits := (← get).take count
  modify (·.drop count)
  if digits.length < count then throw "invalid unicode digits"
  match Decimal.natural? 16 digits with
  | some code =>
    if code.isValidChar then return Char.ofNat code else throw "value is out of range"
  | none => throw "invalid unicode digits"

/-- The character that an escape stands for, behind its backslash. -/
def escape : Read Char := do
  let some c ← peek | throw "invalid escape sequence"
  modify (·.drop 1)
  match c with
  | 'b' => return '\x08'
  | 'f' => return '\x0C'
  | 'n' => return '\n'
  | 'r' => return '\r'
  | 't' => return '\t'
  | 'u' => escapedCode 4
  | 'U' => escapedCode 8
  | '\\' => return '\\'
  | '"' => return '"'
  | _ => throw "invalid escape sequence"

/-- The rest of a string in double quotes, after what was read of it. -/
def basicString : Nat → List Char → Read String
  | 0, _ => throw "invalid basic string"
  | fuel + 1, text => do
    let piece ← takeWhile fun c => isTextChar c && c ≠ '"' && c ≠ '\\'
    let text := text ++ piece
    if ← takeIf ['"'] then return String.ofList text
    if ← takeIf ['\\'] then basicString fuel (text ++ [← escape])
    else throw "invalid basic string"

/-- The rest of a string in single quotes. -/
def literalString : Read String := do
  let text ← takeWhile fun c => isTextChar c && c ≠ '\''
  expect ['\'']
  return String.ofList text

/-- Takes the quotes that come next in a string of several lines. Three of them
end it, where up to two more belong to the text; fewer are text. The result is
the text and whether the string ended. -/
def quotes (quote : Char) : Read (List Char × Bool) := do
  let count := ((← get).takeWhile (· = quote)).length
  if count < 3 then
    modify (·.drop count)
    return (List.replicate count quote, false)
  else
    let extra := min (count - 3) 2
    modify (·.drop (3 + extra))
    return (List.replicate extra quote, true)

/-- Skips blanks and line breaks behind an escaped line break. -/
def skipEscapedLines : Nat → Read Unit
  | 0 => return ()
  | fuel + 1 => do
    skipBlanks
    if ← takeLineBreak then skipEscapedLines fuel

/-- An escape in a string of several lines: of a line break, which is dropped
with all blanks around it, or of a character. -/
def lineEscape (fuel : Nat) : Read (List Char) := do
  let text ← get
  skipBlanks
  if ← takeLineBreak then
    skipEscapedLines fuel
    return []
  else
    set text
    return [← escape]

/-- The rest of a string of several lines. Line breaks are all the same in it;
only in double quotes a backslash starts an escape. -/
def multilineString (quote : Char) : Nat → List Char → Read String
  | 0, _ => throw "invalid multiline string"
  | fuel + 1, text => do
    let piece ← takeWhile fun c => isTextChar c && c ≠ quote && !(quote = '"' && c = '\\')
    let text := text ++ piece
    match ← peek with
    | none => throw "invalid multiline string"
    | some c =>
      if c = quote then
        let (more, ended) ← quotes quote
        if ended then return String.ofList (text ++ more)
        else multilineString quote fuel (text ++ more)
      else if c = '\\' then
        modify (·.drop 1)
        multilineString quote fuel (text ++ (← lineEscape fuel))
      else if ← takeLineBreak then multilineString quote fuel (text ++ ['\n'])
      else throw "invalid multiline string"

/-- A string in one line, if a quote comes next. -/
def shortString? (fuel : Nat) : Read (Option String) := do
  if ← takeIf ['"'] then return some (← basicString fuel [])
  else if ← takeIf ['\''] then return some (← literalString)
  else return none

/-- A string of any kind, if a quote comes next. A line break right behind the
opening quotes of several lines is dropped. -/
def string? (fuel : Nat) : Read (Option String) := do
  if ← takeIf ['"', '"', '"'] then
    let _ ← takeLineBreak
    return some (← multilineString '"' fuel [])
  else if ← takeIf ['\'', '\'', '\''] then
    let _ ← takeLineBreak
    return some (← multilineString '\'' fuel [])
  else shortString? fuel

/-- Characters of a key without quotes. -/
def isKeyChar (c : Char) : Bool :=
  c.isAlphanum || c = '_' || c = '-'

/-- One name of a key. -/
def keyName (fuel : Nat) : Read String := do
  match ← shortString? fuel with
  | some name => return name
  | none =>
    let name ← takeWhile isKeyChar
    if name.isEmpty then throw "invalid key"
    return String.ofList name

/-- A key: names with dots between them. The last one is given by itself. -/
def key : Nat → Read (List String × String)
  | 0 => throw "recursion limit exceeded"
  | fuel + 1 => do
    skipBlanks
    let name ← keyName ((← get).length + 1)
    skipBlanks
    if ← takeIf ['.'] then
      let (path, last) ← key fuel
      return (name :: path, last)
    else return ([], name)

end Read

end MacroMarkup.Toml
