import MacroMarkup.Error
import MacroMarkup.Source
import MacroMarkup.Text.Blank
import MacroMarkup.Yaml.Headers

/-! Front matter: a block of headers at the start of a document, between two
fences. Its rows are emptied and not removed, so that all later rows keep their
numbers. -/
namespace MacroMarkup.FrontMatter

/-- A row of three or more dashes and nothing else. -/
def isFence (row : List Char) : Bool :=
  3 ≤ row.length && row.all (· = '-')

/-- A document's rows: those before the opening fence, the header between the
fences, and those after the closing fence. -/
structure Parts where
  before : List (List Char)
  header : List (List Char)
  after : List (List Char)
  deriving Repr

/-- The parts of a document that opens with a fence, `none` for any other. Only
blank rows may come before the fence. The error is that no later row closes the
header. -/
def parts? (rows : List (List Char)) : Except Unit (Option Parts) :=
  let (before, rest) := rows.span Text.isAllBlank
  match rest with
  | [] => .ok none
  | fence :: rest =>
    if isFence fence then
      let (header, rest) := rest.span (!isFence ·)
      match rest with
      | [] => .error ()
      | _ :: after => .ok (some { before, header, after })
    else .ok none

/-- The text of the document with both fences and the header emptied. -/
def Parts.body (parts : Parts) : List Char :=
  Text.ofRows (parts.before ++ List.replicate (parts.header.length + 2) [] ++ parts.after)

/-- The headers and the text of a document, with a given reader of headers. A
header of blank rows holds no headers. -/
def extractWith {Headers : Type} [EmptyCollection Headers]
    (read : List Char → Except String Headers) (source : Source) :
    Except LocatedError (Headers × String) :=
  let rows := Text.rows source.text.toList
  let fail (row : Nat) (cause : ErrorCause) : Except LocatedError (Headers × String) :=
    .error { file := source.filename, path := source.path, row, col := 0, cause }
  match parts? rows with
  | .error () => fail (rows.length - 1) .headerUnterminated
  | .ok none => .ok (∅, source.text)
  | .ok (some parts) =>
    let header := Text.ofRows parts.header
    let body := String.ofList parts.body
    if Text.isAllBlank header then .ok (∅, body)
    else match read header with
      | .ok headers => .ok (headers, body)
      | .error reason => fail (parts.before.length + 1) (.headerParse reason)

/-- The headers and the text of a document whose headers are YAML. -/
def extract (source : Source) : Except LocatedError (Yaml.Headers × String) :=
  extractWith Yaml.readHeaders source

end MacroMarkup.FrontMatter
