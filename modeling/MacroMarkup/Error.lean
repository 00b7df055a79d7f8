import MacroMarkup.Evaluator
import MacroMarkup.Text.Split

/-! Why a compilation fails, where, and how that is shown. Every failure is
fatal to the compilation it occurs in. -/
namespace MacroMarkup

inductive ErrorCause where
  | headerUnterminated
  | headerParse (reason : String)
  | expectedBeginMarker (marker : String)
  | expectedEndMarker (marker : String)
  | unexpectedBeginMarker (marker : String)
  | unexpectedEndMarker (marker : String)
  | outdented (indent : Nat)
  | recursionLimitExceeded (limit : Nat)
  | unknownFunction
  | expectedLineBreak
  | missingDefMarker
  | tooManyDefMarkers
  | conflictLanguage
  | conflictMode
  | conflictBreak
  | forbidChar (name : String)
  | unknownParameter (token : String)
  | conflictCode
  | paramMismatch
  | unknownEnvironment (name : String)
  | tooFewArgs
  | lastMustVerbatim
  | environmentExpectedLineBreak
  | fileNotFound (name : String)
  | io (message : String)
  | evaluation (error : EvalError)
  deriving DecidableEq, Repr, Inhabited

def ErrorCause.message : ErrorCause → String
  | headerUnterminated => "expected front matter's end marker"
  | headerParse reason => "failed to parse yaml front matter, reason:\n" ++ reason
  | expectedBeginMarker marker => "expected '" ++ marker ++ "' before scope"
  | expectedEndMarker marker => "expected '" ++ marker ++ "' at end of input"
  | unexpectedBeginMarker marker => "unexpected '" ++ marker ++ "' opening"
  | unexpectedEndMarker marker => "unexpected '" ++ marker ++ "' closing"
  | outdented indent => "outdented scope, expected indentation > " ++ toString indent
  | recursionLimitExceeded limit =>
    "macro expansion nested deeper than " ++ toString limit ++ " levels"
  | unknownFunction => "no suitable function found"
  | expectedLineBreak => "expected immediate line break after command"
  | missingDefMarker => "expected ':' in function definition"
  | tooManyDefMarkers => "unexpected ':' after function name"
  | conflictLanguage => "conflicting language definition"
  | conflictMode => "conflicting function type"
  | conflictBreak => "conflicting autobreak mode"
  | forbidChar name => "forbidden character in argument '" ++ name ++ "'"
  | unknownParameter token => "unknown parameter '" ++ token ++ "'"
  | conflictCode => "redefinition of the same function"
  | paramMismatch => "parameters differ between function definitions"
  | unknownEnvironment name => "no suitable environment found for '" ++ name ++ "'"
  | tooFewArgs => "too few arguments taken"
  | lastMustVerbatim => "the last argument must be verbatim"
  | environmentExpectedLineBreak => "expected line break"
  | fileNotFound name => "described library '" ++ name ++ "' does not exist"
  | io message => "IO error: " ++ message
  | evaluation error => error.message

/-- A failure with the document and the zero-based place it was found at. -/
structure LocatedError where
  file : String
  path : String
  row : Nat
  col : Nat
  cause : ErrorCause
  deriving DecidableEq, Repr, Inhabited

namespace Excerpt

/-- The lines of a text as a person counts them: a final line break starts no
further line, and a carriage return before a line break is not shown. -/
def lines (text : String) : List (List Char) :=
  let rows := Text.rows text.toList
  let ended := rows.dropLast.map trimReturn
  match rows.getLastD [] with
  | [] => ended
  | unended => ended ++ [unended]
where
  trimReturn (row : List Char) : List Char :=
    if row.getLast? = some '\r' then row.dropLast else row

/-- A line number, right-aligned to three places. -/
def lineNumber (number : Nat) : String :=
  let digits := toString number
  String.ofList (List.replicate (3 - digits.length) ' ') ++ digits

/-- One line of the excerpt, marked when it is the line of the error. -/
def line (errorRow row : Nat) (text : List Char) : String :=
  (if row = errorRow then ">>" else "  ") ++ " " ++ lineNumber (row + 1) ++ " | " ++
    String.ofList text ++ "\n"

end Excerpt

/-- The lines around a row, numbered from one: the row itself, which is marked,
and up to two on either side. -/
def excerpt (text : String) (errorRow : Nat) : String :=
  let first := errorRow - 2
  let shown := ((Excerpt.lines text).zipIdx.take (errorRow + 3)).drop first
  String.join (shown.map fun (content, row) => Excerpt.line errorRow row content)

namespace LocatedError

/-- The document's name behind its directory. -/
def location (error : LocatedError) : String :=
  if error.path.isEmpty then error.file
  else
    let directory := (error.path.toList.reverse.dropWhile (· = '/')).reverse
    String.ofList directory ++ "/" ++ error.file

/-- The place, counted from one, and what went wrong there. -/
def message (error : LocatedError) : String :=
  error.location ++ ":" ++ toString (error.row + 1) ++ ":" ++ toString (error.col + 1) ++
    ": " ++ error.cause.message

/-- The message followed by the lines of the source around the place. -/
def report (error : LocatedError) (text : String) : String :=
  error.message ++ "\n\n" ++ excerpt text error.row

end LocatedError

end MacroMarkup
