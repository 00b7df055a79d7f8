/-! Places in a YAML text, and the classes of characters that structure it. -/
namespace MacroMarkup.Yaml

def isBlank (c : Char) : Bool :=
  c = ' ' || c = '\t'

def isBreak (c : Char) : Bool :=
  c = '\n' || c = '\r' || c = '\u0085' || c = '\u2028' || c = '\u2029'

/-- Characters of names: of anchors, tag handles and directives. -/
def isNameChar (c : Char) : Bool :=
  c.isAlphanum || c = '_' || c = '-'

/-- The characters that may stand in a YAML text at all. -/
def isAllowed (c : Char) : Bool :=
  let code := c.toNat
  code = 0x09 || code = 0x0A || code = 0x0D || (0x20 ≤ code && code ≤ 0x7E) ||
    code = 0x85 || (0xA0 ≤ code && code ≤ 0xD7FF) || (0xE000 ≤ code && code ≤ 0xFFFD) ||
    0x10000 ≤ code

/-- What remains of a text, with the index, line and column of its start. The
index counts bytes, and the column characters. -/
structure Place where
  rest : List Char
  index : Nat
  line : Nat
  column : Nat
  deriving Repr, Inhabited

namespace Place

def ofText (text : List Char) : Place :=
  { rest := text, index := 0, line := 0, column := 0 }

/-- The character `ahead` places on. -/
def peek (place : Place) (ahead : Nat) : Option Char :=
  place.rest[ahead]?

def startsWith (place : Place) (c : Char) : Bool :=
  place.peek 0 = some c

/-- Whether the character `ahead` places on passes a test. -/
def test (place : Place) (ahead : Nat) (passes : Char → Bool) : Bool :=
  (place.peek ahead).any passes

/-- Whether a blank, a line break or the end of the text stands `ahead` places
on. -/
def endsAt (place : Place) (ahead : Nat) : Bool :=
  (place.peek ahead).all fun c => isBlank c || isBreak c

/-- How many bytes characters take in UTF-8. -/
def byteCount (text : List Char) : Nat :=
  text.foldl (fun count c => count + c.utf8Size) 0

/-- The place `count` characters on in the same line. -/
def skip (place : Place) (count : Nat) : Place :=
  { rest := place.rest.drop count
    index := place.index + byteCount (place.rest.take count)
    line := place.line
    column := place.column + count }

/-- The characters up to the first that fails a test, in the same line. -/
def span (place : Place) (passes : Char → Bool) : List Char × Place :=
  let taken := place.rest.takeWhile passes
  (taken, place.skip taken.length)

/-- Reads a line break if one comes next. All breaks but two are the same; those
two separate lines or paragraphs and are kept. -/
def readBreak (place : Place) : List Char × Place :=
  match place.rest with
  | '\r' :: '\n' :: rest =>
    (['\n'], { rest, index := place.index + 2, line := place.line + 1, column := 0 })
  | c :: rest =>
    if isBreak c then
      (if c = '\u2028' ∨ c = '\u2029' then [c] else ['\n'],
        { rest, index := place.index + c.utf8Size, line := place.line + 1, column := 0 })
    else ([], place)
  | [] => ([], place)

/-- Reads to the end of the line, without the break. -/
def skipLine (place : Place) : Place :=
  (place.span (!isBreak ·)).2

/-- Skips a byte order mark at the start of a line. -/
def skipByteOrderMark (place : Place) : Place :=
  if place.column = 0 ∧ place.startsWith '\uFEFF' then place.skip 1 else place

/-- Whether a line of three equal marks starts here, which starts or ends a
document. -/
def isDocumentMark (place : Place) (mark : Char) : Bool :=
  place.column = 0 && [mark, mark, mark].isPrefixOf place.rest && place.endsAt 3

/-- Whether a document starts or ends here. -/
def isDocumentBoundary (place : Place) : Bool :=
  place.isDocumentMark '-' || place.isDocumentMark '.'

end Place

end MacroMarkup.Yaml
