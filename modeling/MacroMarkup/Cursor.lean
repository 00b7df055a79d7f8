/-! Positions inside a text. -/
namespace MacroMarkup

/-- A byte offset in the UTF-8 form of a text, with the zero-based row and
column that diagnostics name. A column counts characters. -/
structure Cursor where
  pos : Nat := 0
  row : Nat := 0
  col : Nat := 0
  deriving DecidableEq, Repr, Inhabited

namespace Cursor

/-- The start of a text. -/
def start : Cursor := {}

/-- The position after one more character. -/
def next (cursor : Cursor) (c : Char) : Cursor :=
  if c = '\n' then
    { pos := cursor.pos + c.utf8Size, row := cursor.row + 1, col := 0 }
  else
    { pos := cursor.pos + c.utf8Size, row := cursor.row, col := cursor.col + 1 }

/-- The position after a whole text. -/
def advance (cursor : Cursor) (text : List Char) : Cursor :=
  text.foldl next cursor

/-- The text from a byte offset on, `none` when the offset is past the end or
inside a character. -/
def dropBytes? : Nat → List Char → Option (List Char)
  | 0, text => some text
  | _ + 1, [] => none
  | offset + 1, c :: rest =>
    if c.utf8Size ≤ offset + 1 then dropBytes? (offset + 1 - c.utf8Size) rest else none

/-- The end of a document that the cursor walks. A cursor whose offset is no
boundary of the document stays where it is. -/
def toEnd (cursor : Cursor) (document : List Char) : Cursor :=
  match dropBytes? cursor.pos document with
  | some rest => cursor.advance rest
  | none => cursor

end Cursor

end MacroMarkup
