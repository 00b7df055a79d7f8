import MacroMarkup.Cursor
import MacroMarkup.Text.Indent

/-! A place inside a text that is being read from left to right. -/
namespace MacroMarkup

/-- A text split at the place reached: what was read, nearest character first,
and what remains. The cursor is the position of the split. -/
structure Reader where
  before : List Char
  rest : List Char
  cursor : Cursor
  deriving DecidableEq, Repr

namespace Reader

def ofText (text : String) : Reader :=
  { before := [], rest := text.toList, cursor := Cursor.start }

/-- The whole text, wherever the split stands. -/
def document (reader : Reader) : List Char :=
  reader.before.reverse ++ reader.rest

def atEnd (reader : Reader) : Bool :=
  reader.rest.isEmpty

/-- Reading one character; at the end there is none to read. -/
def next (reader : Reader) : Reader :=
  match reader.rest with
  | [] => reader
  | c :: rest => { before := c :: reader.before, rest, cursor := reader.cursor.next c }

/-- Reading `count` characters, fewer if the text ends before. -/
def advance : Nat → Reader → Reader
  | 0, reader => reader
  | count + 1, reader => advance count reader.next

/-- Reading all that remains. -/
def toEnd (reader : Reader) : Reader :=
  reader.advance reader.rest.length

/-- The row that holds the place reached, up to the end of the text. -/
def currentRow (reader : Reader) : List Char :=
  (reader.before.takeWhile (· ≠ '\n')).reverse ++ reader.rest

/-- Indentation of the row that holds the place reached. -/
def indent (reader : Reader) : Nat :=
  Text.indentOf reader.currentRow

end Reader

end MacroMarkup
