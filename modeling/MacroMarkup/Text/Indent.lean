import MacroMarkup.Text.Blank
import MacroMarkup.Text.Split

/-! Indentation of the rows of a text. Only spaces indent; a row is blank when
it holds nothing but blank characters of any kind. -/
namespace MacroMarkup.Text

/-- The number of leading spaces. -/
def indentOf (row : List Char) : Nat :=
  (row.takeWhile (· = ' ')).length

/-- The least indentation among the rows that are not blank. -/
def blockIndent (text : List Char) : Option Nat :=
  (((rows text).filter fun row => !isAllBlank row).map indentOf).min?

/-- The row without at most `count` of its leading spaces. -/
def stripRow (count : Nat) (row : List Char) : List Char :=
  row.drop (min (indentOf row) count)

/-- The text with up to `count` leading spaces removed from every row. -/
def stripIndent (text : List Char) (count : Nat) : List Char :=
  ofRows ((rows text).map (stripRow count))

end MacroMarkup.Text
