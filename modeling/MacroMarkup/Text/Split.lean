/-! Cutting a text at a separator, and finding one text inside another. -/
namespace MacroMarkup.Text

/-- The pieces of a text between the occurrences of a separator. A text
without the separator is its own single piece, so there is always one. -/
def splitAt (separator : Char) : List Char → List (List Char)
  | [] => [[]]
  | c :: rest =>
    match splitAt separator rest with
    | [] => [[c]]
    | piece :: more => if c = separator then [] :: piece :: more else (c :: piece) :: more

/-- The rows of a text: its pieces between line breaks. -/
def rows (text : List Char) : List (List Char) :=
  splitAt '\n' text

/-- The text with the given rows. -/
def ofRows (rows : List (List Char)) : List Char :=
  ['\n'].intercalate rows

theorem splitAt_ne_nil (separator : Char) (text : List Char) : splitAt separator text ≠ [] := by
  cases text with
  | nil => simp [splitAt]
  | cons c rest =>
    simp only [splitAt]
    split
    · simp
    · split <;> simp

/-- What stands before and after the first occurrence of a character. -/
def splitOnce? (separator : Char) : List Char → Option (List Char × List Char)
  | [] => none
  | c :: rest =>
    if c = separator then some ([], rest)
    else (splitOnce? separator rest).map fun (left, right) => (c :: left, right)

/-- What a text holds before the first occurrence of a marker, `none` when the
marker does not occur. The empty marker occurs at the start. -/
def before? (marker : List Char) : List Char → Option (List Char)
  | [] => if marker.isPrefixOf [] then some [] else none
  | c :: rest =>
    if marker.isPrefixOf (c :: rest) then some []
    else (before? marker rest).map (c :: ·)

/-- The text without the line break it starts with, if any. -/
def dropLineBreak : List Char → List Char
  | '\n' :: rest => rest
  | text => text

end MacroMarkup.Text
