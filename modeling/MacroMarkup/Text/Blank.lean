/-! Blank characters, and trimming a text of them. Blankness is the Unicode
property White_Space; indentation, in contrast, counts spaces only. -/
namespace MacroMarkup.Text

/-- The 25 characters with the Unicode property White_Space. -/
def isBlank (c : Char) : Bool :=
  let code := c.toNat
  (9 ≤ code && code ≤ 13) || code == 0x20 || code == 0x85 || code == 0xA0 ||
    code == 0x1680 || (0x2000 ≤ code && code ≤ 0x200A) || code == 0x2028 ||
    code == 0x2029 || code == 0x202F || code == 0x205F || code == 0x3000

/-- A text without a visible character. -/
def isAllBlank (text : List Char) : Bool :=
  text.all isBlank

def trimStart (text : List Char) : List Char :=
  text.dropWhile isBlank

def trimEnd (text : List Char) : List Char :=
  (text.reverse.dropWhile isBlank).reverse

/-- The text without its leading and trailing blanks. -/
def trim (text : List Char) : List Char :=
  trimEnd (trimStart text)

/-- Trimming, for a value that is kept as a string. -/
def trimString (text : String) : String :=
  String.ofList (trim text.toList)

end MacroMarkup.Text
