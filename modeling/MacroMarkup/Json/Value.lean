/-! Values of JSON data and their text, with every entry on a line of its own. -/
namespace MacroMarkup

/-- A value of JSON data. A number is kept as the text that writes it. Objects
keep the order of their entries. -/
inductive Json where
  | null
  | bool (value : Bool)
  | number (text : String)
  | string (text : String)
  | array (items : List Json)
  | object (entries : List (String × Json))
  deriving Repr, Inhabited

namespace Json

/-- A digit of base sixteen. -/
def hexDigit (value : Nat) : Char :=
  Nat.digitChar (value % 16)

/-- A character as it stands between quotes. Only quotes, backslashes and
control characters need an escape. -/
def escape (c : Char) : List Char :=
  match c with
  | '"' => ['\\', '"']
  | '\\' => ['\\', '\\']
  | '\n' => ['\\', 'n']
  | '\r' => ['\\', 'r']
  | '\t' => ['\\', 't']
  | '\x08' => ['\\', 'b']
  | '\x0c' => ['\\', 'f']
  | _ =>
    if c.toNat < 0x20 then ['\\', 'u', '0', '0', hexDigit (c.toNat / 16), hexDigit c.toNat]
    else [c]

def quoted (text : String) : List Char :=
  '"' :: text.toList.flatMap escape ++ ['"']

/-- The start of a line inside `depth` collections. -/
def newLine (depth : Nat) : List Char :=
  '\n' :: List.replicate (2 * depth) ' '

mutual

/-- The text of a value that stands inside `depth` collections. An empty
collection takes one line. -/
def layout (depth : Nat) : Json → List Char
  | null => "null".toList
  | bool value => if value then "true".toList else "false".toList
  | number text => text.toList
  | string text => quoted text
  | array [] => "[]".toList
  | array (item :: rest) =>
    '[' :: newLine (depth + 1) ++ layout (depth + 1) item ++ layoutItems (depth + 1) rest ++
      newLine depth ++ [']']
  | object [] => ['\x7b', '\x7d']
  | object ((key, value) :: rest) =>
    '\x7b' :: newLine (depth + 1) ++ quoted key ++ ": ".toList ++ layout (depth + 1) value ++
      layoutEntries (depth + 1) rest ++ newLine depth ++ ['\x7d']

/-- The items behind the first. -/
def layoutItems (depth : Nat) : List Json → List Char
  | [] => []
  | item :: rest => ',' :: newLine depth ++ layout depth item ++ layoutItems depth rest

/-- The entries behind the first. -/
def layoutEntries (depth : Nat) : List (String × Json) → List Char
  | [] => []
  | (key, value) :: rest =>
    ',' :: newLine depth ++ quoted key ++ ": ".toList ++ layout depth value ++
      layoutEntries depth rest

end

/-- The text of a value. -/
def text (value : Json) : String :=
  String.ofList (value.layout 0)

end Json

end MacroMarkup
