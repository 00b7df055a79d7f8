import MacroMarkup.Compile
import MacroMarkup.Decimal.Shortest
import MacroMarkup.Json.Value

/-! Compiled documents as JSON data. -/
namespace MacroMarkup

/-- Why headers have no JSON form. -/
inductive JsonError where
  | keyNotAString
  | keyNotFinite
  deriving DecidableEq, Repr, Inhabited

def JsonError.message : JsonError → String
  | keyNotAString => "key must be a string"
  | keyNotFinite => "float key must be finite (got NaN or +/-inf)"

namespace Json

/-- A float. What is no finite number becomes null. -/
def ofFloat (bits : UInt64) : Json :=
  if Binary64.isFinite bits then number (Decimal.jsonNumber bits) else null

/-- The key of an entry, which is the text of a simple value. -/
def keyOf : Yaml.Value → Except JsonError String
  | .bool value => return if value then "true" else "false"
  | .int value => return toString value
  | .float bits =>
    if Binary64.isFinite bits then return Decimal.jsonNumber bits else throw .keyNotFinite
  | .string text => return text
  | _ => throw .keyNotAString

mutual

/-- A value of front matter. A tagged value becomes an object with the tag as
its only key. -/
def ofYaml : Yaml.Value → Except JsonError Json
  | .null => return null
  | .bool value => return bool value
  | .int value => return number (toString value)
  | .float bits => return ofFloat bits
  | .string text => return string text
  | .sequence items => return array (← ofYamlItems items)
  | .mapping entries => return object (← ofYamlEntries entries)
  | .tagged tag value => return object [("!" ++ tag, ← ofYaml value)]

def ofYamlItems : List Yaml.Value → Except JsonError (List Json)
  | [] => return []
  | item :: rest => do
    let item ← ofYaml item
    return item :: (← ofYamlItems rest)

def ofYamlEntries : List (Yaml.Value × Yaml.Value) → Except JsonError (List (String × Json))
  | [] => return []
  | (key, value) :: rest => do
    let key ← keyOf key
    let value ← ofYaml value
    return (key, value) :: (← ofYamlEntries rest)

end

/-- The headers, in their order. -/
def ofHeaders (headers : Yaml.Headers) : Except JsonError Json := do
  let entries ← headers.mapM fun (name, value) => do return (name, ← ofYaml value)
  return object entries

/-- A compiled document with its headers. -/
def ofOutput (output : Output) : Except JsonError Json := do
  let headers ← ofHeaders output.headers
  return object [("document", string output.document), ("headers", headers)]

end Json

end MacroMarkup
