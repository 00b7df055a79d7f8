/-! Values of front matter. -/
namespace MacroMarkup.Yaml

/-- A value of a YAML document. A float is kept as the bits of its binary64
form, so that equality of values is decidable. Mappings keep their order. -/
inductive Value where
  | null
  | bool (value : Bool)
  | int (value : Int)
  | float (bits : UInt64)
  | string (text : String)
  | sequence (items : List Value)
  | mapping (entries : List (Value × Value))
  | tagged (tag : String) (value : Value)
  deriving Repr, Inhabited

/-- The top level of front matter: keys with their values, sorted by key. -/
abbrev Headers := List (String × Value)

end MacroMarkup.Yaml
