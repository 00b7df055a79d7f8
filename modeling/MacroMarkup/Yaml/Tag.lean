/-! What the tags of a YAML document mean. -/
namespace MacroMarkup.Yaml

/-- What a tag says of its node. A tag of the document's own wraps the value,
one of the core kinds fixes the kind of a scalar, and a foreign tag makes a
scalar a string. An own tag whose name is no text has no effect. -/
inductive Tag where
  | own (name : String)
  | nameless
  | bool
  | int
  | float
  | null
  | foreign
  deriving DecidableEq, Repr, Inhabited

namespace Tag

/-- The name without an exclamation mark before it, unless there is nothing
else. -/
def ownName (text : String) : String :=
  match text.toList with
  | '!' :: c :: rest => String.ofList (c :: rest)
  | _ => text

/-- A tag by its bytes. An own tag starts with an exclamation mark, which is its
name if nothing follows. -/
def ofBytes (bytes : List UInt8) : Tag :=
  match bytes with
  | 0x21 :: rest =>
    match String.fromUTF8? (if rest.isEmpty then bytes else rest).toByteArray with
    | some text => own (ownName text)
    | none => nameless
  | _ =>
    match String.fromUTF8? bytes.toByteArray with
    | some "tag:yaml.org,2002:bool" => bool
    | some "tag:yaml.org,2002:int" => int
    | some "tag:yaml.org,2002:float" => float
    | some "tag:yaml.org,2002:null" => null
    | _ => foreign

/-- The name of a tag of the document's own. -/
def name? : Tag → Option String
  | own name => some name
  | _ => none

end Tag

end MacroMarkup.Yaml
