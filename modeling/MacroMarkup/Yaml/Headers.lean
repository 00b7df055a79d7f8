import MacroMarkup.Yaml.Node
import MacroMarkup.Yaml.Scalar

/-! The values of a YAML document, and the headers that its top level gives. -/
namespace MacroMarkup.Yaml

mutual

/-- Equality of values as keys: numbers are equal by their value within their
kind, and mappings whatever the order of their entries. -/
def Value.same : Value → Value → Bool
  | .null, .null => true
  | .bool left, .bool right => left == right
  | .int left, .int right => left == right
  | .float left, .float right => Binary64.sameNumber left right
  | .string left, .string right => left == right
  | .sequence left, .sequence right => Value.sameItems left right
  | .mapping left, .mapping right =>
    left.length == right.length && Value.sameEntries left right
  | .tagged left value, .tagged right other => left == right && Value.same value other
  | _, _ => false

def Value.sameItems : List Value → List Value → Bool
  | [], [] => true
  | left :: lefts, right :: rights => Value.same left right && Value.sameItems lefts rights
  | _, _ => false

/-- Whether every entry of the first list is among those of the second. -/
def Value.sameEntries : List (Value × Value) → List (Value × Value) → Bool
  | [], _ => true
  | (key, value) :: rest, others =>
    others.any (fun (other, found) => Value.same key other && Value.same value found) &&
      Value.sameEntries rest others

end

/-- Composition of values counts how often it followed an alias. -/
abbrev Compose := StateT Nat (Except String)

/-- The node that an alias stands for. A document that follows aliases out of
proportion to its size is refused. -/
def followAlias (document : Document) (number : Nat) : Compose Node := do
  let count ← modifyGet fun count => (count + 1, count + 1)
  if document.events * 100 < count then throw "repetition limit exceeded"
  match document.anchored number with
  | some node => return node
  | none => throw "unknown anchor"

/-- What the tag of a node says, if it has one. -/
def Node.tag? : Node → Option Tag
  | .alias _ => none
  | .scalar tag _ _ => tag
  | .sequence tag _ => tag
  | .mapping tag _ => tag

/-- The entries of a mapping, in order, where no key may come twice. -/
def composeEntries (child : Node → Compose Value) :
    List (Node × Node) → List (Value × Value) → Compose (List (Value × Value))
  | [], found => return found.reverse
  | (keyNode, valueNode) :: rest, found => do
    let key ← child keyNode
    if found.any fun (other, _) => Value.same other key then throw "duplicate entry"
    let value ← child valueNode
    composeEntries child rest ((key, value) :: found)

/-- What a node contains. `child` composes the nodes inside a collection; there
is none where the nesting is as deep as it may be. -/
def composeContents (child : Option (Node → Compose Value)) : Node → Compose Value
  | .alias _ => throw "alias of an alias"
  | .scalar tag text plain => scalarValue tag text plain
  | .sequence _ items =>
    match child with
    | some child => return .sequence (← items.mapM child)
    | none => throw "recursion limit exceeded"
  | .mapping _ entries =>
    match child with
    | some child => return .mapping (← composeEntries child entries [])
    | none => throw "recursion limit exceeded"

/-- The value of a node that is no alias, in the document's own tag if it has
one. -/
def composeNode (child : Option (Node → Compose Value)) (node : Node) : Compose Value := do
  let value ← composeContents child node
  match node.tag?.bind Tag.name? with
  | some name => return .tagged name value
  | none => return value

/-- The value of a node with up to `depth` levels of collections in it. -/
def compose (document : Document) : Nat → Node → Compose Value
  | depth, node => do
    let child : Option (Node → Compose Value) := match depth with
      | 0 => none
      | depth + 1 => some (compose document depth)
    match node with
    | .alias number => composeNode child (← followAlias document number)
    | _ => composeNode child node

/-- A header's name, which has to be a scalar and is read as a string. -/
def headerName (document : Document) : Node → Compose String
  | .scalar _ text _ => return text
  | .alias number => do
    match ← followAlias document number with
    | .scalar _ text _ => return text
    | _ => throw "invalid type, expected a string"
  | _ => throw "invalid type, expected a string"

/-- How deep collections may be nested. -/
def depthLimit : Nat := 128

/-- Adds a header in the order of names, replacing one of the same name. -/
def insertHeader (name : String) (value : Value) : Headers → Headers
  | [] => [(name, value)]
  | (other, held) :: rest =>
    if name = other then (name, value) :: rest
    else if name < other then (name, value) :: (other, held) :: rest
    else (other, held) :: insertHeader name value rest

/-- The headers that the entries of the top level give. -/
def headersOf (document : Document) (entries : List (Node × Node)) : Compose Headers :=
  entries.foldlM
    (fun headers (key, value) => do
      let name ← headerName document key
      let value ← compose document (depthLimit - 1) value
      return insertHeader name value headers)
    []

/-- The headers that a YAML text gives: its top level is a mapping, or there is
nothing in it. -/
def readHeaders (text : List Char) : Except String Headers := do
  match ← Document.ofText? text with
  | none => return []
  | some document =>
    match document.root with
    | .mapping _ entries => return (← (headersOf document entries).run 0).1
    | .scalar _ text plain =>
      if text.isEmpty && plain then return []
      else throw "invalid type, expected a map"
    | _ => throw "invalid type, expected a map"

end MacroMarkup.Yaml
