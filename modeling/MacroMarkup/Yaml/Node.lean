import MacroMarkup.Yaml.Lexer
import MacroMarkup.Yaml.Tag

/-! The tree of a YAML document, with its tags expanded and its anchors
resolved to numbers. -/
namespace MacroMarkup.Yaml

/-- A node of a document. An alias names the anchored node by a number. -/
inductive Node where
  | alias (target : Nat)
  | scalar (tag : Option Tag) (text : String) (plain : Bool)
  | sequence (tag : Option Tag) (items : List Node)
  | mapping (tag : Option Tag) (entries : List (Node × Node))
  deriving Repr, Inhabited

/-- What is attached to a node before its contents. -/
structure Properties where
  anchor : Option String := none
  tag : Option (String × List UInt8) := none
  deriving Repr, Inhabited

/-- The state of reading: the tokens that remain, what tag handles expand to,
and the anchors. Each node but an alias counts from its start as one event, and
each collection as another at its end. `anchors` gives a name its number, and
`starts` gives a number the event that starts its node; a number that is given
twice leads to the later node. `nodes` has the anchored nodes by their event. -/
structure Reading where
  tokens : List Token
  handles : List (String × List UInt8) := []
  events : Nat := 0
  anchors : List (String × Nat) := []
  starts : List (Nat × Nat) := []
  nodes : List (Nat × Node) := []
  deriving Repr, Inhabited

abbrev Read := StateT Reading (Except String)

namespace Read

def peek : Read (Option Token) := do
  return (← get).tokens.head?

def skip : Read Unit :=
  modify fun reading => { reading with tokens := reading.tokens.drop 1 }

/-- Skips a token if it is the next one, and says whether it was. -/
def skipIf (token : Token) : Read Bool := do
  if (← peek) = some token then
    skip
    return true
  else return false

def countEvent : Read Unit :=
  modify fun reading => { reading with events := reading.events + 1 }

/-- The properties that come next: an anchor and a tag in any order. -/
def properties : Read Properties := do
  match ← peek with
  | some (.anchor name) =>
    skip
    match ← peek with
    | some (.tag handle suffix) =>
      skip
      return { anchor := some name, tag := some (handle, suffix) }
    | _ => return { anchor := some name }
  | some (.tag handle suffix) =>
    skip
    match ← peek with
    | some (.anchor name) =>
      skip
      return { anchor := some name, tag := some (handle, suffix) }
    | _ => return { tag := some (handle, suffix) }
  | _ => return {}

/-- A tag by its handle and suffix. A handle has to be one that is declared. -/
def expandTag (handle : String) (suffix : List UInt8) : Read Tag := do
  if handle.isEmpty then return Tag.ofBytes suffix
  match (← get).handles.lookup handle with
  | some expansion => return Tag.ofBytes (expansion ++ suffix)
  | none => throw "found undefined tag handle"

/-- Starts a node: if it has an anchor, this becomes the anchor's node. The
number of an anchor is how many names there were before. -/
def startNode (anchor : Option String) : Read Nat := do
  let reading ← get
  let start := reading.events
  match anchor with
  | none => pure ()
  | some name =>
    let number := reading.anchors.length
    let others := reading.anchors.filter fun (other, _) => other ≠ name
    set { reading with
      anchors := (name, number) :: others
      starts := (number, start) :: reading.starts }
  countEvent
  return start

/-- Ends a node. An anchored one is kept for its aliases. -/
def endNode (anchor : Option String) (start : Nat) (node : Node) : Read Node := do
  if anchor.isSome then
    modify fun reading => { reading with nodes := (start, node) :: reading.nodes }
  return node

/-- A scalar that is not written. -/
def emptyScalar : Read Node := do
  countEvent
  return .scalar none "" true

def aliasNode (name : String) : Read Node := do
  skip
  countEvent
  match (← get).anchors.lookup name with
  | some number => return .alias number
  | none => throw "unknown anchor"

/-- A collection, whose contents are read by `contents`. -/
def collection (anchor : Option String) (contents : Read Node) : Read Node := do
  let start ← startNode anchor
  let node ← contents
  countEvent
  endNode anchor start node

/-- Where a node is read: block style allows block collections, and behind a
key also a sequence that is not indented. -/
inductive Context where
  | flow
  | block
  | blockEntry
  deriving DecidableEq, Repr, Inhabited

/-- What may follow an entry of a collection that is not written. -/
def blockStops : List Token := [.key, .value, .blockEnd]

/-- The node that comes next, unless one of the stops does: then it is empty. -/
def nodeUnless (stops : List Token) (node : Read Node) : Read Node := do
  if (← peek).any stops.contains then emptyScalar else node

mutual

/-- A node, with its properties. -/
def node : Nat → Context → Read Node
  | 0, _ => throw "nesting too deep"
  | fuel + 1, context => do
    if let some (.alias name) ← peek then return ← aliasNode name
    let properties ← properties
    let tag ← properties.tag.mapM fun (handle, suffix) => expandTag handle suffix
    let anchor := properties.anchor
    match ← peek, context with
    | some .blockEntry, .blockEntry =>
      collection anchor (return .sequence tag (← indentlessItems fuel []))
    | some (.scalar text plain), _ =>
      skip
      let start ← startNode anchor
      endNode anchor start (.scalar tag text plain)
    | some .flowSequenceStart, _ =>
      collection anchor (do skip; return .sequence tag (← flowItems fuel true []))
    | some .flowMappingStart, _ =>
      collection anchor (do skip; return .mapping tag (← flowEntries fuel true []))
    | some .blockSequenceStart, .block =>
      collection anchor (do skip; return .sequence tag (← blockItems fuel []))
    | some .blockSequenceStart, .blockEntry =>
      collection anchor (do skip; return .sequence tag (← blockItems fuel []))
    | some .blockMappingStart, .block =>
      collection anchor (do skip; return .mapping tag (← blockEntries fuel []))
    | some .blockMappingStart, .blockEntry =>
      collection anchor (do skip; return .mapping tag (← blockEntries fuel []))
    | _, _ =>
      if anchor.isNone && tag.isNone then throw "did not find expected node content"
      let start ← startNode anchor
      endNode anchor start (.scalar tag "" true)

/-- The items of a sequence in block style, after those read before. -/
def blockItems : Nat → List Node → Read (List Node)
  | 0, _ => throw "nesting too deep"
  | fuel + 1, items => do
    if ← skipIf .blockEntry then
      let item ← nodeUnless [.blockEntry, .blockEnd] (node fuel .block)
      blockItems fuel (item :: items)
    else if ← skipIf .blockEnd then return items.reverse
    else throw "did not find expected '-' indicator"

/-- The items of a sequence that stands at the column of its key. -/
def indentlessItems : Nat → List Node → Read (List Node)
  | 0, _ => throw "nesting too deep"
  | fuel + 1, items => do
    if ← skipIf .blockEntry then
      let item ← nodeUnless (.blockEntry :: blockStops) (node fuel .block)
      indentlessItems fuel (item :: items)
    else return items.reverse

/-- The entries of a mapping in block style. -/
def blockEntries : Nat → List (Node × Node) → Read (List (Node × Node))
  | 0, _ => throw "nesting too deep"
  | fuel + 1, entries => do
    if ← skipIf .key then
      let key ← nodeUnless blockStops (node fuel .blockEntry)
      let value ←
        if ← skipIf .value then nodeUnless blockStops (node fuel .blockEntry) else emptyScalar
      blockEntries fuel ((key, value) :: entries)
    else if ← skipIf .blockEnd then return entries.reverse
    else throw "did not find expected key"

/-- The items of a sequence in flow style. An item that is marked as a key is a
mapping of one entry. -/
def flowItems : Nat → Bool → List Node → Read (List Node)
  | 0, _, _ => throw "nesting too deep"
  | fuel + 1, first, items => do
    if ← skipIf .flowSequenceEnd then return items.reverse
    if !first then
      if !(← skipIf .flowEntry) then throw "did not find expected ',' or ']'"
    if ← skipIf .key then
      let item ← collection none (return .mapping none [← singleEntry fuel])
      flowItems fuel false (item :: items)
    else if ← skipIf .flowSequenceEnd then return items.reverse
    else
      let item ← node fuel .flow
      flowItems fuel false (item :: items)

/-- The entry of a mapping that stands by itself in a sequence. Of an empty key
the token behind it is passed over. -/
def singleEntry : Nat → Read (Node × Node)
  | 0 => throw "nesting too deep"
  | fuel + 1 => do
    let key ←
      if (← peek).any [Token.value, .flowEntry, .flowSequenceEnd].contains then do
        skip
        emptyScalar
      else node fuel .flow
    let value ←
      if ← skipIf .value then nodeUnless [.flowEntry, .flowSequenceEnd] (node fuel .flow)
      else emptyScalar
    return (key, value)

/-- The entries of a mapping in flow style. -/
def flowEntries : Nat → Bool → List (Node × Node) → Read (List (Node × Node))
  | 0, _, _ => throw "nesting too deep"
  | fuel + 1, first, entries => do
    if ← skipIf .flowMappingEnd then return entries.reverse
    if !first then
      if !(← skipIf .flowEntry) then throw "did not find expected ',' or '\x7d'"
    if ← skipIf .key then
      let key ← nodeUnless [.value, .flowEntry, .flowMappingEnd] (node fuel .flow)
      let value ←
        if ← skipIf .value then nodeUnless [.flowEntry, .flowMappingEnd] (node fuel .flow)
        else emptyScalar
      flowEntries fuel false ((key, value) :: entries)
    else if ← skipIf .flowMappingEnd then return entries.reverse
    else
      let key ← node fuel .flow
      let value ← emptyScalar
      flowEntries fuel false ((key, value) :: entries)

end

/-- The directives before a document. A version may be given once and has to be
1.1 or 1.2; a tag handle may be declared once. -/
def directives : Nat → Bool → Read Unit
  | 0, _ => throw "nesting too deep"
  | fuel + 1, versionSeen => do
    match ← peek with
    | some (.versionDirective major minor) =>
      if versionSeen then throw "found duplicate %YAML directive"
      if major ≠ 1 ∨ (minor ≠ 1 ∧ minor ≠ 2) then throw "found incompatible YAML document"
      skip
      directives fuel true
    | some (.tagDirective handle expansion) =>
      if ((← get).handles.lookup handle).isSome then throw "found duplicate %TAG directive"
      skip
      modify fun reading => { reading with handles := reading.handles ++ [(handle, expansion)] }
      directives fuel versionSeen
    | _ => return ()

/-- The handles that every document has. -/
def defaultHandles : List (String × List UInt8) :=
  [("!", ['!'.toUInt8]), ("!!", "tag:yaml.org,2002:".toList.map Char.toUInt8)]

/-- Adds the default handles behind those that the document declares itself. -/
def addDefaultHandles : Read Unit :=
  modify fun reading => { reading with handles := reading.handles ++ defaultHandles }

/-- Whether a document starts explicitly, with a directive or a mark. -/
def startsExplicitly : Read Bool := do
  match ← peek with
  | some (.versionDirective ..) => return true
  | some (.tagDirective ..) => return true
  | some .documentStart => return true
  | _ => return false

/-- The root of a document that starts explicitly. -/
def explicitRoot (fuel : Nat) : Read Node := do
  directives fuel false
  addDefaultHandles
  if !(← skipIf .documentStart) then throw "did not find expected <document start>"
  if (← peek).isNone || (← startsExplicitly) || (← peek) = some .documentEnd then emptyScalar
  else node fuel .block

/-- The root of the only document there is, `none` if there is none. -/
def onlyRoot (fuel : Nat) : Read (Option Node) := do
  if (← peek).isNone then return none
  let root ←
    if ← startsExplicitly then explicitRoot fuel
    else do
      addDefaultHandles
      node fuel .block
  if (← get).tokens.all (· = .documentEnd) then return some root
  else throw "more than one document"

end Read

/-- A document: its root, the anchored nodes by their numbers, and its size. -/
structure Document where
  root : Node
  anchored : Nat → Option Node
  events : Nat

/-- The only document of a text, `none` if there is none. -/
def Document.ofText? (text : List Char) : Except String (Option Document) := do
  let tokens ← tokens text
  let (root?, reading) ← (Read.onlyRoot (3 * tokens.length + 3)).run { tokens }
  return root?.map fun root => {
    root
    anchored := fun number => (reading.starts.lookup number).bind (reading.nodes.lookup ·)
    events := reading.events }

end MacroMarkup.Yaml
