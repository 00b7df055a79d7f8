import MacroMarkup.Yaml.ScalarText
import MacroMarkup.Yaml.TagText
import MacroMarkup.Yaml.Token

/-! The tokens of a YAML text. A key is recognized only by the colon behind it,
so the places where one may start are remembered until the colon comes or the
line ends. -/
namespace MacroMarkup.Yaml

/-- A place where a key may start: the number of tokens before it. A required
one has to turn out to be a key, as nothing else may start there. -/
structure KeyStart where
  tokens : Nat
  required : Bool
  index : Nat
  line : Nat
  column : Nat
  deriving Repr, Inhabited

/-- The state of the analysis. Tokens are held with the latest first. `indents`
are the columns of the block collections around the place, the innermost first;
`keys` has the possible key of the block level and of each flow collection, the
innermost first. -/
structure Lexer where
  place : Place
  tokens : List Token
  keyAllowed : Bool
  indents : List Nat
  keys : List (Option KeyStart)
  deriving Repr, Inhabited

namespace Lexer

def ofText (text : List Char) : Lexer :=
  { place := Place.ofText text, tokens := [], keyAllowed := true, indents := [], keys := [none] }

def inFlow (lexer : Lexer) : Bool :=
  1 < lexer.keys.length

/-- The column from which on the text of the innermost collection stands. -/
def textColumn (lexer : Lexer) : Nat :=
  (lexer.indents.head?.map (· + 1)).getD 0

def emit (lexer : Lexer) (token : Token) : Lexer :=
  { lexer with tokens := token :: lexer.tokens }

/-- Emits a token of the given length, after which a key may start or not. -/
def emitMark (lexer : Lexer) (token : Token) (length : Nat) (keyAllowed : Bool) : Lexer :=
  { lexer with
    tokens := token :: lexer.tokens
    place := lexer.place.skip length
    keyAllowed }

/-- Inserts a token so that `before` tokens precede it. -/
def insert (lexer : Lexer) (before : Nat) (token : Token) : Lexer :=
  let after := lexer.tokens.length - before
  { lexer with tokens := lexer.tokens.take after ++ token :: lexer.tokens.drop after }

/-- Opens a block collection at a column deeper than the innermost one. Its
token goes behind the first `before` tokens. -/
def indent (lexer : Lexer) (column before : Nat) (token : Token) : Lexer :=
  if !lexer.inFlow && lexer.indents.head?.all (· < column) then
    { lexer.insert before token with indents := column :: lexer.indents }
  else lexer

/-- Ends the block collections that are deeper than a column; without one, all
of them. -/
def unindent (lexer : Lexer) (column : Option Nat) : Lexer :=
  if lexer.inFlow then lexer
  else
    let ended := lexer.indents.takeWhile fun indent => column.all (· < indent)
    { lexer with
      tokens := List.replicate ended.length Token.blockEnd ++ lexer.tokens
      indents := lexer.indents.drop ended.length }

def missingColon : String :=
  "could not find expected ':'"

/-- Forgets the possible key of the innermost level. -/
def dropKey (lexer : Lexer) : Except String Lexer :=
  match lexer.keys with
  | some key :: rest =>
    if key.required then .error missingColon else .ok { lexer with keys := none :: rest }
  | _ => .ok lexer

/-- Remembers that a key may start here. -/
def saveKey (lexer : Lexer) : Except String Lexer :=
  if lexer.keyAllowed then do
    let lexer ← lexer.dropKey
    let key : KeyStart := {
      tokens := lexer.tokens.length
      required := !lexer.inFlow && lexer.indents.head? = some lexer.place.column
      index := lexer.place.index
      line := lexer.place.line
      column := lexer.place.column }
    return { lexer with keys := some key :: lexer.keys.drop 1 }
  else .ok lexer

/-- A key stands in one line, and its colon at most 1024 bytes behind its start. -/
def isStale (place : Place) (key : KeyStart) : Bool :=
  key.line < place.line || key.index + 1024 < place.index

/-- Forgets the possible keys that can no longer be any. -/
def dropStaleKeys (lexer : Lexer) : Except String Lexer := do
  let stale := lexer.keys.filterMap fun key => key.filter (isStale lexer.place)
  if stale.any (·.required) then throw missingColon
  return { lexer with keys := lexer.keys.map fun key => key.filter (!isStale lexer.place ·) }

/-- Skips blanks, comments and line breaks before a token. A byte order mark may
stand at the start of each line, and a tab only where no key may start. -/
def skipToToken : Nat → Lexer → Lexer
  | 0, lexer => lexer
  | fuel + 1, lexer =>
    let tabs := lexer.inFlow || !lexer.keyAllowed
    let (_, place) := lexer.place.skipByteOrderMark.span fun c => c = ' ' || (tabs && c = '\t')
    let place := if place.startsWith '#' then place.skipLine else place
    if place.test 0 isBreak then
      skipToToken fuel
        { lexer with place := place.readBreak.2, keyAllowed := lexer.keyAllowed || !lexer.inFlow }
    else { lexer with place }

/-- Emits a token that was read up to a place. -/
def emitAt (lexer : Lexer) (token : Token) (place : Place) (keyAllowed : Bool) : Lexer :=
  { lexer.emit token with place, keyAllowed }

def readDirective (lexer : Lexer) : Except String Lexer := do
  let lexer ← (lexer.unindent none).dropKey
  let (name, place) := (lexer.place.skip 1).span isNameChar
  if name.isEmpty then throw "could not find expected directive name"
  if !place.endsAt 0 then throw "found unexpected non-alphabetical character"
  let (token, place) ←
    match String.ofList name with
    | "YAML" => do
      let (major, minor, place) ← readVersion place
      pure (Token.versionDirective major minor, place)
    | "TAG" => do
      let (handle, expansion, place) ← readTagDirective place
      pure (Token.tagDirective handle expansion, place)
    | _ => throw "found unknown directive name"
  let (_, place) := place.span isBlank
  let place := if place.startsWith '#' then place.skipLine else place
  if !place.endsAt 0 then throw "did not find expected comment or line break"
  return lexer.emitAt token place.readBreak.2 false

def readDocumentMark (lexer : Lexer) (token : Token) : Except String Lexer := do
  let lexer ← (lexer.unindent none).dropKey
  return lexer.emitMark token 3 false

def openFlow (lexer : Lexer) (token : Token) : Except String Lexer := do
  let lexer ← lexer.saveKey
  return { lexer.emitMark token 1 true with keys := none :: lexer.keys }

def closeFlow (lexer : Lexer) (token : Token) : Except String Lexer := do
  let lexer ← lexer.dropKey
  let lexer := if lexer.inFlow then { lexer with keys := lexer.keys.drop 1 } else lexer
  return lexer.emitMark token 1 false

def readFlowEntry (lexer : Lexer) : Except String Lexer := do
  return (← lexer.dropKey).emitMark .flowEntry 1 true

def readBlockEntry (lexer : Lexer) : Except String Lexer := do
  if !lexer.inFlow && !lexer.keyAllowed then
    throw "block sequence entries are not allowed in this context"
  let lexer := lexer.indent lexer.place.column lexer.tokens.length .blockSequenceStart
  return (← lexer.dropKey).emitMark .blockEntry 1 true

def readKey (lexer : Lexer) : Except String Lexer := do
  if !lexer.inFlow && !lexer.keyAllowed then
    throw "mapping keys are not allowed in this context"
  let lexer := lexer.indent lexer.place.column lexer.tokens.length .blockMappingStart
  return (← lexer.dropKey).emitMark .key 1 (!lexer.inFlow)

def readValue (lexer : Lexer) : Except String Lexer := do
  match lexer.keys with
  | some key :: rest =>
    let lexer := (lexer.insert key.tokens .key).indent key.column key.tokens .blockMappingStart
    return { lexer.emitMark .value 1 false with keys := none :: rest }
  | _ =>
    if !lexer.inFlow && !lexer.keyAllowed then
      throw "mapping values are not allowed in this context"
    let lexer := lexer.indent lexer.place.column lexer.tokens.length .blockMappingStart
    return lexer.emitMark .value 1 (!lexer.inFlow)

/-- The name of an anchor or alias, behind its indicator. -/
def readName (place : Place) : Except String (String × Place) :=
  let (name, place) := (place.skip 1).span isNameChar
  if !name.isEmpty && (place.endsAt 0 || place.test 0 ("?:,]\x7d%@`".toList.contains ·)) then
    .ok (String.ofList name, place)
  else .error "did not find expected alphabetic or numeric character"

def readReference (lexer : Lexer) (token : String → Token) : Except String Lexer := do
  let lexer ← lexer.saveKey
  let (name, place) ← readName lexer.place
  return lexer.emitAt (token name) place false

def readTagToken (lexer : Lexer) : Except String Lexer := do
  let lexer ← lexer.saveKey
  let (handle, suffix, place) ← readTag lexer.place
  if place.startsWith ',' ∧ !lexer.inFlow then
    throw "did not find expected whitespace or line break"
  return lexer.emitAt (.tag handle suffix) place false

def readBlockScalar (lexer : Lexer) (literal : Bool) : Except String Lexer := do
  let lexer ← lexer.dropKey
  let (text, place) ← blockText literal lexer.indents.head? lexer.place
  return lexer.emitAt (.scalar (String.ofList text) false) place true

def readQuoted (lexer : Lexer) (quote : Char) : Except String Lexer := do
  let lexer ← lexer.saveKey
  let place := lexer.place.skip 1
  let (text, place) ← quotedText quote (place.rest.length + 1) [] place
  return lexer.emitAt (.scalar (String.ofList text) false) place false

def readPlain (lexer : Lexer) : Except String Lexer := do
  let lexer ← lexer.saveKey
  let (text, atLineStart, place) ←
    plainText lexer.inFlow lexer.textColumn (lexer.place.rest.length + 1) [] {} lexer.place
  return lexer.emitAt (.scalar (String.ofList text) true) place atLineStart

/-- Whether a plain scalar can start with what comes next. -/
def startsPlain (lexer : Lexer) (c : Char) : Bool :=
  let place := lexer.place
  !(isBlank c || isBreak c || "-?:,[]\x7b\x7d#&*!|>'\"%@`".toList.contains c) ||
    (c = '-' && !place.test 1 isBlank) ||
    (!lexer.inFlow && (c = '?' || c = ':') && !place.endsAt 1)

/-- Reads the token that starts with a character. -/
def readToken (lexer : Lexer) (c : Char) : Except String Lexer :=
  let place := lexer.place
  let indicates := place.endsAt 1
  if place.column = 0 && c = '%' then lexer.readDirective
  else if place.isDocumentMark '-' then lexer.readDocumentMark .documentStart
  else if place.isDocumentMark '.' then lexer.readDocumentMark .documentEnd
  else if c = '[' then lexer.openFlow .flowSequenceStart
  else if c = '\x7b' then lexer.openFlow .flowMappingStart
  else if c = ']' then lexer.closeFlow .flowSequenceEnd
  else if c = '\x7d' then lexer.closeFlow .flowMappingEnd
  else if c = ',' then lexer.readFlowEntry
  else if c = '-' && indicates then lexer.readBlockEntry
  else if c = '?' && (lexer.inFlow || indicates) then lexer.readKey
  else if c = ':' && (lexer.inFlow || indicates) then lexer.readValue
  else if c = '*' then lexer.readReference .alias
  else if c = '&' then lexer.readReference .anchor
  else if c = '!' then lexer.readTagToken
  else if c = '|' && !lexer.inFlow then lexer.readBlockScalar true
  else if c = '>' && !lexer.inFlow then lexer.readBlockScalar false
  else if c = '\'' then lexer.readQuoted '\''
  else if c = '"' then lexer.readQuoted '"'
  else if lexer.startsPlain c then lexer.readPlain
  else .error "found character that cannot start any token"

/-- Reads all tokens that remain. -/
def run : Nat → Lexer → Except String Lexer
  | 0, _ => .error "found a text that does not end"
  | fuel + 1, lexer => do
    let lexer ← (lexer.skipToToken (fuel + 1)).dropStaleKeys
    let lexer := lexer.unindent (some lexer.place.column)
    match lexer.place.peek 0 with
    | none =>
      let lexer := { lexer.unindent none with keyAllowed := false }
      lexer.dropKey
    | some c => run fuel (← lexer.readToken c)

end Lexer

/-- The tokens of a text, in order. -/
def tokens (text : List Char) : Except String (List Token) := do
  if !text.all isAllowed then throw "control characters are not allowed"
  let lexer ← Lexer.run (text.length + 1) (Lexer.ofText text)
  return lexer.tokens.reverse

end MacroMarkup.Yaml
