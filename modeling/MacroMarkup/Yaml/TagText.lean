import MacroMarkup.Decimal.Notation
import MacroMarkup.Yaml.Place

/-! How tags are written, and the directives that a document may start with. -/
namespace MacroMarkup.Yaml

/-- Characters of a tag. Some stand only in a tag that is written in full. -/
def isTagChar (full : Bool) (c : Char) : Bool :=
  isNameChar c || ";/?:@&=+$.%!~*'()".toList.contains c || (full && ",[]".toList.contains c)

/-- How many bytes an encoding has that starts with a byte. Only the bits that
give the width are looked at. -/
def encodingWidth? (byte : UInt8) : Option Nat :=
  if byte < 0x80 then some 1
  else if byte < 0xC0 then none
  else if byte < 0xE0 then some 2
  else if byte < 0xF0 then some 3
  else if byte < 0xF8 then some 4
  else none

/-- One byte, written as a percent sign and two digits. -/
def escapedByte? : List Char → Option (UInt8 × List Char)
  | '%' :: high :: low :: rest => do
    let high ← Decimal.digit? 16 high
    let low ← Decimal.digit? 16 low
    return (UInt8.ofNat (16 * high + low), rest)
  | _ => none

/-- The bytes that continue an encoding. -/
def trailingBytes? : Nat → List Char → Option (List UInt8 × List Char)
  | 0, text => some ([], text)
  | count + 1, text => do
    let (byte, text) ← escapedByte? text
    if byte < 0x80 ∨ 0xC0 ≤ byte then none
    else
      let (bytes, text) ← trailingBytes? count text
      return (byte :: bytes, text)

/-- The bytes of one encoding, all of them escaped. They have the right number
and kind, but need not encode a character. -/
def escapedEncoding? (text : List Char) : Option (List UInt8 × List Char) := do
  let (byte, text) ← escapedByte? text
  let width ← encodingWidth? byte
  let (bytes, text) ← trailingBytes? (width - 1) text
  return (byte :: bytes, text)

/-- The bytes that tag characters stand for. -/
def unescapeTag : Nat → List Char → Except String (List UInt8)
  | 0, _ => .ok []
  | _, [] => .ok []
  | fuel + 1, c :: rest =>
    if c = '%' then
      match escapedEncoding? (c :: rest) with
      | none => .error "did not find a URI escaped octet"
      | some (bytes, rest) => (unescapeTag fuel rest).map (bytes ++ ·)
    else (unescapeTag fuel rest).map (c.toUInt8 :: ·)

/-- The tag characters that come next, behind what was read of the tag before.
Together they must not be empty. A zero byte ends what they stand for. -/
def readTagText (full : Bool) (before : List Char) (place : Place) :
    Except String (List UInt8 × Place) := do
  let (text, place) := place.span (isTagChar full)
  if text.isEmpty ∧ before.isEmpty then throw "did not find expected tag URI"
  let bytes ← unescapeTag text.length text
  return (((before.drop 1).map Char.toUInt8 ++ bytes).takeWhile (· ≠ 0), place)

/-- A tag handle: an exclamation mark, and perhaps a name with another. In a
directive the name may not stand without it. -/
def readTagHandle (directive : Bool) (place : Place) : Except String (List Char × Place) := do
  if !place.startsWith '!' then throw "did not find expected '!'"
  let (name, place) := (place.skip 1).span isNameChar
  if place.startsWith '!' then return ('!' :: name ++ ['!'], place.skip 1)
  if directive ∧ !name.isEmpty then throw "did not find expected '!'"
  return ('!' :: name, place)

/-- A tag: its handle and what follows it. A tag in full has no handle, and the
single exclamation mark is such a tag. -/
def readTag (place : Place) : Except String (String × List UInt8 × Place) := do
  let (handle, suffix, place) ←
    if place.peek 1 = some '<' then do
      let (suffix, place) ← readTagText true [] (place.skip 2)
      if !place.startsWith '>' then throw "did not find the expected '>'"
      pure ("", suffix, place.skip 1)
    else do
      let (handle, place) ← readTagHandle false place
      if 1 < handle.length ∧ handle.getLast? = some '!' then
        let (suffix, place) ← readTagText false [] place
        pure (String.ofList handle, suffix, place)
      else
        let (suffix, place) ← readTagText false handle place
        pure (if suffix.isEmpty then ("", ['!'.toUInt8], place) else ("!", suffix, place))
  if place.endsAt 0 ∨ place.startsWith ',' then return (handle, suffix, place)
  throw "did not find expected whitespace or line break"

/-- A number of a version, of at most nine digits. -/
def readVersionNumber (place : Place) : Except String (Nat × Place) :=
  let (digits, place) := place.span Decimal.isDigit
  match Decimal.natural? 10 digits with
  | none => .error "did not find expected version number"
  | some number =>
    if 9 < digits.length then .error "found extremely long version number"
    else .ok (number, place)

/-- The value of a version directive. -/
def readVersion (place : Place) : Except String (Nat × Nat × Place) := do
  let (_, place) := place.span isBlank
  let (major, place) ← readVersionNumber place
  if !place.startsWith '.' then throw "did not find expected digit or '.' character"
  let (minor, place) ← readVersionNumber (place.skip 1)
  return (major, minor, place)

/-- The value of a tag directive: a handle and what it expands to. -/
def readTagDirective (place : Place) : Except String (String × List UInt8 × Place) := do
  let (_, place) := place.span isBlank
  let (handle, place) ← readTagHandle true place
  if !place.test 0 isBlank then throw "did not find expected whitespace"
  let (_, place) := place.span isBlank
  let (expansion, place) ← readTagText true [] place
  if !place.endsAt 0 then throw "did not find expected whitespace or line break"
  return (String.ofList handle, expansion, place)

end MacroMarkup.Yaml
