import MacroMarkup.Decimal.Notation
import MacroMarkup.Yaml.Gap

/-! The texts of scalars in each of the four ways to write one: plain, in single
or double quotes, and as a block. -/
namespace MacroMarkup.Yaml

/-! Plain scalars. -/

/-- The characters of a word of a plain scalar. In a flow collection its
indicators end the word as well. -/
def plainWord (flow : Bool) : List Char → Except String (List Char)
  | [] => .ok []
  | c :: rest =>
    let next := rest.head?
    let atEnd := next.all fun c => isBlank c || isBreak c
    if isBlank c || isBreak c then .ok []
    else if flow && c = ':' && next.any (",?[]\x7b\x7d".toList.contains ·) then
      .error "found unexpected ':'"
    else if (c = ':' && atEnd) || (flow && ",[]\x7b\x7d".toList.contains c) then .ok []
    else (plainWord flow rest).map (c :: ·)

/-- The text of a plain scalar, after what was read of it, latest character
first, and the gap behind that. The second component says whether the place
reached is at the start of a line. -/
def plainText (flow : Bool) (indent : Nat) :
    Nat → List Char → Gap → Place → Except String (List Char × Bool × Place)
  | 0, _, _, _ => .error "found a scalar that does not end"
  | fuel + 1, text, gap, place => do
    if place.isDocumentBoundary || place.startsWith '#' then
      return (text.reverse, gap.first.isSome, place)
    let word ← plainWord flow place.rest
    let place := place.skip word.length
    let (text, gap) :=
      if word.isEmpty then (text, gap) else ((gap.folded ++ word).reverse ++ text, {})
    if !place.test 0 (fun c => isBlank c || isBreak c) then
      return (text.reverse, gap.first.isSome, place)
    let (gap, place) ← gap.read indent fuel place
    if !flow && place.column < indent then return (text.reverse, gap.first.isSome, place)
    plainText flow indent fuel text gap place

/-! Quoted scalars. -/

/-- A word inside quotes: its text, how many characters it takes, and whether
an escaped line break follows. -/
structure QuotedWord where
  text : List Char := []
  length : Nat := 0
  escapedBreak : Bool := false
  deriving Repr, Inhabited

def QuotedWord.cons (text : List Char) (length : Nat) (word : QuotedWord) : QuotedWord :=
  { word with text := text ++ word.text, length := length + word.length }

/-- A word in single quotes, where a quote is written twice. -/
def singleWord : List Char → QuotedWord
  | [] => {}
  | '\'' :: '\'' :: rest => (singleWord rest).cons ['\''] 2
  | c :: rest =>
    if c = '\'' || isBlank c || isBreak c then {} else (singleWord rest).cons [c] 1

/-- What the character behind a backslash stands for. -/
def escapeTable : List (Char × Char) :=
  [('0', '\x00'), ('a', '\x07'), ('b', '\x08'), ('t', '\t'), ('\t', '\t'), ('n', '\n'),
   ('v', '\x0B'), ('f', '\x0C'), ('r', '\r'), ('e', '\x1B'), (' ', ' '), ('"', '"'),
   ('/', '/'), ('\\', '\\'), ('N', '\u0085'), ('_', '\u00A0'), ('L', '\u2028'),
   ('P', '\u2029')]

/-- How many hexadecimal digits follow the character behind a backslash. -/
def escapeDigits : Char → Option Nat
  | 'x' => some 2
  | 'u' => some 4
  | 'U' => some 8
  | _ => none

/-- The character with a code, which must not be a surrogate. -/
def charOfCode? (code : Nat) : Option Char :=
  if code.isValidChar then some (Char.ofNat code) else none

/-- A word in double quotes, where a backslash starts an escape. -/
def doubleWord : Nat → List Char → Except String QuotedWord
  | 0, _ => .ok {}
  | _, [] => .ok {}
  | fuel + 1, '\\' :: c :: rest =>
    if isBreak c then .ok { escapedBreak := true }
    else match escapeTable.lookup c, escapeDigits c with
      | some char, _ => (doubleWord fuel rest).map (QuotedWord.cons [char] 2)
      | none, some count =>
        let digits := rest.take count
        if digits.length < count then .error "did not find expected hexadecimal number"
        else match Decimal.natural? 16 digits with
          | none => .error "did not find expected hexadecimal number"
          | some code =>
            match charOfCode? code with
            | none => .error "found invalid Unicode character escape code"
            | some char =>
              (doubleWord fuel (rest.drop count)).map (QuotedWord.cons [char] (count + 2))
      | none, none => .error "found unknown escape character"
  | fuel + 1, c :: rest =>
    if c = '\\' then .error "found unknown escape character"
    else if c = '"' || isBlank c || isBreak c then .ok {}
    else (doubleWord fuel rest).map (QuotedWord.cons [c] 1)

/-- The text of a scalar behind its opening quote, after what was read of it,
latest character first. -/
def quotedText (quote : Char) :
    Nat → List Char → Place → Except String (List Char × Place)
  | 0, _, _ => .error "found unexpected end of stream"
  | fuel + 1, text, place => do
    if place.isDocumentBoundary then throw "found unexpected document indicator"
    if place.rest.isEmpty then throw "found unexpected end of stream"
    let word ←
      if quote = '\'' then pure (singleWord place.rest)
      else doubleWord fuel place.rest
    let text := word.text.reverse ++ text
    let place := place.skip word.length
    let (gap, place) : Gap × Place :=
      if word.escapedBreak then ({ first := some [] }, (place.skip 1).readBreak.2)
      else ({}, place)
    if place.startsWith quote then return (text.reverse, place.skip 1)
    let (gap, place) ← gap.read 0 fuel place
    quotedText quote fuel (gap.folded.reverse ++ text) place

/-! Block scalars. -/

/-- What becomes of the line breaks at the end of a block scalar. -/
inductive Chomping where
  | strip
  | clip
  | keep
  deriving DecidableEq, Repr, Inhabited

/-- A chomping indicator, if one comes next. -/
def readChomping (place : Place) : Option Chomping × Place :=
  if place.startsWith '+' then (some .keep, place.skip 1)
  else if place.startsWith '-' then (some .strip, place.skip 1)
  else (none, place)

/-- A digit that gives the indentation, if one comes next; zero is refused. -/
def readIncrement (place : Place) : Except String (Option Nat × Place) :=
  match (place.peek 0).bind (Decimal.digit? 10) with
  | some 0 => .error "found an indentation indicator equal to 0"
  | some increment => .ok (some increment, place.skip 1)
  | none => .ok (none, place)

/-- The two indicators that may follow the one of the scalar, in any order. -/
def readBlockHeader (place : Place) : Except String (Chomping × Option Nat × Place) := do
  let (chomping, place) := readChomping place
  let (increment, place) ← readIncrement place
  match chomping with
  | some chomping => return (chomping, increment, place)
  | none =>
    let (chomping, place) := if increment.isSome then readChomping place else (none, place)
    return (chomping.getD .clip, increment, place)

/-- Blank lines of a block scalar, and the indentation of the line after them.
An indentation of zero is not known yet: it then becomes the deepest one seen,
but at least `least`. -/
def blockBreaks (least : Nat) :
    Nat → Nat → Nat → List Char → Place → Except String (Nat × List Char × Place)
  | 0, _, _, _, _ => .error "found a scalar that does not end"
  | fuel + 1, indent, deepest, breaks, place =>
    let spaces := (place.rest.takeWhile (· = ' ')).length
    let place := place.skip (if indent = 0 then spaces else min spaces (indent - place.column))
    let deepest := max deepest place.column
    if (indent = 0 || place.column < indent) && place.startsWith '\t' then
      .error "found a tab character where an indentation space is expected"
    else if place.test 0 isBreak then
      let (text, place) := place.readBreak
      blockBreaks least fuel indent deepest (breaks ++ text) place
    else .ok (if indent = 0 then max deepest (max least 1) else indent, breaks, place)

/-- The lines of a block scalar, after what was read of it, latest character
first. `pending` is the break behind the last line and `breaks` those of the
blank lines after it; `blank` says whether the last line starts with a blank,
which keeps it from being folded. -/
def blockLines (literal : Bool) (indent : Nat) :
    Nat → List Char → List Char → List Char → Bool → Place →
      Except String (List Char × List Char × List Char × Place)
  | 0, _, _, _, _, _ => .error "found a scalar that does not end"
  | fuel + 1, text, pending, breaks, blank, place =>
    if place.column = indent && !place.rest.isEmpty then do
      let nextBlank := place.test 0 isBlank
      let joint :=
        if !literal && pending = ['\n'] && !blank && !nextBlank then
          (if breaks.isEmpty then [' '] else [])
        else pending
      let (line, place) := place.span (!isBreak ·)
      let text := (joint ++ breaks ++ line).reverse ++ text
      let (pending, place) := place.readBreak
      let (_, breaks, place) ← blockBreaks 0 (fuel + 1) indent 0 [] place
      blockLines literal indent fuel text pending breaks nextBlank place
    else .ok (text.reverse, pending, breaks, place)

/-- A block scalar from its indicator on. `parent` is the indentation of the
collection around it, if there is one. -/
def blockText (literal : Bool) (parent : Option Nat) (place : Place) :
    Except String (List Char × Place) := do
  let (chomping, increment, place) ← readBlockHeader (place.skip 1)
  let (_, place) := place.span isBlank
  let place := if place.startsWith '#' then place.skipLine else place
  if !place.endsAt 0 then throw "did not find expected comment or line break"
  let (_, place) := place.readBreak
  let indent := match increment with
    | some increment => parent.getD 0 + increment
    | none => 0
  let least := (parent.map (· + 1)).getD 0
  let (indent, breaks, place) ← blockBreaks least (place.rest.length + 1) indent 0 [] place
  let (text, pending, breaks, place) ←
    blockLines literal indent (place.rest.length + 1) [] [] breaks false place
  let tail := match chomping with
    | .strip => []
    | .clip => pending
    | .keep => pending ++ breaks
  return (text ++ tail, place)

end MacroMarkup.Yaml
