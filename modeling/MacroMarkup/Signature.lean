import MacroMarkup.Error
import MacroMarkup.Target
import MacroMarkup.Text.Blank
import MacroMarkup.Text.Split

/-! Signatures of macro definitions, written `name: token token`, where a token
is a language with its parameters, a mode, or a break policy. -/
namespace MacroMarkup

/-- Commands are called by name; environments enclose the text they apply to. -/
inductive MacroKind where
  | command
  | environment
  deriving DecidableEq, Repr, Inhabited

/-- A declared parameter. A verbatim argument is passed on as it is written,
any other is expanded first. -/
structure Param where
  name : String
  verbatim : Bool
  deriving DecidableEq, Repr, Inhabited

/-- What the first definition of a macro fixes for all later ones. -/
structure Signature where
  verbatim : List Bool
  mode : Mode
  policy : BreakPolicy
  deriving DecidableEq, Repr, Inhabited

/-- The contents of a signature. -/
structure Declaration where
  name : String
  language : Language
  params : List Param
  mode : Mode
  policy : BreakPolicy
  deriving DecidableEq, Repr, Inhabited

namespace Declaration

def signature (declaration : Declaration) : Signature :=
  { verbatim := declaration.params.map Param.verbatim
    mode := declaration.mode
    policy := declaration.policy }

/-- Characters that no parameter name holds. -/
def forbiddenInParams : List Char :=
  "\n !\"#$%&'()*+,-./:;<=>?[\\]^_`\x7b|\x7d~".toList

/-- Tokens end at a semicolon, and at a blank outside of parentheses. -/
def cutTokens (depth : Nat) (current : List Char) : List Char → List (List Char)
  | [] => [current.reverse]
  | c :: rest =>
    if c = '(' then cutTokens (depth + 1) (c :: current) rest
    else if c = ')' then cutTokens (depth - 1) (c :: current) rest
    else if c = ';' ∨ (Text.isBlank c ∧ depth = 0) then
      current.reverse :: cutTokens depth [] rest
    else cutTokens depth (c :: current) rest

def tokens (text : List Char) : List (List Char) :=
  ((cutTokens 0 [] text).map Text.trim).filter (!·.isEmpty)

/-- One parameter: a name, behind a star if its argument is verbatim. -/
def parseParam (text : List Char) : Except ErrorCause Param :=
  let text := Text.trim text
  let (verbatim, name) := match text with
    | '*' :: rest => (true, Text.trim rest)
    | _ => (false, text)
  if name.isEmpty ∨ name.any forbiddenInParams.contains then
    .error (.forbidChar (String.ofList text))
  else .ok { name := String.ofList name, verbatim }

/-- A language with its parameters, `none` for a token that names no language. -/
def parseLanguage? (token : List Char) : Except ErrorCause (Option (Language × List Param)) :=
  match Text.splitOnce? '(' token with
  | none => .ok none
  | some (tag, rest) =>
    match Language.ofTag? (String.ofList (Text.trim tag)) with
    | none => .ok none
    | some language =>
      if rest.getLast? = some ')' then
        let inner := rest.dropLast
        if Text.isAllBlank inner then .ok (some (language, []))
        else do
          let params ← (Text.splitAt ',' inner).mapM parseParam
          return some (language, params)
      else .error (.unknownParameter (String.ofList token))

/-- What the tokens read so far have settled. -/
structure Settled where
  language : Option (Language × List Param) := none
  mode : Option Mode := none
  policy : Option BreakPolicy := none

/-- Takes one more token into account. Each of the three kinds may come once. -/
def settle (settled : Settled) (token : List Char) : Except ErrorCause Settled := do
  match ← parseLanguage? token with
  | some language =>
    if settled.language.isSome then throw .conflictLanguage
    return { settled with language := some language }
  | none =>
    let word := String.ofList token
    match Mode.ofToken? word, BreakPolicy.ofToken? word with
    | some mode, _ =>
      if settled.mode.isSome then throw .conflictMode
      return { settled with mode := some mode }
    | none, some policy =>
      if settled.policy.isSome then throw .conflictBreak
      return { settled with policy := some policy }
    | none, none => throw (.unknownParameter word)

/-- The name and the rest of a signature, which exactly one colon separates. -/
def splitName (text : List Char) : Except ErrorCause (List Char × List Char) :=
  match Text.splitOnce? ':' text with
  | none => .error .missingDefMarker
  | some (head, tail) =>
    if tail.contains ':' then .error .tooManyDefMarkers else .ok (Text.trim head, tail)

/-- An environment takes its body as a last, verbatim argument. -/
def checkKind (kind : MacroKind) (params : List Param) : Except ErrorCause Unit :=
  match kind, params.getLast? with
  | .command, _ => .ok ()
  | .environment, none => .error .tooFewArgs
  | .environment, some last => if last.verbatim then .ok () else .error .lastMustVerbatim

/-- Reads a signature. What no token settles has its default: a raw body
without parameters, the normalizing mode, and staying in the paragraph. -/
def parse (kind : MacroKind) (text : List Char) : Except ErrorCause Declaration := do
  let (name, tail) ← splitName text
  if name.isEmpty ∨ name.any (fun c => Text.isBlank c || c = '\x7b' || c = '\x7d') then
    throw (.forbidChar (String.ofList name))
  let settled ← (tokens tail).foldlM settle {}
  let (language, params) := settled.language.getD (.raw, [])
  checkKind kind params
  return {
    name := String.ofList name
    language
    params
    mode := settled.mode.getD .normalize
    policy := settled.policy.getD .wrapInParagraph }

end Declaration

end MacroMarkup
