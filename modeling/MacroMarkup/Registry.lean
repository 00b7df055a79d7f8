import MacroMarkup.EscapedChar
import MacroMarkup.PrefixIndex
import MacroMarkup.Signature
import MacroMarkup.Spelling

/-! Invocation spellings and what they stand for: builtins and the macros that
a document defines. -/
namespace MacroMarkup

/-- The spelling that invokes a macro. -/
def MacroKind.invocation : MacroKind → String → String
  | command, name => Spelling.command name
  | environment, name => Spelling.openEnvironment name

/-- One definition statement. -/
structure Definition where
  kind : MacroKind
  name : String
  signature : Signature
  body : MacroBody
  deriving DecidableEq, Repr

/-- The statement that gives a declared macro some code. -/
def Declaration.define (declaration : Declaration) (kind : MacroKind) (code : String) :
    Definition :=
  { kind
    name := declaration.name
    signature := declaration.signature
    body := {
      language := declaration.language
      params := declaration.params.map Param.name
      code } }

/-- The bodies bound to a macro, at most one in each language. -/
structure Bodies where
  raw : Option MacroBody := none
  script : Option MacroBody := none
  deriving DecidableEq, Repr, Inhabited

namespace Bodies

def get? (bodies : Bodies) : Language → Option MacroBody
  | .raw => bodies.raw
  | .script => bodies.script

/-- Binds a body under the language it is written in. -/
def insert (bodies : Bodies) (body : MacroBody) : Bodies :=
  match body.language with
  | .raw => { bodies with raw := some body }
  | .script => { bodies with script := some body }

def toList (bodies : Bodies) : List MacroBody :=
  bodies.raw.toList ++ bodies.script.toList

end Bodies

/-- A macro or environment that definition statements introduced. -/
structure UserMacro where
  kind : MacroKind
  name : String
  signature : Signature
  bodies : Bodies
  deriving DecidableEq, Repr, Inhabited

namespace UserMacro

def ofDefinition (definition : Definition) : UserMacro :=
  { kind := definition.kind
    name := definition.name
    signature := definition.signature
    bodies := ({} : Bodies).insert definition.body }

/-- The body to evaluate: a script if there is one that can be, else a raw
body, else the script all the same. -/
def preferredBody? (user : UserMacro) (evaluator : Evaluator) : Option MacroBody :=
  if user.bodies.script.isSome && evaluator.supports .script then user.bodies.script
  else user.bodies.raw <|> user.bodies.script

end UserMacro

/-- The builtins, which are active in every pass. -/
inductive Builtin where
  /-- A lone escape character, which starts no known invocation. -/
  | escape
  | escapedChar (char : EscapedChar)
  | comment
  | scopeBegin
  | scopeEnd
  | usePackage
  | newCommand
  | newEnvironment
  /-- The opening of an environment that no definition introduced. -/
  | environmentBegin
  | environmentEnd
  | paragraph
  | math
  deriving DecidableEq, Repr, Inhabited

/-- Every builtin behind the spelling it is registered under. -/
def Builtin.table : List (String × Builtin) :=
  (Spelling.escape, escape) ::
    EscapedChar.table.map (fun char => (char.ctx, escapedChar char)) ++
    [(Spelling.comment, comment),
     (Spelling.scopeBegin, scopeBegin),
     (Spelling.scopeEnd, scopeEnd),
     (Spelling.usePackage, usePackage),
     (Spelling.newCommand, newCommand),
     (Spelling.newEnvironment, newEnvironment),
     (Spelling.environmentBegin, environmentBegin),
     (Spelling.environmentEnd, environmentEnd),
     (Spelling.paragraph, paragraph),
     (Spelling.math, math)]

/-- What an invocation dispatches to. -/
inductive Handler where
  | builtin (builtin : Builtin)
  | user (user : UserMacro)
  deriving DecidableEq, Repr, Inhabited

/-- Handlers in the order of their first registration, and an index from
spellings to their places in that order. -/
structure Registry where
  index : PrefixIndex Nat
  handlers : Array Handler
  deriving DecidableEq, Inhabited

namespace Registry

def empty : Registry :=
  { index := .nil, handlers := #[] }

/-- The handler that a whole spelling is bound to. -/
def get? (registry : Registry) (spelling : String) : Option Handler :=
  (registry.index.get? spelling.toList).bind (registry.handlers[·]?)

/-- Binds a spelling. One that is bound already keeps its place. -/
def register (registry : Registry) (spelling : String) (handler : Handler) : Registry :=
  match registry.index.get? spelling.toList with
  | some place => { registry with handlers := registry.handlers.setIfInBounds place handler }
  | none =>
    { index := (registry.index.insert spelling.toList registry.handlers.size).2
      handlers := registry.handlers.push handler }

/-- The registry that holds the builtins only. -/
def builtins : Registry :=
  Builtin.table.foldl
    (fun registry (spelling, builtin) => registry.register spelling (.builtin builtin))
    empty

/-- The longest invocation that the text starts with, by its length, and what
it dispatches to. -/
def lookup? (registry : Registry) (text : List Char) : Option (Nat × Handler) :=
  (registry.index.longest? text).bind fun (length, place) =>
    registry.handlers[place]?.map (length, ·)

def contains (registry : Registry) (spelling : String) : Bool :=
  registry.index.contains spelling.toList

/-- The macro behind a spelling that a definition introduced. -/
def userMacro? (registry : Registry) (spelling : String) : Option UserMacro :=
  match registry.get? spelling with
  | some (.user user) => some user
  | _ => none

/-- The number of spellings. -/
def size (registry : Registry) : Nat :=
  registry.index.size

def isEmpty (registry : Registry) : Bool :=
  registry.index.isEmpty

/-- Merges one definition. The first definition of a spelling fixes its
signature; later ones have to repeat it and may only add a body in a language
that has none yet. A builtin gives way to a definition of its spelling. -/
def define (registry : Registry) (definition : Definition) : Except ErrorCause Registry :=
  let spelling := definition.kind.invocation definition.name
  match registry.userMacro? spelling with
  | some user =>
    if user.signature ≠ definition.signature then .error .paramMismatch
    else if (user.bodies.get? definition.body.language).isSome then .error .conflictCode
    else
      let bodies := user.bodies.insert definition.body
      .ok (registry.register spelling (.user { user with bodies }))
  | none => .ok (registry.register spelling (.user (.ofDefinition definition)))

end Registry

end MacroMarkup
