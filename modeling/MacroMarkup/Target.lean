/-! What a pass produces, in which pass a macro runs, and how an invocation
treats the paragraph around it. -/
namespace MacroMarkup

/-- What a pass produces. The normalizing pass always runs first; the other two
render its result. -/
inductive Target where
  | normalize
  | doc
  | web
  deriving DecidableEq, Repr, Inhabited

namespace Target

def name : Target → String
  | normalize => "ctx"
  | doc => "doc"
  | web => "web"

def ofName? : String → Option Target
  | "ctx" => some normalize
  | "normalize" => some normalize
  | "doc" => some doc
  | "web" => some web
  | _ => none

/-- What is said of a name that is no target's. -/
def unknownMessage (name : String) : String :=
  "unknown target '" ++ name ++ "' (expected ctx, doc or web)"

def isRender : Target → Bool
  | normalize => false
  | doc => true
  | web => true

/-- What stands before and after every paragraph. -/
def paragraphMarkers : Target → String × String
  | normalize => ("", "\n\n")
  | doc => ("\n\\paragraph\x7b\x7d\n", "\n")
  | web => ("\n<p>", "</p>\n")

end Target

/-- The pass in which the body of a macro is evaluated. -/
inductive Mode where
  | normalize
  | docRender
  | webRender
  deriving DecidableEq, Repr, Inhabited

namespace Mode

def token : Mode → String
  | normalize => "ctx->ctx"
  | docRender => "ctx->doc"
  | webRender => "ctx->web"

def ofToken? : String → Option Mode
  | "ctx->ctx" => some normalize
  | "ctx->doc" => some docRender
  | "ctx->web" => some webRender
  | _ => none

/-- The pass that evaluates macros of this mode. -/
def target : Mode → Target
  | normalize => .normalize
  | docRender => .doc
  | webRender => .web

def appliesTo (mode : Mode) (target : Target) : Bool :=
  mode.target = target

end Mode

/-- Whether an invocation stays in a paragraph, opening one if need be, or ends
the paragraph it stands in. -/
inductive BreakPolicy where
  | wrapInParagraph
  | leaveParagraph
  deriving DecidableEq, Repr, Inhabited

namespace BreakPolicy

def token : BreakPolicy → String
  | wrapInParagraph => "wrapinblk"
  | leaveParagraph => "leaveblk"

def ofToken? : String → Option BreakPolicy
  | "wrapinblk" => some wrapInParagraph
  | "leaveblk" => some leaveParagraph
  | _ => none

end BreakPolicy

end MacroMarkup
