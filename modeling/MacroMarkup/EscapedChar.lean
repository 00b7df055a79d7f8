import MacroMarkup.Target

/-! Characters that are written in a way of their own in each kind of output. -/
namespace MacroMarkup

/-- A builtin with fixed output: its spelling in a source or normalized text,
and what it becomes in the two rendered kinds. -/
structure EscapedChar where
  name : String
  ctx : String
  doc : String
  web : String
  deriving DecidableEq, Repr, Inhabited

namespace EscapedChar

def render (char : EscapedChar) : Target → String
  | .normalize => char.ctx
  | .doc => char.doc
  | .web => char.web

/-- Every escaped character of the language. -/
def table : List EscapedChar :=
  [⟨"unescape", "\\\\", "\\backslash", "\\"⟩,
   ⟨"space", "\\ ", "\\ ", "&nbsp;"⟩,
   ⟨"uncomment", "\\%", "\\%", "%"⟩,
   ⟨"scope_begin", "\\\x7b", "\\\x7b", "\x7b"⟩,
   ⟨"scope_end", "\\\x7d", "\\\x7d", "\x7d"⟩,
   ⟨"dollar", "\\$", "\\$", "$"⟩,
   ⟨"dquote", "\"", "\"", "&quot;"⟩,
   ⟨"ampersand", "&", "\\&", "&amp;"⟩,
   ⟨"lt", "<", "<", "&lt;"⟩,
   ⟨"gt", ">", ">", "&gt;"⟩,
   ⟨"lquote", "`", "`", "\u2018"⟩,
   ⟨"rquote", "'", "'", "\u2019"⟩,
   ⟨"ldquote", "``", "``", "\u201c"⟩,
   ⟨"rdquote", "''", "''", "\u201d"⟩,
   ⟨"sharp", "#", "\\#", "#"⟩,
   ⟨"caret", "^", "\\^", "^"⟩,
   ⟨"underline", "_", "\\_", "_"⟩,
   ⟨"tilde", "~", "\\~", "~"⟩]

def ofName? (name : String) : Option EscapedChar :=
  table.find? (·.name == name)

end EscapedChar

end MacroMarkup
