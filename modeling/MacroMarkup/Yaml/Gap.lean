import MacroMarkup.Yaml.Place

/-! The blanks and line breaks between two words of a scalar. -/
namespace MacroMarkup.Yaml

/-- Blanks before the first line break, that break, and the breaks after it.
Blanks behind a break are not kept. -/
structure Gap where
  spaces : List Char := []
  first : Option (List Char) := none
  more : List Char := []
  deriving Repr, Inhabited

namespace Gap

/-- What a gap contributes to a scalar: a single line break is folded to a
space, of several the first is dropped. -/
def folded (gap : Gap) : List Char :=
  match gap.first with
  | none => gap.spaces
  | some first =>
    if first = ['\n'] then (if gap.more.isEmpty then [' '] else gap.more)
    else first ++ gap.more

/-- Extends a gap by all blanks and breaks that come next. A tab before the
column `limit` at the start of a line is refused. -/
def read (limit : Nat) : Nat → Gap → Place → Except String (Gap × Place)
  | 0, gap, place => .ok (gap, place)
  | fuel + 1, gap, place =>
    match place.peek 0 with
    | none => .ok (gap, place)
    | some c =>
      if isBlank c then
        if gap.first.isSome then
          if c = '\t' ∧ place.column < limit then
            .error "found a tab character that violates indentation"
          else read limit fuel gap (place.skip 1)
        else read limit fuel { gap with spaces := gap.spaces ++ [c] } (place.skip 1)
      else if isBreak c then
        let (text, place) := place.readBreak
        match gap.first with
        | none => read limit fuel { spaces := [], first := some text, more := [] } place
        | some _ => read limit fuel { gap with more := gap.more ++ text } place
      else .ok (gap, place)

end Gap

end MacroMarkup.Yaml
