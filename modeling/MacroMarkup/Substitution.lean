import MacroMarkup.PrefixIndex

/-! Substitution of arguments into the code of a raw macro body, where `#name`
refers to the parameter called `name`. -/
namespace MacroMarkup

/-- The parameters with the arguments bound to them. Of a name that repeats the
last binding holds, and a name without an argument is not bound. -/
def bindings (params args : List String) : PrefixIndex String :=
  (params.zip args).foldl
    (fun index (param, arg) => (index.insert param.toList arg).2)
    PrefixIndex.nil

/-- One pass over the code from left to right, `skip` characters of which
belong to a reference that was already replaced. Inserted text is not read
again, and a mark that no bound name follows stays. -/
def substituteFrom (bound : PrefixIndex String) : Nat → List Char → List Char
  | _, [] => []
  | skip + 1, _ :: rest => substituteFrom bound skip rest
  | 0, c :: rest =>
    if c = '#' then
      match bound.longest? rest with
      | some (length, value) => value.toList ++ substituteFrom bound length rest
      | none => '#' :: substituteFrom bound 0 rest
    else c :: substituteFrom bound 0 rest

/-- The code with every reference replaced by its argument. A reference is to
the longest bound name that follows the mark. -/
def substitute (code : String) (params args : List String) : String :=
  String.ofList (substituteFrom (bindings params args) 0 code.toList)

end MacroMarkup
