import MacroMarkup.Proofs.Expand.Guarded

/-! Runs that dispatch only to some of the handlers. Where another one would come, such
a run stops, so that one which goes on to the end is the run that is always meant. -/
namespace MacroMarkup.Expand

/-- Reads a place, unless it dispatches to a handler that is not allowed. -/
def placeWithin (allowed : Handler → Bool) (env : Env) (block : BlockReader) (rounds : Nat) :
    Expand String := do
  let text ← rest
  if ((← registry).lookup? text).all fun found => allowed found.2 then place env block rounds
  else throw .outOfFuel

/-- The block loop that keeps to some of the handlers, from an empty output. -/
def blockWithin (allowed : Handler → Bool) (env : Env) (fuel : Nat) : BlockReader :=
  fun marker? => loop (placeWithin allowed env) fuel marker? ""

def documentWithin (allowed : Handler → Bool) (env : Env) (fuel : Nat) : Expand String :=
  wholeDocument (blockWithin allowed env fuel)

variable {allowed : Handler → Bool} {env : Env} {fuel : Nat} {s s' : ExpandState}

/-- Whether the handler at the place at hand, if there is one, is allowed. -/
def handles (allowed : Handler → Bool) (_ : BlockReader) (s : ExpandState) : Bool :=
  (s.session.registry.lookup? s.rest).all fun found => allowed found.2

/-- Allowed handlers are a guard of the place at hand. -/
theorem placeWithin_eq (allowed : Handler → Bool) (env : Env) :
    placeWithin allowed env = placeIf (handles allowed) env := by
  funext block rounds s
  change outcome (placeWithin allowed env block rounds) s =
    outcome (placeIf (handles allowed) env block rounds) s
  rw [outcome_placeIf]
  unfold placeWithin handles
  rw [outcome_bind_of_ok (outcome_rest s), outcome_bind_of_ok (outcome_registry s)]
  split <;> rfl

/-- A place that succeeds has an allowed handler, or none. -/
theorem placeWithin_ok {block : BlockReader} {rounds : Nat} {piece : String}
    (h : outcome (placeWithin allowed env block rounds) s = (.ok piece, s')) :
    (∀ length handler, s.session.registry.lookup? s.rest = some (length, handler) →
      allowed handler = true) ∧ outcome (place env block rounds) s = (.ok piece, s') := by
  rw [placeWithin_eq] at h
  obtain ⟨hAllowed, hPlace⟩ := placeIf_ok h
  refine ⟨fun length handler hFound => ?_, hPlace⟩
  unfold handles at hAllowed
  rw [hFound] at hAllowed
  exact hAllowed

/-- A run that keeps to the allowed handlers to its end is a run. -/
theorem documentWithin_below (allowed : Handler → Bool) (env : Env) (fuel : Nat) :
    Below (documentWithin allowed env fuel) (expandDocument env fuel) := by
  unfold documentWithin blockWithin
  rw [placeWithin_eq]
  exact documentIf_below _ env fuel

end MacroMarkup.Expand
