import MacroMarkup.Proofs.Expand.Fuel
import MacroMarkup.Proofs.Expand.Run

/-! Runs that stop where a place is not allowed. One that goes on to the end is the run
that is always meant, and each of its places was allowed, on every level. -/
namespace MacroMarkup.Expand

/-- Reads a place where that is allowed, which may depend on how blocks are read. -/
def placeIf (allowed : BlockReader → ExpandState → Bool) (env : Env) (block : BlockReader)
    (rounds : Nat) : Expand String := do
  if allowed block (← get) then place env block rounds else throw .outOfFuel

/-- The block loop that stops where a place is not allowed, from an empty output. -/
def blockIf (allowed : BlockReader → ExpandState → Bool) (env : Env) (fuel : Nat) : BlockReader :=
  fun marker? => loop (placeIf allowed env) fuel marker? ""

/-- The current document, expanded whole by such a loop. -/
def documentIf (allowed : BlockReader → ExpandState → Bool) (env : Env) (fuel : Nat) :
    Expand String :=
  wholeDocument (blockIf allowed env fuel)

variable {allowed : BlockReader → ExpandState → Bool} {env : Env}

/-- A place that is not allowed is a run that does not end. -/
theorem outcome_placeIf (allowed : BlockReader → ExpandState → Bool) (env : Env)
    (block : BlockReader) (rounds : Nat) (s : ExpandState) :
    outcome (placeIf allowed env block rounds) s =
      if allowed block s then outcome (place env block rounds) s else (.error .outOfFuel, s) := by
  unfold placeIf
  rw [outcome_bind_of_ok (outcome_get s)]
  split <;> rfl

/-- A place that succeeds was allowed. -/
theorem placeIf_ok {block : BlockReader} {rounds : Nat} {s s' : ExpandState} {piece : String}
    (h : outcome (placeIf allowed env block rounds) s = (.ok piece, s')) :
    allowed block s = true ∧ outcome (place env block rounds) s = (.ok piece, s') := by
  rw [outcome_placeIf] at h
  split at h
  · rename_i hAllowed
    exact ⟨hAllowed, h⟩
  · cases h

theorem Below.placeIf {block block' : BlockReader} {rounds rounds' : Nat}
    (hBlock : BlocksBelow block block') (hRounds : rounds ≤ rounds') :
    Below (Expand.placeIf allowed env block rounds) (Expand.place env block' rounds') := by
  intro s
  rw [outcome_placeIf]
  split
  · exact Below.place hBlock env hRounds s
  · exact .inl rfl

/-- What succeeds with the guard succeeds without it. -/
theorem documentIf_below (allowed : BlockReader → ExpandState → Bool) (env : Env) (fuel : Nat) :
    Below (documentIf allowed env fuel) (expandDocument env fuel) := by
  have hBlock : BlocksBelow (blockIf allowed env fuel) (blockReader env fuel) := by
    intro marker?
    unfold blockIf blockReader
    rw [block_eq_loop]
    exact Below.loop Below.placeIf (Nat.le_refl fuel) marker? ""
  exact Below.wholeDocument hBlock

/-- A law holds across a run that may stop. -/
theorem FailureLaw.blockIf {known : Source → Prop} {R : ExpandState → ExpandState → Prop}
    {E : Failure → ExpandState → ExpandState → Prop} (law : FailureLaw known R E)
    [KnownLibraries known env] (fuel : Nat) (marker? : Option (List Char)) :
    Obeys R E (Expand.blockIf allowed env fuel marker?) := by
  refine law.loop (fun {block} rounds hBlock s => ?_) fuel marker? ""
  rw [outcome_placeIf]
  split
  · exact law.place env hBlock rounds s
  · exact law.exhaust s

end MacroMarkup.Expand
