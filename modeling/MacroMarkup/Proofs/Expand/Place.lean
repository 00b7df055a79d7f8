import MacroMarkup.Proofs.Expand.Outcome

/-! The block loop as a sequence of places. At each place the loop ends, or reads
one invocation or one literal character and goes on behind it. -/
namespace MacroMarkup.Expand

/-- Reads the place at hand, where neither the document nor the block ends. -/
def place (env : Env) (block : BlockReader) (rounds : Nat) : Expand String := do
  match ← rest with
  | [] => return ""
  | c :: text =>
    match (← registry).lookup? (c :: text) with
    | some (length, handler) => dispatch env block rounds handler length
    | none => literal c

/-- A place is an invocation if a spelling is found there, and else a character. -/
theorem outcome_place (env : Env) (block : BlockReader) (rounds : Nat) {s : ExpandState} {c : Char}
    {text : List Char} (hRest : s.rest = c :: text) :
    outcome (place env block rounds) s =
      match s.session.registry.lookup? (c :: text) with
      | some (length, handler) => outcome (dispatch env block rounds handler length) s
      | none => outcome (literal c) s := by
  rw [place, outcome_bind_of_ok (outcome_rest s), hRest]
  dsimp only
  rw [outcome_bind_of_ok (outcome_registry s)]
  cases s.session.registry.lookup? (c :: text) <;> rfl

/-- An invocation that is found is dispatched. -/
theorem outcome_place_dispatch (env : Env) (block : BlockReader) (rounds : Nat) {s : ExpandState}
    (hRest : s.rest ≠ []) {length : Nat} {handler : Handler}
    (hFound : s.session.registry.lookup? s.rest = some (length, handler)) :
    outcome (place env block rounds) s = outcome (dispatch env block rounds handler length) s := by
  obtain ⟨c, text, hText⟩ := List.exists_cons_of_ne_nil hRest
  rw [hText] at hFound
  rw [outcome_place env block rounds hText, hFound]

/-- At the end there is nothing to do. -/
theorem outcome_place_atEnd (env : Env) (block : BlockReader) (rounds : Nat) {s : ExpandState}
    (hRest : s.rest = []) : outcome (place env block rounds) s = (.ok "", s) := by
  rw [place, outcome_bind_of_ok (outcome_rest s), hRest]
  rfl

/-- Whether a block ends where this text follows. -/
def endsAt (marker? : Option (List Char)) (text : List Char) : Prop :=
  ∃ marker, marker? = some marker ∧ marker.isPrefixOf text

/-- The block loop for any way to read a place. -/
def loop (place : BlockReader → Nat → Expand String) :
    Nat → Option (List Char) → String → Expand String
  | 0, _, _ => throw .outOfFuel
  | fuel + 1, marker?, output => do
    match ← rest, marker? with
    | [], some marker => fail (.expectedEndMarker (String.ofList marker))
    | [], none => return output
    | c :: text, _ =>
      match marker?.filter (·.isPrefixOf (c :: text)) with
      | some marker =>
        advance marker.length
        return output
      | none =>
        let piece ← place (fun marker? => loop place fuel marker? "") fuel
        loop place fuel marker? (output ++ piece)

theorem not_endsAt_none (text : List Char) : ¬ endsAt none text := by
  rintro ⟨marker, h, -⟩
  cases h

theorem endsAt_single {c d : Char} {text : List Char} : endsAt (some [c]) (d :: text) ↔ c = d := by
  constructor
  · rintro ⟨marker, hMarker, hPrefix⟩
    cases hMarker
    rw [List.isPrefixOf_iff_prefix, List.cons_prefix_cons] at hPrefix
    exact hPrefix.1
  · rintro rfl
    exact ⟨[c], rfl, List.isPrefixOf_iff_prefix.mpr (List.prefix_append [c] text)⟩

section Loop

variable (read : BlockReader → Nat → Expand String)

theorem outcome_loop_zero (marker? : Option (List Char)) (output : String) (s : ExpandState) :
    outcome (loop read 0 marker? output) s = (.error .outOfFuel, s) := rfl

theorem outcome_loop_atEnd (fuel : Nat) (output : String) {s : ExpandState} (hRest : s.rest = []) :
    outcome (loop read (fuel + 1) none output) s = (.ok output, s) := by
  rw [loop, outcome_bind_of_ok (outcome_rest s), hRest]
  rfl

/-- Text that ends in front of its marker is an error. -/
theorem outcome_loop_unterminated (fuel : Nat) (marker : List Char) (output : String)
    {s : ExpandState} (hRest : s.rest = []) :
    outcome (loop read (fuel + 1) (some marker) output) s =
      (.error (.error (s.document.error (.expectedEndMarker (String.ofList marker)))), s) := by
  rw [loop, outcome_bind_of_ok (outcome_rest s), hRest]
  rfl

/-- The marker is read, and ends the block. -/
theorem outcome_loop_marker (fuel : Nat) {marker : List Char} (output : String) {s : ExpandState}
    (hRest : s.rest ≠ []) (hMarker : marker.isPrefixOf s.rest) :
    outcome (loop read (fuel + 1) (some marker) output) s =
      (.ok output, s.advance marker.length) := by
  rw [loop, outcome_bind_of_ok (outcome_rest s)]
  generalize s.rest = text at hRest hMarker
  cases text with
  | nil => exact absurd rfl hRest
  | cons c text =>
      simp only [Option.filter_some, hMarker, if_true]
      rfl

/-- One round of the loop where the block does not end. -/
theorem outcome_loop_place (fuel : Nat) {marker? : Option (List Char)} (output : String)
    {s : ExpandState} (hRest : s.rest ≠ []) (hMarker : ¬ endsAt marker? s.rest) :
    outcome (loop read (fuel + 1) marker? output) s =
      outcome (read (fun marker? => loop read fuel marker? "") fuel >>= fun piece =>
        loop read fuel marker? (output ++ piece)) s := by
  have hFilter : marker?.filter (·.isPrefixOf s.rest) = none := by
    cases marker? with
    | none => rfl
    | some marker =>
        have hNot : ¬ marker.isPrefixOf s.rest := fun h => hMarker ⟨marker, rfl, h⟩
        simp [Option.filter_some, hNot]
  rw [loop, outcome_bind_of_ok (outcome_rest s)]
  generalize s.rest = text at hRest hFilter
  cases text with
  | nil => exact absurd rfl hRest
  | cons c text => simp only [hFilter]

end Loop

/-- The block loop reads each of its places in the same way. -/
theorem block_eq_loop (env : Env) : block env = loop (place env) := by
  funext fuel marker? output
  induction fuel generalizing marker? output with
  | zero => rfl
  | succ fuel ih =>
      have hInner : (fun marker? => block env fuel marker? "") =
          fun marker? => loop (place env) fuel marker? "" := by
        funext marker?
        exact ih marker? ""
      suffices hOutcome : ∀ s, outcome (block env (fuel + 1) marker? output) s =
          outcome (loop (place env) (fuel + 1) marker? output) s from funext hOutcome
      intro s
      rw [block, loop, outcome_bind_of_ok (outcome_rest s), outcome_bind_of_ok (outcome_rest s)]
      cases hRest : s.rest with
      | nil => cases marker? <;> rfl
      | cons c text =>
          dsimp only
          cases marker?.filter (·.isPrefixOf (c :: text)) with
          | some marker => rfl
          | none =>
              dsimp only
              rw [outcome_bind_of_ok (outcome_registry s), ← hInner, outcome_bind,
                outcome_place env _ fuel hRest]
              cases s.session.registry.lookup? (c :: text) <;> dsimp only <;>
                rw [outcome_bind] <;> simp only [ih]

section Block

variable (env : Env)

/-- A block without a marker ends with its text. -/
theorem outcome_block_atEnd (fuel : Nat) (output : String) {s : ExpandState} (hRest : s.rest = []) :
    outcome (block env (fuel + 1) none output) s = (.ok output, s) := by
  rw [block_eq_loop]
  exact outcome_loop_atEnd _ fuel output hRest

/-- A block with a marker must not end with its text. -/
theorem outcome_block_unterminated (fuel : Nat) (marker : List Char) (output : String)
    {s : ExpandState} (hRest : s.rest = []) :
    outcome (block env (fuel + 1) (some marker) output) s =
      (.error (.error (s.document.error (.expectedEndMarker (String.ofList marker)))), s) := by
  rw [block_eq_loop]
  exact outcome_loop_unterminated _ fuel marker output hRest

/-- A block ends with its marker, which is read. -/
theorem outcome_block_marker (fuel : Nat) {marker : List Char} (output : String) {s : ExpandState}
    (hRest : s.rest ≠ []) (hMarker : marker.isPrefixOf s.rest) :
    outcome (block env (fuel + 1) (some marker) output) s =
      (.ok output, s.advance marker.length) := by
  rw [block_eq_loop]
  exact outcome_loop_marker _ fuel output hRest hMarker

/-- Otherwise one place is read, and the block goes on behind it. -/
theorem outcome_block_place (fuel : Nat) {marker? : Option (List Char)} (output : String)
    {s : ExpandState} (hRest : s.rest ≠ []) (hMarker : ¬ endsAt marker? s.rest) :
    outcome (block env (fuel + 1) marker? output) s =
      outcome (place env (fun marker? => block env fuel marker? "") fuel >>= fun piece =>
        block env fuel marker? (output ++ piece)) s := by
  rw [block_eq_loop]
  exact outcome_loop_place _ fuel output hRest hMarker

/-- The contents of a scope end with the closing brace. -/
theorem outcome_block_scopeEnd (fuel : Nat) (output : String) {s : ExpandState} {text : List Char}
    (hRest : s.rest = '\x7d' :: text) :
    outcome (block env (fuel + 1) (some ['\x7d']) output) s = (.ok output, s.advance 1) := by
  refine outcome_block_marker env fuel output (by simp [hRest]) ?_
  rw [hRest]
  exact List.isPrefixOf_iff_prefix.mpr (List.prefix_append ['\x7d'] text)

end Block

end MacroMarkup.Expand
