import MacroMarkup.Proofs.Expand.Growth
import MacroMarkup.Proofs.Expand.Steps
import MacroMarkup.Proofs.Registry.Match

/-! The run of a block as a chain of places. -/
namespace MacroMarkup.Expand

/-- What a loop emits stands behind what was emitted before. -/
theorem outcome_loop_output (read : BlockReader → Nat → Expand String) (fuel : Nat)
    (marker? : Option (List Char)) (output : String) (s : ExpandState) :
    outcome (loop read fuel marker? output) s =
      match outcome (loop read fuel marker? "") s with
      | (.ok text, s') => (.ok (output ++ text), s')
      | (.error failure, s') => (.error failure, s') := by
  induction fuel generalizing output s with
  | zero => rfl
  | succ fuel ih =>
      by_cases hRest : s.rest = []
      · cases marker? with
        | none =>
            rw [outcome_loop_atEnd read fuel output hRest, outcome_loop_atEnd read fuel "" hRest]
            dsimp only
            rw [String.append_empty]
        | some marker =>
            rw [outcome_loop_unterminated read fuel marker output hRest,
              outcome_loop_unterminated read fuel marker "" hRest]
      · by_cases hMarker : endsAt marker? s.rest
        · obtain ⟨marker, rfl, hPrefix⟩ := hMarker
          rw [outcome_loop_marker read fuel output hRest hPrefix,
            outcome_loop_marker read fuel "" hRest hPrefix]
          dsimp only
          rw [String.append_empty]
        · rw [outcome_loop_place read fuel output hRest hMarker,
            outcome_loop_place read fuel "" hRest hMarker, outcome_bind, outcome_bind]
          generalize outcome (read _ fuel) s = result
          obtain ⟨_ | piece, middle⟩ := result
          · rfl
          · dsimp only
            rw [ih (output ++ piece), ih ("" ++ piece)]
            generalize outcome (loop read fuel marker? "") middle = result
            obtain ⟨_ | text, s'⟩ := result
            · rfl
            · simp only [String.append_assoc, String.empty_append]

/-- One round of a loop that succeeds, with what comes before it and behind it. -/
theorem loop_ok {read : BlockReader → Nat → Expand String} {fuel : Nat}
    {marker? : Option (List Char)} {s s' : ExpandState} {out : String}
    (h : outcome (loop read (fuel + 1) marker? "") s = (.ok out, s')) :
    (s.rest = [] ∧ marker? = none ∧ out = "" ∧ s' = s) ∨
    (∃ marker, marker? = some marker ∧ s.rest ≠ [] ∧ marker.isPrefixOf s.rest ∧ out = "" ∧
      s' = s.advance marker.length) ∨
    (s.rest ≠ [] ∧ ¬ endsAt marker? s.rest ∧ ∃ piece middle after,
      outcome (read (fun marker? => loop read fuel marker? "") fuel) s = (.ok piece, middle) ∧
      outcome (loop read fuel marker? "") middle = (.ok after, s') ∧ out = piece ++ after) := by
  by_cases hRest : s.rest = []
  · cases marker? with
    | none =>
        rw [outcome_loop_atEnd _ fuel "" hRest] at h
        cases h
        exact .inl ⟨hRest, rfl, rfl, rfl⟩
    | some marker =>
        rw [outcome_loop_unterminated _ fuel marker "" hRest] at h
        cases h
  · by_cases hEnds : endsAt marker? s.rest
    · obtain ⟨marker, rfl, hPrefix⟩ := hEnds
      rw [outcome_loop_marker _ fuel "" hRest hPrefix] at h
      cases h
      exact .inr (.inl ⟨marker, rfl, hRest, hPrefix, rfl, rfl⟩)
    · rw [outcome_loop_place _ fuel "" hRest hEnds] at h
      obtain ⟨piece, middle, hPlace, hAfter⟩ := outcome_bind_ok h
      rw [outcome_loop_output] at hAfter
      generalize hInner : outcome (loop read fuel marker? "") middle = result at hAfter
      obtain ⟨_ | after, last⟩ := result
      · cases hAfter
      · cases hAfter
        refine .inr (.inr ⟨hRest, hEnds, piece, middle, after, hPlace, hInner, ?_⟩)
        rw [String.empty_append]

/-- What has been read so far is put in front of what is still to come. -/
theorem outcome_block_output (env : Env) (fuel : Nat) (marker? : Option (List Char))
    (output : String) (s : ExpandState) :
    outcome (block env fuel marker? output) s =
      match outcome (block env fuel marker? "") s with
      | (.ok text, s') => (.ok (output ++ text), s')
      | (.error failure, s') => (.error failure, s') := by
  rw [block_eq_loop]
  exact outcome_loop_output _ fuel marker? output s

/-- A block is a place and then the block behind it. -/
theorem outcome_blockReader_then {env : Env} {fuel : Nat} {marker? : Option (List Char)}
    {s middle s' : ExpandState} {piece after : String} (hSome : s.rest ≠ [])
    (hEnds : ¬ endsAt marker? s.rest)
    (hPlace : outcome (place env (blockReader env fuel) fuel) s = (.ok piece, middle))
    (hBlock : outcome (blockReader env fuel marker?) middle = (.ok after, s')) :
    outcome (blockReader env (fuel + 1) marker?) s = (.ok (piece ++ after), s') := by
  unfold blockReader at hBlock ⊢
  rw [outcome_block_place env fuel "" hSome hEnds]
  change outcome (place env (blockReader env fuel) fuel >>= _) s = _
  rw [outcome_bind_of_ok hPlace, outcome_block_output, hBlock, String.empty_append]

/-- A blank emits nothing, wherever it stands. -/
theorem outcome_place_blank (env : Env) (block : BlockReader) (rounds : Nat) {s : ExpandState}
    {c : Char} {text : List Char} (hBlank : c = ' ' ∨ c = '\n') (hRest : s.rest = c :: text)
    (hBuilt : s.session.registry.Built) :
    outcome (place env block rounds) s =
      (.ok "", (s.withEngine (s.engine.behindBlanks [c])).advance 1) := by
  rw [outcome_place env block rounds hRest, hBuilt.lookup?_blank hBlank]
  dsimp only
  rw [outcome_literal, AutoBreak.process_blank hBlank]

theorem rest_behindBlank {s : ExpandState} {c : Char} {text : List Char}
    (hRest : s.rest = c :: text) (engine : AutoBreak) :
    ((s.withEngine engine).advance 1).rest = text :=
  ExpandState.rest_advance_one hRest

/-- The places of a document between two states, none of which is its end. They
emit some text, and each takes one unit of fuel. -/
inductive Steps (env : Env) : Nat → ExpandState → String → Nat → ExpandState → Prop where
  | refl (fuel : Nat) (s : ExpandState) : Steps env fuel s "" fuel s
  | place {fuel fuel' : Nat} {s middle s' : ExpandState} {piece out : String} : s.rest ≠ [] →
      outcome (place env (blockReader env fuel) fuel) s = (.ok piece, middle) →
      Steps env fuel middle out fuel' s' → Steps env (fuel + 1) s (piece ++ out) fuel' s'

variable {env : Env} {fuel fuel' : Nat} {s s' : ExpandState} {out : String}

/-- The run of a document goes on from each of its places. -/
theorem Steps.outcome_block (h : Steps env fuel s out fuel' s') (output : String) :
    outcome (block env fuel none output) s = outcome (block env fuel' none (output ++ out)) s' := by
  induction h generalizing output with
  | refl fuel s => rw [String.append_empty]
  | @place fuel fuel' s middle s' piece out hRest hPlace hSteps ih =>
      rw [outcome_block_place env fuel output hRest (not_endsAt_none _)]
      change outcome (Expand.place env (blockReader env fuel) fuel >>= _) s = _
      rw [outcome_bind_of_ok hPlace, ih, String.append_assoc]

/-- A document that succeeds emits what its places emit, one behind the other. -/
theorem Steps.expandDocument_ok {last : ExpandState} {text : String}
    (h : Steps env fuel s out (fuel' + 1) s') (hRest : s'.rest ≠ [])
    (hRun : outcome (expandDocument env fuel) s = (.ok text, last)) :
    ∃ piece middle tail,
      outcome (Expand.place env (blockReader env fuel') fuel') s' = (.ok piece, middle) ∧
        text = out ++ piece ++ tail := by
  obtain ⟨output, ended, hBlock, rfl, -⟩ := wholeDocument_ok hRun
  unfold blockReader at hBlock
  rw [h.outcome_block, outcome_block_place env fuel' _ hRest (not_endsAt_none _)] at hBlock
  obtain ⟨piece, middle, hPlace, hAfter⟩ := outcome_bind_ok hBlock
  rw [outcome_block_output] at hAfter
  generalize outcome (block env fuel' none "") middle = result at hAfter
  obtain ⟨_ | after, s''⟩ := result
  · cases hAfter
  · cases hAfter
    refine ⟨piece, middle, after ++ ended.engine.close.1, hPlace, ?_⟩
    simp only [String.empty_append, String.append_assoc]

/-- What each computation keeps, many places keep. -/
theorem Steps.keeps {R E : ExpandState → ExpandState → Prop} (law : Law R E)
    (h : Steps env fuel s out fuel' s') : R s s' := by
  induction h with
  | refl fuel s => exact law.refl s
  | @place fuel fuel' s middle s' piece out hRest hPlace hSteps ih =>
      exact law.trans ((law.place env (law.block env fuel · "") fuel).ok hPlace) ih

theorem Steps.trans {fuel'' : Nat} {s'' : ExpandState} {out' : String}
    (h : Steps env fuel s out fuel' s') (h' : Steps env fuel' s' out' fuel'' s'') :
    Steps env fuel s (out ++ out') fuel'' s'' := by
  induction h with
  | refl fuel s => rwa [String.empty_append]
  | place hRest hPlace hSteps ih =>
      rw [String.append_assoc]
      exact .place hRest hPlace (ih h')

/-- A place is never empty. -/
theorem place_consumes (hWellFormed : s.session.registry.WellFormed) {piece : String}
    (hRest : s.rest ≠ []) (h : outcome (place env (blockReader env fuel) fuel) s = (.ok piece, s')) :
    s'.rest.length < s.rest.length := by
  obtain ⟨c, text, hText⟩ := List.exists_cons_of_ne_nil hRest
  rw [outcome_place env _ fuel hText] at h
  cases hLookup : s.session.registry.lookup? (c :: text) with
  | none =>
      rw [hLookup] at h
      dsimp only at h
      rw [outcome_literal, Prod.mk.injEq] at h
      have hSame : (s.withEngine (s.engine.process c).2).rest = c :: text := hText
      rw [← h.2, ExpandState.rest_advance, hSame, hText]
      exact Nat.lt_succ_self _
  | some found =>
      obtain ⟨length, handler⟩ := found
      rw [hLookup] at h
      obtain ⟨-, expansion, middle, hHandler, -, rfl⟩ := dispatch_ok h
      have hOnward := (onward.runHandler env (onward.block env fuel · "") fuel handler _).ok hHandler
      have hShorter : middle.rest.length ≤ (s.rest.drop length).length := by
        rw [← s.rest_advance]
        exact hOnward.rest.length_le
      obtain ⟨key, hLongest, rfl⟩ := hWellFormed.longest_of_lookup? hLookup
      have hKey := List.length_pos_iff.mpr hLongest.ne_nil
      rw [List.length_drop] at hShorter
      have hSome := List.length_pos_iff.mpr hRest
      change middle.rest.length < _
      omega

end MacroMarkup.Expand
