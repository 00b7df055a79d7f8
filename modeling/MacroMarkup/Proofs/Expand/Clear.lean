import MacroMarkup.Proofs.Cause
import MacroMarkup.Proofs.Expand.Steps

/-! Runs that end in no clash of definitions. The rules say what is known behind a run of what
is known in front of it, for each way to put computations together. -/
namespace MacroMarkup

/-- A definition that clashes with an earlier one of the same spelling. -/
def ErrorCause.Clash (cause : ErrorCause) : Prop :=
  cause = .conflictCode ∨ cause = .paramMismatch

/-- A failure that comes from such a definition. -/
def Failure.Clash : Failure → Prop
  | .error raised => raised.cause.Clash
  | .outOfFuel => False

/-- Front matter that is refused is no clash. -/
theorem FrontMatter.not_clash_of_extract {source : Source} {error : LocatedError}
    (h : extract source = .error error) : ¬ error.cause.Clash := by
  unfold ErrorCause.Clash
  rcases cause_of_extract h with hCause | ⟨reason, hCause⟩ <;> simp [hCause]

namespace Expand

variable {α β : Type} {env : Env} {s s' : ExpandState}

/-- From this state a computation ends in no clash, and if it succeeds then its result and
the state behind it are such. -/
structure Clear (action : Expand α) (s : ExpandState) (post : α → ExpandState → Prop) : Prop where
  ok {a : α} {s' : ExpandState} : outcome action s = (.ok a, s') → post a s'
  error {failure : Failure} {s' : ExpandState} :
    outcome action s = (.error failure, s') → ¬ failure.Clash

namespace Clear

variable {action : Expand α} {next : α → Expand β} {post : β → ExpandState → Prop}

theorem of_ok {a : α} {post : α → ExpandState → Prop} (h : outcome action s = (.ok a, s'))
    (hPost : post a s') : Clear action s post where
  ok hOk := by
    cases h.symm.trans hOk
    exact hPost
  error hError := nomatch h.symm.trans hError

theorem of_error {failure : Failure} {post : α → ExpandState → Prop}
    (h : outcome action s = (.error failure, s')) (hClash : ¬ failure.Clash) :
    Clear action s post where
  ok hOk := nomatch h.symm.trans hOk
  error hError := by
    cases h.symm.trans hError
    exact hClash

/-- What is known of a run is known of every computation with the same one. -/
theorem of_outcome_eq {action' : Expand α} {s'' : ExpandState} {post : α → ExpandState → Prop}
    (h : Clear action' s'' post) (hSame : outcome action s = outcome action' s'') :
    Clear action s post where
  ok hOk := h.ok (hSame.symm.trans hOk)
  error hError := h.error (hSame.symm.trans hError)

/-- The two ways for a computation to end, side by side. -/
theorem iff_match {post : α → ExpandState → Prop} : Clear action s post ↔
    match outcome action s with
    | (.ok a, s') => post a s'
    | (.error failure, _) => ¬ failure.Clash := by
  generalize hRun : outcome action s = result
  obtain ⟨failure | a, s'⟩ := result
  · exact ⟨fun h => h.error hRun, of_error hRun⟩
  · exact ⟨fun h => h.ok hRun, of_ok hRun⟩

theorem bind {middle : α → ExpandState → Prop} (h : Clear action s middle)
    (hNext : ∀ a s', middle a s' → Clear (next a) s' post) : Clear (action >>= next) s post := by
  rw [iff_match] at h ⊢
  rw [outcome_bind]
  generalize outcome action s = result at h ⊢
  obtain ⟨failure | a, s'⟩ := result
  · exact h
  · exact iff_match.mp (hNext a s' h)

/-- A run that is known step by step. -/
theorem step {a : α} (h : outcome action s = (.ok a, s')) (hNext : Clear (next a) s' post) :
    Clear (action >>= next) s post :=
  hNext.of_outcome_eq (outcome_bind_of_ok h)

theorem mono {post post' : α → ExpandState → Prop} (h : Clear action s post)
    (hPost : ∀ a s', post a s' → post' a s') : Clear action s post' := by
  rw [iff_match] at h ⊢
  generalize outcome action s = result at h ⊢
  obtain ⟨failure | a, s'⟩ := result
  · exact h
  · exact hPost a s' h

/-- What comes out is dropped. -/
theorem discard {post : ExpandState → Prop} (h : Clear action s fun _ => post) :
    Clear (action >>= fun _ => pure ()) s fun _ => post :=
  h.bind fun _ _ hPost => .of_ok rfl hPost

/-- On a document of its own, which is put back afterwards. -/
theorem onDocument {other : DocumentState} {post : α × DocumentState → ExpandState → Prop}
    (h : Clear action (s.withDocument other)
      fun a s' => post (a, s'.document) (s'.withDocument s.document)) :
    Clear (Expand.onDocument other action) s post := by
  rw [iff_match] at h ⊢
  rw [outcome_onDocument]
  generalize outcome action (s.withDocument other) = result at h ⊢
  obtain ⟨failure | a, s'⟩ := result <;> exact h

/-- A document closes its paragraph in the end. -/
theorem wholeDocument {block : BlockReader} {post : ExpandState → Prop}
    (h : Clear (block none) s fun _ s' => post (s'.withEngine s'.engine.close.2)) :
    Clear (Expand.wholeDocument block) s fun _ => post := by
  rw [iff_match] at h ⊢
  rw [outcome_wholeDocument]
  generalize outcome (block none) s = result at h ⊢
  obtain ⟨failure | output, s'⟩ := result <;> exact h

/-- An invocation is one level deeper, which may be too deep. -/
theorem place {block : BlockReader} {rounds length : Nat} {handler : Handler}
    {post : ExpandState → Prop} (hSome : s.rest ≠ [])
    (hFound : s.session.registry.lookup? s.rest = some (length, handler))
    (h : ∀ invocation, Clear (runHandler env block rounds handler invocation) (s.entered length)
      fun expansion s' => post (s'.exited expansion.firings)) :
    Clear (Expand.place env block rounds) s fun _ => post := by
  rw [iff_match, outcome_place_dispatch env block rounds hSome hFound]
  by_cases hDepth : s.document.depth + 1 ≤ env.options.maxDepth
  · rw [outcome_dispatch rounds handler length hDepth]
    have hRun := h (String.ofList (s.rest.take length))
    rw [iff_match] at hRun
    generalize outcome (runHandler env block rounds handler _) _ = result at hRun ⊢
    obtain ⟨failure | expansion, s'⟩ := result <;> exact hRun
  · unfold dispatch
    rw [outcome_bind_of_ok (outcome_rest s)]
    dsimp only
    rw [outcome_bind_of_ok (outcome_advance length s), outcome_bind, outcome_descend,
      if_pos (show _ < (s.advance length).document.depth + 1 from Nat.not_le.mp hDepth)]
    exact fun hClash => hClash.elim nofun nofun

/-- One place is read, and then the text behind it. -/
theorem block {fuel : Nat} {output : String} {middle post : ExpandState → Prop} (hSome : s.rest ≠ [])
    (hPlace : Clear (Expand.place env (blockReader env fuel) fuel) s fun _ => middle)
    (hNext : ∀ s' output, middle s' → Clear (Expand.block env fuel none output) s' fun _ => post) :
    Clear (Expand.block env (fuel + 1) none output) s fun _ => post := by
  have hStep := hPlace.bind fun piece s' hMiddle => hNext s' (output ++ piece) hMiddle
  exact hStep.of_outcome_eq (outcome_block_place env fuel output hSome (not_endsAt_none _))

end Clear

end Expand

end MacroMarkup
