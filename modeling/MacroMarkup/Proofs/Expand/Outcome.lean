import MacroMarkup.Compile
import MacroMarkup.Proofs.Reader
import Mathlib.Control.Monad.Basic

/-! What the computations of an expansion do to a state, as equations. A later
proof rewrites with these and never unfolds the monad. -/
namespace MacroMarkup

abbrev ExpandState.rest (state : ExpandState) : List Char :=
  state.document.reader.rest

abbrev ExpandState.engine (state : ExpandState) : AutoBreak :=
  state.document.autobreak

def ExpandState.update (state : ExpandState) (change : DocumentState → DocumentState) :
    ExpandState :=
  { state with document := change state.document }

/-- The state with the document at hand read `count` characters further. -/
def ExpandState.advance (state : ExpandState) (count : Nat) : ExpandState :=
  state.update fun document => { document with reader := document.reader.advance count }

def ExpandState.withEngine (state : ExpandState) (engine : AutoBreak) : ExpandState :=
  state.update fun document => { document with autobreak := engine }

def ExpandState.suspend (state : ExpandState) : ExpandState :=
  state.withEngine { state.engine with enabled := false }

def ExpandState.resume (state : ExpandState) (enabled : Bool) : ExpandState :=
  state.withEngine (state.engine.restore enabled)

/-- The state inside or outside of so many invocations and scopes. -/
def ExpandState.withDepth (state : ExpandState) (depth : Nat) : ExpandState :=
  state.update fun document => { document with depth }

def ExpandState.withDocument (state : ExpandState) (document : DocumentState) : ExpandState :=
  { state with document }

def ExpandState.withRegistry (state : ExpandState) (registry : Registry) : ExpandState :=
  { state with session := { state.session with registry } }

def DocumentState.generated (current : DocumentState) (text : String) : DocumentState :=
  { DocumentState.start current.file current.path text current.target with
    autobreak := AutoBreak.disabled current.target, depth := current.depth }

def DocumentState.library (current : DocumentState) (source : Source) (text : String) :
    DocumentState :=
  { DocumentState.start source.filename source.path text current.target with depth := current.depth }

theorem ExpandState.rest_advance (s : ExpandState) (count : Nat) :
    (s.advance count).rest = s.rest.drop count :=
  Reader.rest_advance count s.document.reader

theorem ExpandState.rest_advance_one {s : ExpandState} {c : Char} {text : List Char}
    (h : s.rest = c :: text) : (s.advance 1).rest = text := by
  rw [s.rest_advance, h]
  rfl

theorem ExpandState.advance_advance (s : ExpandState) (count count' : Nat) :
    (s.advance count).advance count' = s.advance (count + count') := by
  unfold ExpandState.advance ExpandState.update
  dsimp only
  rw [Reader.advance_advance]

namespace Expand

variable {α β : Type}

/-- What a computation gives from a state, and the state that it leaves. -/
def outcome (action : Expand α) (state : ExpandState) : Except Failure α × ExpandState :=
  ExceptT.run action state

theorem outcome_throw (failure : Failure) (s : ExpandState) :
    outcome (throw failure : Expand α) s = (.error failure, s) := rfl

/-- The second computation runs where the first has succeeded. -/
theorem outcome_bind (action : Expand α) (next : α → Expand β) (s : ExpandState) :
    outcome (action >>= next) s =
      match outcome action s with
      | (.ok a, s') => outcome (next a) s'
      | (.error failure, s') => (.error failure, s') := by
  change (ExceptT.run (action >>= next)) s = _
  rw [ExceptT.run_bind]
  unfold outcome
  generalize h : ExceptT.run action s = result
  obtain ⟨_ | a, s'⟩ := result
  · simp only [bind, StateT.bind, h]
    rfl
  · simp only [bind, StateT.bind, h]

/-- The handler runs in the state that the failure has left. -/
theorem outcome_tryCatch (action : Expand α) (handle : Failure → Expand α) (s : ExpandState) :
    outcome (tryCatch action handle) s =
      match outcome action s with
      | (.ok a, s') => (.ok a, s')
      | (.error failure, s') => outcome (handle failure) s' := by
  have hRun : ExceptT.run action s = action s := rfl
  unfold outcome
  rw [hRun]
  change ExceptT.tryCatch action handle s = _
  generalize h : action s = result
  obtain ⟨_ | a, s'⟩ := result
  · simp only [ExceptT.tryCatch, ExceptT.mk, bind, StateT.bind, h]
    rfl
  · simp only [ExceptT.tryCatch, ExceptT.mk, bind, StateT.bind, h]
    rfl

/-- A sequence that succeeds has both its parts succeed, one after the other. -/
theorem outcome_bind_ok {action : Expand α} {next : α → Expand β} {s s' : ExpandState} {b : β}
    (h : outcome (action >>= next) s = (.ok b, s')) :
    ∃ a middle, outcome action s = (.ok a, middle) ∧ outcome (next a) middle = (.ok b, s') := by
  rw [outcome_bind] at h
  generalize hFirst : outcome action s = result at h
  obtain ⟨_ | a, middle⟩ := result
  · simp at h
  · exact ⟨a, middle, rfl, h⟩

theorem outcome_ok_of_fst {action : Expand α} {s : ExpandState} {a : α}
    (h : (outcome action s).1 = .ok a) : ∃ last, outcome action s = (.ok a, last) :=
  ⟨(outcome action s).2, Prod.ext h rfl⟩

theorem outcome_bind_of_ok {action : Expand α} {next : α → Expand β} {s s' : ExpandState} {a : α}
    (h : outcome action s = (.ok a, s')) :
    outcome (action >>= next) s = outcome (next a) s' := by
  rw [outcome_bind, h]

theorem outcome_bind_of_error {action : Expand α} {next : α → Expand β} {s s' : ExpandState}
    {failure : Failure} (h : outcome action s = (.error failure, s')) :
    outcome (action >>= next) s = (.error failure, s') := by
  rw [outcome_bind, h]

theorem outcome_get (s : ExpandState) : outcome get s = (.ok s, s) := rfl

theorem outcome_document (s : ExpandState) : outcome document s = (.ok s.document, s) := rfl

theorem outcome_modifyDocument (change : DocumentState → DocumentState) (s : ExpandState) :
    outcome (modifyDocument change) s = (.ok (), s.update change) := rfl

theorem outcome_registry (s : ExpandState) :
    outcome registry s = (.ok s.session.registry, s) := rfl

theorem outcome_rest (s : ExpandState) : outcome rest s = (.ok s.rest, s) := rfl

/-- An error is reported at the place that the document has reached. -/
theorem outcome_fail (cause : ErrorCause) (s : ExpandState) :
    outcome (fail cause : Expand α) s = (.error (.error (s.document.error cause)), s) := rfl

theorem outcome_located (result : Except ErrorCause α) (s : ExpandState) :
    outcome (located result) s =
      match result with
      | .ok a => (.ok a, s)
      | .error cause => (.error (.error (s.document.error cause)), s) := by
  cases result <;> rfl

theorem outcome_advance (count : Nat) (s : ExpandState) :
    outcome (advance count) s = (.ok (), s.advance count) := rfl

theorem outcome_withAutoBreak (operation : AutoBreak → α × AutoBreak) (s : ExpandState) :
    outcome (withAutoBreak operation) s =
      (.ok (operation s.engine).1, s.withEngine (operation s.engine).2) := rfl

theorem outcome_ascend (s : ExpandState) :
    outcome ascend s = (.ok (), s.withDepth (s.document.depth - 1)) := rfl

theorem outcome_addExecuted (count : Nat) (s : ExpandState) :
    outcome (addExecuted count) s =
      (.ok (), s.update fun document => { document with executed := document.executed + count }) :=
  rfl

/-- The level is entered in any case, and then the limit is checked. -/
theorem outcome_descend (env : Env) (s : ExpandState) :
    outcome (descend env) s =
      if env.options.maxDepth < s.document.depth + 1 then
        (.error (.error (s.document.error (.recursionLimitExceeded env.options.maxDepth))),
          s.withDepth (s.document.depth + 1))
      else (.ok (), s.withDepth (s.document.depth + 1)) := by
  by_cases h : env.options.maxDepth < s.document.depth + 1
  · rw [if_pos h]
    change outcome (if env.options.maxDepth < s.document.depth + 1 then _ else _) _ = _
    rw [if_pos h]
    rfl
  · rw [if_neg h]
    change outcome (if env.options.maxDepth < s.document.depth + 1 then _ else _) _ = _
    rw [if_neg h]
    rfl

/-- Suspension puts the setting back whatever the outcome is. -/
theorem outcome_suspended (action : Expand α) (s : ExpandState) :
    outcome (suspended action) s =
      ((outcome action s.suspend).1, (outcome action s.suspend).2.resume s.engine.enabled) := by
  unfold suspended
  rw [outcome_bind_of_ok (outcome_withAutoBreak _ s)]
  have hSuspend : s.withEngine (AutoBreak.suspend s.engine).2 = s.suspend := rfl
  rw [hSuspend, outcome_bind, outcome_tryCatch]
  generalize outcome action s.suspend = result
  obtain ⟨_ | a, s'⟩ := result <;> rfl

/-- Another document is read in the same session, and the document at hand
comes back as it was. -/
theorem outcome_onDocument (other : DocumentState) (action : Expand α) (s : ExpandState) :
    outcome (onDocument other action) s =
      match outcome action (s.withDocument other) with
      | (.ok a, s') => (.ok (a, s'.document), s'.withDocument s.document)
      | (.error failure, s') => (.error failure, s'.withDocument s.document) := by
  unfold onDocument
  rw [outcome_bind_of_ok (outcome_document s), outcome_bind_of_ok (outcome_modifyDocument _ s)]
  have hStart : (s.update fun _ => other) = s.withDocument other := rfl
  rw [outcome_bind, outcome_tryCatch, hStart]
  generalize outcome action _ = result
  obtain ⟨_ | a, s'⟩ := result <;> rfl

theorem outcome_markLoaded (location : List String) (s : ExpandState) :
    outcome (markLoaded location) s =
      if s.session.loaded.contains location then (.ok false, s)
      else
        (.ok true, { s with session := { s.session with loaded := location :: s.session.loaded } }) := by
  unfold markLoaded
  rw [outcome_bind_of_ok (outcome_get s)]
  dsimp only
  split <;> rfl

end Expand

end MacroMarkup
