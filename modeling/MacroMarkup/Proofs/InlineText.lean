import MacroMarkup.Proofs.Alternation
import MacroMarkup.Proofs.Expand.Steps

/-! Text that stands in a line. A builtin settles what is pending and makes sure that a
paragraph is open before it puts out its text; a literal character does both in one step of
its own. On every engine that calls can lead to, the two come to the same. -/
namespace MacroMarkup

namespace AutoBreak

/-- What holds of an engine that was made, whatever is called: it is tidy, and pending line
breaks count as a space. -/
structure Regular (engine : AutoBreak) : Prop extends engine.Tidy where
  counted : engine.Counted

/-- An engine is regular as it is made. -/
theorem Made.regular {engine : AutoBreak} (h : engine.Made) : engine.Regular := by
  refine ⟨h.tidy, fun hBreaks => absurd ?_ hBreaks⟩
  cases h <;> rfl

/-- Each operation keeps an engine regular. -/
theorem Operation.regular_apply (operation : Operation) {engine : AutoBreak} (h : engine.Regular) :
    (operation.apply engine).2.Regular := by
  refine ⟨operation.tidy_apply h.toTidy, ?_⟩
  cases operation with
  | process c => exact (Move.process c engine).counted h.counted
  | ensureOpen reopen => exact (Move.ensureOpen reopen engine).counted h.counted
  | close => exact (Move.close engine).counted h.counted
  | flush => exact (Move.flush engine).counted h.counted
  | suspend => exact h.counted
  | restore enabled => exact h.counted

theorem Regular.run {engine : AutoBreak} (h : engine.Regular) (operations : List Operation) :
    (run operations engine).2.Regular := by
  induction operations generalizing engine with
  | nil => exact h
  | cons operation operations ih => exact ih (operation.regular_apply h)

variable {engine : AutoBreak}

/-- A regular engine is outside of a paragraph with nothing pending, or inside of one. There
a blank row ends the paragraph if markers are on, other blanks are worth a space, or there
are none. -/
theorem Regular.shapes (h : engine.Regular) :
    (engine.opened = false ∧ engine.pendingSpace = false ∧ engine.pendingBreaks = 0) ∨
    (engine.opened = true ∧ engine.pendingSpace = true ∧
      2 ≤ engine.pendingBreaks ∧ engine.enabled = true) ∨
    (engine.opened = true ∧ engine.pendingSpace = true ∧
      (engine.pendingBreaks < 2 ∨ engine.enabled = false)) ∨
    (engine.opened = true ∧ engine.pendingSpace = false ∧ engine.pendingBreaks = 0) := by
  have hSettled := h.settled
  have hCounted := h.counted
  unfold Counted at hCounted
  grind

/-- The two ways to enter a paragraph, one case for each shape of the engine. -/
theorem Regular.process_eq_settle (h : engine.Regular) {c : Char} (hVisible : c ≠ ' ' ∧ c ≠ '\n') :
    engine.process c =
      ((engine.settle .wrapInParagraph).1 ++ String.singleton c,
        (engine.settle .wrapInParagraph).2) := by
  have hProcess : engine.process c = engine.processVisible c := by
    rw [process, if_neg hVisible.1, if_neg hVisible.2]
  have hShapes := h.shapes
  rw [hProcess]
  obtain ⟨opened, pendingSpace, pendingBreaks, enabled, begun, beginMarker, endMarker⟩ := engine
  dsimp only at hShapes
  rcases hShapes with ⟨rfl, rfl, rfl⟩ | ⟨rfl, rfl, hRow, rfl⟩ | ⟨rfl, rfl, hFew⟩ | ⟨rfl, rfl, rfl⟩
  · -- Nothing is open: a paragraph starts, with its marker if markers are on.
    cases enabled <;> simp [processVisible, AutoBreak.settle, flush, ensureOpen, start, clearPending]
  · -- A blank row ends the paragraph, and the next one starts.
    have hBreaks : ¬ pendingBreaks < 2 ∧ 0 < pendingBreaks := by omega
    simp [processVisible, AutoBreak.settle, flush, ensureOpen, AutoBreak.close, start, clearPending,
      hRow, hBreaks]
  · -- Other blanks are one space.
    have hSpace : (decide (pendingBreaks < 2) || !enabled) = true := by
      rcases hFew with hLess | rfl <;> simp [*]
    have hNoRow : (decide (pendingBreaks ≥ 2) && enabled) = false := by
      rcases hFew with hLess | rfl
      · simp [Nat.not_le.mpr hLess]
      · simp
    simp only [processVisible, AutoBreak.settle, flush, ensureOpen, clearPending, hSpace, hNoRow]
    simp
  · simp [processVisible, AutoBreak.settle, flush, ensureOpen, clearPending]

/-- From any engine that calls on a made one lead to, a visible character that is processed is
put out behind what is settled for a builtin, and leaves the engine that this leaves. So a
builtin of the document enters a paragraph as a literal character in its place would. -/
theorem visible_text_enters_alike {engine : AutoBreak} (hMade : engine.Made)
    (operations : List Operation) {c : Char} (hVisible : c ≠ ' ' ∧ c ≠ '\n') :
    let reached := (run operations engine).2
    let entered := run [.flush, .ensureOpen false] reached
    reached.process c = (entered.1 ++ String.singleton c, entered.2) ∧
    ∀ s : ExpandState, s.engine = reached →
      Expand.outcome Expand.inlinePosition s = (.ok entered.1, s.withEngine entered.2) ∧
      Expand.outcome (Expand.literal c) s =
        (.ok (entered.1 ++ String.singleton c), (s.withEngine entered.2).advance 1) := by
  intro reached entered
  have hEntered : entered = reached.settle .wrapInParagraph := by
    simp [entered, run, Operation.apply, AutoBreak.settle]
  have hProcess : reached.process c = (entered.1 ++ String.singleton c, entered.2) := by
    rw [hEntered]
    exact (hMade.regular.run operations).process_eq_settle hVisible
  refine ⟨hProcess, fun s hReached => ⟨?_, ?_⟩⟩
  · rw [hEntered, ← hReached]
    exact Expand.outcome_settleParagraph .wrapInParagraph s
  · rw [Expand.outcome_literal, hReached, hProcess]

/-- A paragraph with a blank row behind it, interrupted where no marker is put out. -/
def suspendedRow : List Operation :=
  [.process 'a', .process '\n', .suspend, .process '\n', .restore true]

/-- The paragraph ends and the next one begins in front of the character, either way. -/
theorem visible_text_enters_alike_row :
    (ofMarkers "<p>" "</p>").Made ∧ ('b' ≠ ' ' ∧ 'b' ≠ '\n') ∧
    ((run suspendedRow (ofMarkers "<p>" "</p>")).2.process 'b').1 = "</p><p>b" ∧
    (run suspendedRow (ofMarkers "<p>" "</p>")).2.process 'b' =
      ((run [.flush, .ensureOpen false] (run suspendedRow (ofMarkers "<p>" "</p>")).2).1 ++ "b",
        (run [.flush, .ensureOpen false] (run suspendedRow (ofMarkers "<p>" "</p>")).2).2) :=
  ⟨.ofMarkers "<p>" "</p>", by decide, by decide +kernel,
    (visible_text_enters_alike (.ofMarkers "<p>" "</p>") suspendedRow (by decide)).1⟩

end AutoBreak

end MacroMarkup
