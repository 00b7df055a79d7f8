import MacroMarkup.Proofs.Passes.Engine

/-! The paragraph engine in a round over generated text. It is suspended from the start:
all that it emits is a space for the blanks that are pending. -/
namespace MacroMarkup

namespace AutoBreak

variable {engine : AutoBreak}

/-- A suspended engine that owes no end marker. Nothing is pending outside of paragraphs. -/
structure Muted (engine : AutoBreak) : Prop where
  enabled : engine.enabled = false
  begun : engine.begun = false
  counted : engine.Counted
  closed : engine.opened = false → engine.pendingSpace = false ∧ engine.pendingBreaks = 0

theorem muted_disabled (target : Target) : (disabled target).Muted where
  enabled := rfl
  begun := rfl
  counted h := absurd rfl h
  closed _ := ⟨rfl, rfl⟩

/-- The engine behind visible text, or behind an invocation that leaves the paragraph. -/
def settledBy (policy : BreakPolicy) (engine : AutoBreak) : AutoBreak :=
  { engine.clearPending with opened := policy = .wrapInParagraph }

/-- Behind a settled paragraph nothing is pending. -/
theorem gap_settledBy (policy : BreakPolicy) (engine : AutoBreak) :
    (engine.settledBy policy).gap = [] := by
  unfold gap settledBy clearPending
  simp

theorem Muted.settledBy (h : engine.Muted) (policy : BreakPolicy) :
    (engine.settledBy policy).Muted where
  enabled := h.enabled
  begun := h.begun
  counted hBreaks := absurd rfl hBreaks
  closed _ := ⟨rfl, rfl⟩

/-- Such an engine is outside of a paragraph, or inside of one with or without a space
pending. -/
theorem Muted.shapes (h : engine.Muted) :
    engine.enabled = false ∧ engine.begun = false ∧
      ((engine.opened = false ∧ engine.pendingSpace = false ∧ engine.pendingBreaks = 0) ∨
        (engine.opened = true ∧ engine.pendingSpace = false ∧ engine.pendingBreaks = 0) ∨
        (engine.opened = true ∧ engine.pendingSpace = true)) := by
  obtain ⟨hEnabled, hBegun, hCounted, hClosed⟩ := h
  unfold Counted at hCounted
  grind

/-- Whatever the policy, the blanks that are pending are written out. -/
theorem Muted.settle (h : engine.Muted) (policy : BreakPolicy) :
    engine.settle policy = (String.ofList engine.gap, engine.settledBy policy) := by
  cases engine
  obtain ⟨rfl, rfl, ⟨rfl, rfl, rfl⟩ | ⟨rfl, rfl, rfl⟩ | ⟨rfl, rfl⟩⟩ := h.shapes <;>
    cases policy <;>
      simp [AutoBreak.settle, flush, ensureOpen, AutoBreak.close, start, AutoBreak.settledBy,
        clearPending, gap]

/-- A visible character writes the gap in front of it, and itself. -/
theorem Muted.process (h : engine.Muted) {c : Char} (hVisible : c ≠ ' ' ∧ c ≠ '\n') :
    engine.process c =
      (String.ofList engine.gap ++ String.singleton c, engine.settledBy .wrapInParagraph) := by
  cases engine
  obtain ⟨rfl, rfl, ⟨rfl, rfl, rfl⟩ | ⟨rfl, rfl, rfl⟩ | ⟨rfl, rfl⟩⟩ := h.shapes <;>
    simp [AutoBreak.process, processVisible, AutoBreak.settledBy, clearPending, gap, hVisible]

/-- A blank is pending, and opens a gap inside of a paragraph. -/
theorem Muted.behindBlank (h : engine.Muted) {c : Char} (hBlank : c = ' ' ∨ c = '\n') :
    (engine.behindBlanks [c]).Muted ∧
      (engine.opened = true → (engine.behindBlanks [c]).gap ≠ []) := by
  cases engine
  obtain ⟨rfl, rfl, ⟨rfl, rfl, rfl⟩ | ⟨rfl, rfl, rfl⟩ | ⟨rfl, rfl⟩⟩ := h.shapes <;>
    rcases hBlank with rfl | rfl <;>
      exact ⟨⟨rfl, rfl, by simp [Counted, behindBlanks], by simp [behindBlanks]⟩,
        by simp [behindBlanks, gap]⟩

/-- The blanks that were written out come to what was pending. -/
theorem Muted.again (h : engine.Muted) :
    (engine.clearPending.behindBlanks engine.gap).Muted ∧
      (engine.clearPending.behindBlanks engine.gap).gap = engine.gap ∧
      ∀ policy, (engine.clearPending.behindBlanks engine.gap).settledBy policy =
        engine.settledBy policy := by
  cases engine
  obtain ⟨rfl, rfl, ⟨rfl, rfl, rfl⟩ | ⟨rfl, rfl, rfl⟩ | ⟨rfl, rfl⟩⟩ := h.shapes <;>
    exact ⟨⟨rfl, rfl, by simp [Counted, behindBlanks, clearPending, gap],
      by simp [behindBlanks, clearPending, gap]⟩, by simp [behindBlanks, clearPending, gap],
      fun policy => by simp [AutoBreak.settledBy, behindBlanks, clearPending, gap]⟩

/-- A gap that was written and is read again is written once more by settling. -/
theorem Muted.settle_again (h : engine.Muted) (policy : BreakPolicy) :
    (engine.clearPending.behindBlanks engine.gap).settle policy =
      (String.ofList engine.gap, engine.settledBy policy) := by
  obtain ⟨hMuted, hGap, hSettled⟩ := h.again
  rw [hMuted.settle, hGap, hSettled]

theorem Muted.process_again (h : engine.Muted) {c : Char} (hVisible : c ≠ ' ' ∧ c ≠ '\n') :
    (engine.clearPending.behindBlanks engine.gap).process c =
      (String.ofList engine.gap ++ String.singleton c, engine.settledBy .wrapInParagraph) := by
  obtain ⟨hMuted, hGap, hSettled⟩ := h.again
  rw [hMuted.process hVisible, hGap, hSettled]

/-- At the end nothing is owed. -/
theorem Muted.close (h : engine.Muted) : engine.close.1 = "" := by
  unfold AutoBreak.close
  rw [h.begun]
  split <;> rfl

end AutoBreak

namespace ExpandState

/-- Suspension makes no difference to an engine that is suspended. -/
theorem suspend_of_disabled {s : ExpandState} (h : s.engine.enabled = false) : s.suspend = s := by
  have hSame : { s.engine with enabled := false } = s.engine := by
    rw [← h]
  rw [suspend, hSame]
  rfl

theorem resume_of_disabled {s : ExpandState} (h : s.engine.enabled = false) :
    s.resume false = s := by
  have hSame : s.engine.restore false = s.engine := by
    rw [← h]
    rfl
  rw [resume, hSame]
  rfl

end ExpandState

end MacroMarkup
