import MacroMarkup.Proofs.Expand.Law

/-! What the operations of the paragraph engine have in common, and what blanks
leave pending. -/
namespace MacroMarkup

namespace AutoBreak

/-- Pending line breaks count as a space as well. -/
def Counted (engine : AutoBreak) : Prop :=
  engine.pendingBreaks ≠ 0 → engine.pendingSpace = true

/-- An end marker is owed only in a paragraph. -/
def Owing (engine : AutoBreak) : Prop :=
  engine.begun = true → engine.opened = true

/-- Counting holds for the engine that a document starts with. -/
theorem counted_ofTarget (target : Target) : (ofTarget target).Counted := by
  intro h
  exact absurd rfl h

/-- What every operation leaves as it is, and what it does not break. -/
theorem Move.invariants {engine engine' : AutoBreak} (h : Move engine engine') :
    (engine'.enabled = engine.enabled ∧ engine'.beginMarker = engine.beginMarker ∧
      engine'.endMarker = engine.endMarker) ∧
    (engine.Counted → engine'.Counted) ∧ (engine.Owing → engine'.Owing) := by
  unfold Counted Owing
  cases h with
  | process c =>
      unfold AutoBreak.process processSpace processBreak processVisible clearPending
      grind
  | ensureOpen reopen =>
      unfold AutoBreak.ensureOpen AutoBreak.close start clearPending
      grind
  | close =>
      unfold AutoBreak.close clearPending
      grind
  | flush =>
      unfold AutoBreak.flush AutoBreak.close clearPending
      grind

/-- No move of the engine suspends it or changes its markers. -/
theorem Move.kept {engine engine' : AutoBreak} (h : Move engine engine') :
    engine'.enabled = engine.enabled ∧ engine'.beginMarker = engine.beginMarker ∧
      engine'.endMarker = engine.endMarker :=
  h.invariants.1

/-- Counting is kept by every move. -/
theorem Move.counted {engine engine' : AutoBreak} (h : Move engine engine') :
    engine.Counted → engine'.Counted :=
  h.invariants.2.1

theorem Move.owing {engine engine' : AutoBreak} (h : Move engine engine') :
    engine.Owing → engine'.Owing :=
  h.invariants.2.2

/-- The engine behind blanks. Outside of a paragraph they do not count, and a space
counts only where no line break is pending. -/
def behindBlanks (blanks : List Char) (engine : AutoBreak) : AutoBreak :=
  if engine.opened then
    { engine with
      pendingSpace := engine.pendingSpace || blanks.contains '\n' ||
        (!blanks.isEmpty && engine.pendingBreaks = 0)
      pendingBreaks := engine.pendingBreaks + blanks.count '\n' }
  else engine

theorem behindBlanks_nil (engine : AutoBreak) : engine.behindBlanks [] = engine := by
  unfold behindBlanks
  cases engine
  simp

/-- A blank writes nothing and stays pending. -/
theorem process_blank {c : Char} (hBlank : c = ' ' ∨ c = '\n') (engine : AutoBreak) :
    engine.process c = ("", engine.behindBlanks [c]) := by
  unfold AutoBreak.process behindBlanks processSpace processBreak
  rcases hBlank with rfl | rfl
  · cases engine
    grind
  · cases engine
    grind

/-- Blanks are taken in one after the other. -/
theorem behindBlanks_cons (c : Char) (blanks : List Char) (engine : AutoBreak) :
    (engine.behindBlanks [c]).behindBlanks blanks = engine.behindBlanks (c :: blanks) := by
  unfold behindBlanks
  by_cases hOpened : engine.opened
  · by_cases hBreak : c = '\n'
    · simp [hOpened, hBreak, Nat.add_comm, Nat.add_left_comm]
    · have hNot : ¬ '\n' = c := fun h => hBreak h.symm
      by_cases hBreaks : engine.pendingBreaks = 0 <;>
        simp [hOpened, hBreak, hNot, hBreaks]
  · simp [hOpened]

/-- Resuming and taking in blanks may be exchanged. -/
theorem restore_behindBlanks (enabled : Bool) (blanks : List Char) (engine : AutoBreak) :
    (engine.behindBlanks blanks).restore enabled = (engine.restore enabled).behindBlanks blanks := by
  unfold behindBlanks restore
  by_cases hOpened : engine.opened <;> simp [hOpened]

/-- Blanks that leave nothing behind: there are none, no paragraph is open, or they
are spaces where a blank is pending already. -/
def Absorbs (engine : AutoBreak) (blanks : List Char) : Prop :=
  engine.opened = false ∨ blanks = [] ∨
    '\n' ∉ blanks ∧ (engine.pendingSpace = true ∨ engine.pendingBreaks ≠ 0)

instance (engine : AutoBreak) (blanks : List Char) : Decidable (engine.Absorbs blanks) :=
  inferInstanceAs (Decidable (_ ∨ _ ∨ _))

/-- Blanks make no difference to an engine if and only if it absorbs them. -/
theorem behindBlanks_eq_iff (engine : AutoBreak) (blanks : List Char) :
    engine.behindBlanks blanks = engine ↔ engine.Absorbs blanks := by
  unfold behindBlanks Absorbs
  cases engine with
  | mk opened pendingSpace pendingBreaks enabled begun beginMarker endMarker =>
      cases opened
      · simp
      · cases blanks with
        | nil => simp
        | cons c blanks =>
            simp [List.count_eq_zero]
            grind

end AutoBreak

end MacroMarkup
