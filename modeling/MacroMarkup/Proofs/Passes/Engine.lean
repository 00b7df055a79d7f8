import MacroMarkup.Proofs.AutoBreak
import MacroMarkup.Proofs.Expand.Steps

/-! The paragraph engine of a direct pass, next to that of the normalizing pass and
that of the pass which renders the normalized text. What is pending in the first is
written out by the second, and pending again in the third. -/
namespace MacroMarkup.AutoBreak

variable {engine : AutoBreak}

/-- The engine with the markers of the normalizing pass. -/
def normalizing (engine : AutoBreak) : AutoBreak :=
  { engine with
    beginMarker := Target.normalize.paragraphMarkers.1
    endMarker := Target.normalize.paragraphMarkers.2 }

/-- An open paragraph has its begin marker, and where the engine is suspended there
is one. Nothing is pending outside of paragraphs. -/
structure Orderly (engine : AutoBreak) : Prop where
  begun : engine.begun = engine.opened
  suspended : engine.enabled = false → engine.opened = true
  counted : engine.Counted
  closed : engine.opened = false → engine.pendingSpace = false ∧ engine.pendingBreaks = 0

/-- An engine starts orderly. -/
theorem orderly_ofTarget (target : Target) : (ofTarget target).Orderly where
  begun := rfl
  suspended h := by cases h
  counted := counted_ofTarget target
  closed _ := ⟨rfl, rfl⟩

/-- What the normalizing pass writes for the blanks that are pending. -/
def gap (engine : AutoBreak) : List Char :=
  if engine.opened then
    if 2 ≤ engine.pendingBreaks ∧ engine.enabled then ['\n', '\n']
    else if engine.pendingSpace then [' ']
    else []
  else []

/-- A gap is made of blanks. -/
theorem spacing_gap (engine : AutoBreak) : Text.Spacing engine.gap := by
  unfold gap
  intro c hMem
  split at hMem
  · split at hMem
    · simp only [List.mem_cons, List.not_mem_nil, or_false] at hMem
      rcases hMem with rfl | rfl <;> exact .inr rfl
    · split at hMem
      · exact .inl (List.mem_singleton.mp hMem)
      · cases hMem
  · cases hMem

/-- The engine behind visible text: a paragraph is open, and nothing is pending. -/
def settled (engine : AutoBreak) : AutoBreak :=
  { engine.clearPending with opened := true, begun := true }

/-- Inside of a paragraph an engine without pending blanks is orderly. -/
theorem orderly_settled (engine : AutoBreak) : engine.settled.Orderly where
  begun := rfl
  suspended _ := rfl
  counted h := absurd rfl h
  closed h := by cases h

/-- It has no gap. -/
theorem gap_settled (engine : AutoBreak) : engine.settled.gap = [] := by
  unfold gap settled clearPending
  simp

/-- Such an engine is outside of a paragraph, or inside of one with nothing pending,
with a space pending, or with a blank row pending that ends it. -/
theorem Orderly.shapes (h : engine.Orderly) :
    (engine.opened = false ∧ engine.enabled = true ∧ engine.begun = false ∧
      engine.pendingSpace = false ∧ engine.pendingBreaks = 0) ∨
    (engine.opened = true ∧ engine.begun = true ∧
      ((engine.pendingSpace = false ∧ engine.pendingBreaks = 0) ∨
        (engine.pendingSpace = true ∧ (engine.pendingBreaks < 2 ∨ engine.enabled = false)) ∨
        (engine.pendingSpace = true ∧ engine.enabled = true ∧ 2 ≤ engine.pendingBreaks))) := by
  obtain ⟨hBegun, hSuspended, hCounted, hClosed⟩ := h
  unfold Counted at hCounted
  grind

/-- What is emitted in front of visible text: the marker of a paragraph that opens there, or
what the pending blanks come to. -/
def lead (engine : AutoBreak) : String :=
  if engine.opened then
    if 2 ≤ engine.pendingBreaks ∧ engine.enabled then engine.endMarker ++ engine.beginMarker
    else if engine.pendingSpace then " "
    else ""
  else engine.beginMarker

/-- Every way to settle what is pending emits the same and leaves the same engine. -/
theorem Orderly.settle_eq (h : engine.Orderly) :
    engine.settle .wrapInParagraph = (engine.lead, engine.settled) := by
  cases engine
  rcases h.shapes with ⟨rfl, rfl, rfl, rfl, rfl⟩ |
    ⟨rfl, rfl, ⟨rfl, rfl⟩ | ⟨rfl, hSpace⟩ | ⟨rfl, rfl, hRow⟩⟩
  · simp [AutoBreak.settle, flush, ensureOpen, start, settled, clearPending, lead]
  · simp [AutoBreak.settle, flush, ensureOpen, settled, clearPending, lead]
  · simp only at hSpace
    rcases hSpace with hFew | rfl
    · simp [AutoBreak.settle, flush, ensureOpen, settled, clearPending, lead, Nat.not_le.mpr hFew]
    · simp [AutoBreak.settle, flush, ensureOpen, settled, clearPending, lead]
  · simp only at hRow
    simp [AutoBreak.settle, flush, ensureOpen, AutoBreak.close, start, settled, clearPending, lead,
      hRow]

/-- A visible character writes what leads to it, and itself. -/
theorem Orderly.process_eq (h : engine.Orderly) {c : Char} (hVisible : c ≠ ' ' ∧ c ≠ '\n') :
    engine.process c = (engine.lead ++ String.singleton c, engine.settled) := by
  cases engine
  rcases h.shapes with ⟨rfl, rfl, rfl, rfl, rfl⟩ |
    ⟨rfl, rfl, ⟨rfl, rfl⟩ | ⟨rfl, hSpace⟩ | ⟨rfl, rfl, hRow⟩⟩
  · simp [AutoBreak.process, processVisible, settled, clearPending, lead, hVisible]
  · simp [AutoBreak.process, processVisible, settled, clearPending, lead, hVisible]
  · simp only at hSpace
    rcases hSpace with hFew | rfl
    · simp [AutoBreak.process, processVisible, settled, clearPending, lead, hVisible, hFew,
        Nat.not_le.mpr hFew]
    · simp [AutoBreak.process, processVisible, settled, clearPending, lead, hVisible]
  · simp only at hRow
    have hPending := Nat.lt_of_lt_of_le Nat.two_pos hRow
    simp [AutoBreak.process, processVisible, settled, clearPending, lead, hVisible, hRow,
      Nat.not_lt.mpr hRow, hPending]

/-- Behind the lead an orderly engine is settled. -/
theorem Orderly.settle (h : engine.Orderly) :
    (engine.settle .wrapInParagraph).2 = engine.settled :=
  congrArg Prod.snd h.settle_eq

theorem Orderly.process (h : engine.Orderly) {c : Char} (hVisible : c ≠ ' ' ∧ c ≠ '\n') :
    (engine.process c).2 = engine.settled :=
  congrArg Prod.snd (h.process_eq hVisible)

/-- The engine of the normalizing pass is orderly with that of the rendering one. -/
theorem orderly_normalizing (h : engine.Orderly) : engine.normalizing.Orderly :=
  ⟨h.begun, h.suspended, h.counted, h.closed⟩

/-- In the normalizing pass the gap itself leads to the text. -/
theorem lead_normalizing (engine : AutoBreak) :
    engine.normalizing.lead = String.ofList engine.gap := by
  unfold lead gap
  cases hOpened : engine.opened
  · simp [AutoBreak.normalizing, hOpened, Target.paragraphMarkers]
  · simp only [AutoBreak.normalizing, hOpened, if_true, Target.paragraphMarkers]
    split
    · rfl
    · split <;> rfl

/-- The normalizing pass writes out what is pending, and no markers. -/
theorem Orderly.settle_normalizing (h : engine.Orderly) :
    engine.normalizing.settle .wrapInParagraph =
      (String.ofList engine.gap, engine.settled.normalizing) := by
  rw [(orderly_normalizing h).settle_eq, lead_normalizing]
  rfl

/-- There a visible character writes the gap in front of it. -/
theorem Orderly.process_normalizing (h : engine.Orderly) {c : Char}
    (hVisible : c ≠ ' ' ∧ c ≠ '\n') :
    engine.normalizing.process c =
      (String.ofList engine.gap ++ String.singleton c, engine.settled.normalizing) := by
  rw [(orderly_normalizing h).process_eq hVisible, lead_normalizing]
  rfl

/-! Blanks, and what surrounds a document and a scope. -/

theorem clearPending_behindBlanks (blanks : List Char) (engine : AutoBreak) :
    (engine.behindBlanks blanks).clearPending = engine.clearPending := by
  unfold behindBlanks clearPending
  split <;> rfl

/-- Blanks are taken in alike in both passes. -/
theorem normalizing_behindBlanks (blanks : List Char) (engine : AutoBreak) :
    engine.normalizing.behindBlanks blanks = (engine.behindBlanks blanks).normalizing := by
  cases engine
  unfold behindBlanks normalizing
  split <;> rfl

theorem opened_behindBlanks (blanks : List Char) (engine : AutoBreak) :
    (engine.behindBlanks blanks).opened = engine.opened := by
  unfold behindBlanks
  split <;> rfl

theorem enabled_behindBlanks (blanks : List Char) (engine : AutoBreak) :
    (engine.behindBlanks blanks).enabled = engine.enabled := by
  unfold behindBlanks
  split <;> rfl

/-- Blanks keep an engine orderly. -/
theorem Orderly.behindBlanks (h : engine.Orderly) (blanks : List Char) :
    (engine.behindBlanks blanks).Orderly := by
  unfold AutoBreak.behindBlanks
  split
  · rename_i hOpened
    refine ⟨h.begun, fun _ => hOpened, fun hBreaks => ?_, fun hClosed =>
      absurd (hOpened.symm.trans hClosed) (by decide)⟩
    dsimp only at hBreaks ⊢
    by_cases hBreak : '\n' ∈ blanks
    · simp [hBreak]
    · rw [List.count_eq_zero.mpr hBreak, Nat.add_zero] at hBreaks
      simp [h.counted hBreaks]
  · exact h

/-- In a paragraph blanks are always written out in some way. -/
theorem Orderly.gap_behindBlanks (h : engine.Orderly) (hOpened : engine.opened = true)
    {blanks : List Char} (hSome : blanks ≠ []) : (engine.behindBlanks blanks).gap ≠ [] := by
  have hSpace : (engine.behindBlanks blanks).pendingSpace = true := by
    unfold AutoBreak.behindBlanks
    rw [if_pos hOpened]
    by_cases hBreaks : engine.pendingBreaks = 0
    · simp [hBreaks, hSome]
    · simp [h.counted hBreaks]
  unfold gap
  rw [if_pos (by rwa [opened_behindBlanks]), if_pos hSpace]
  split <;> simp

/-- The blanks that were written out are pending again where they are read. -/
theorem Orderly.behindGap (h : engine.Orderly) :
    (engine.clearPending.behindBlanks engine.gap).Orderly ∧
      (engine.clearPending.behindBlanks engine.gap).lead = engine.lead ∧
      (engine.clearPending.behindBlanks engine.gap).settled = engine.settled := by
  have hCleared : engine.clearPending.Orderly :=
    ⟨h.begun, h.suspended, fun hBreaks => absurd rfl hBreaks, fun _ => ⟨rfl, rfl⟩⟩
  refine ⟨hCleared.behindBlanks engine.gap, ?_, ?_⟩
  · unfold lead gap AutoBreak.behindBlanks clearPending
    cases engine.opened
    · simp
    · by_cases hRow : 2 ≤ engine.pendingBreaks ∧ engine.enabled
      · simp [hRow]
      · cases engine.pendingSpace <;> simp [hRow]
  · unfold settled AutoBreak.behindBlanks clearPending
    split <;> rfl

/-- The blanks that were written out come to what was pending. -/
theorem Orderly.settle_gap (h : engine.Orderly) :
    (engine.clearPending.behindBlanks engine.gap).settle .wrapInParagraph =
      engine.settle .wrapInParagraph := by
  obtain ⟨hOrderly, hLead, hSettled⟩ := h.behindGap
  rw [hOrderly.settle_eq, hLead, hSettled, h.settle_eq]

/-- The written gap leads to a visible character as the blanks did that it stands for. -/
theorem Orderly.process_gap (h : engine.Orderly) {c : Char} (hVisible : c ≠ ' ' ∧ c ≠ '\n') :
    (engine.clearPending.behindBlanks engine.gap).process c = engine.process c := by
  obtain ⟨hOrderly, hLead, hSettled⟩ := h.behindGap
  rw [hOrderly.process_eq hVisible, hLead, hSettled, h.process_eq hVisible]

/-- Inside of a paragraph an engine may be suspended or resumed. -/
theorem Orderly.restore (h : engine.Orderly) (hOpened : engine.opened = true) (enabled : Bool) :
    (engine.restore enabled).Orderly where
  begun := h.begun
  suspended _ := hOpened
  counted := h.counted
  closed hClosed := absurd (hOpened.symm.trans hClosed) (by decide)

/-- The end of a document in the normalizing pass. -/
theorem Orderly.close_normalizing (h : engine.Orderly) :
    engine.normalizing.close =
      (if engine.opened then Target.normalize.paragraphMarkers.2 else "",
        engine.close.2.normalizing) := by
  have hBegun := h.begun
  cases engine
  unfold AutoBreak.close normalizing clearPending
  simp only at hBegun
  subst hBegun
  split <;> simp_all

/-- Blanks at the end make no difference to what closes the paragraph. -/
theorem close_behindBlanks (blanks : List Char) (engine : AutoBreak) :
    (engine.clearPending.behindBlanks blanks).close.1 = engine.close.1 := by
  unfold AutoBreak.close behindBlanks clearPending
  cases engine.opened <;> rfl

end MacroMarkup.AutoBreak
