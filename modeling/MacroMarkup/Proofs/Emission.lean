import MacroMarkup.Proofs.AutoBreak
import MacroMarkup.Proofs.Expand.Steps
import MacroMarkup.Proofs.Text.Marks

/-! What the operations of the paragraph engine emit in web output. Each leads from the
paragraph that a marker is owed for before to the one that it is owed for behind, except
where a paragraph ends while markers are suspended. -/
namespace MacroMarkup

open Text (Markup Plain)

namespace AutoBreak

/-- The engine of a document in web output. -/
structure ForWeb (engine : AutoBreak) : Prop where
  beginMarker : engine.beginMarker.toList = Text.Mark.opening.text
  endMarker : engine.endMarker.toList = Text.Mark.closing.text
  owing : engine.Owing

theorem forWeb_ofTarget : (ofTarget .web).ForWeb :=
  ⟨rfl, rfl, fun h => nomatch h⟩

/-- The markers stay those of the web. -/
theorem ForWeb.move {engine engine' : AutoBreak} (h : engine.ForWeb) (hMove : Move engine engine') :
    engine'.ForWeb := by
  obtain ⟨-, hBegin, hEnd⟩ := hMove.kept
  exact ⟨hBegin ▸ h.beginMarker, hEnd ▸ h.endMarker, hMove.owing h.owing⟩

/-- Text that leads from the paragraph that one engine owes a marker for to that of
another one. While markers are suspended it has none. -/
structure Emits (engine engine' : AutoBreak) (text : List Char) : Prop where
  markup : Markup engine.begun engine'.begun text
  suspended : engine.enabled = false → engine'.begun = engine.begun ∧ Plain text

variable {engine engine' engine'' : AutoBreak}

/-- Text without markers emits nothing. -/
theorem Emits.of_plain {text : List Char} (h : Plain text) (hBegun : engine'.begun = engine.begun) :
    Emits engine engine' text :=
  ⟨hBegun ▸ h engine.begun, fun _ => ⟨hBegun, h⟩⟩

theorem Emits.trans {text text' : List Char} (h : Emits engine engine' text)
    (h' : Emits engine' engine'' text') (hEnabled : engine'.enabled = engine.enabled) :
    Emits engine engine'' (text ++ text') := by
  refine ⟨h.markup.append h'.markup, fun hSuspended => ?_⟩
  obtain ⟨hBegun, hPlain⟩ := h.suspended hSuspended
  obtain ⟨hBegun', hPlain'⟩ := h'.suspended (hEnabled.trans hSuspended)
  exact ⟨hBegun'.trans hBegun, hPlain.append hPlain'⟩

/-- Text without markers may follow. -/
theorem Emits.append_plain {text text' : List Char} (h : Emits engine engine' text)
    (hBegun : engine''.begun = engine'.begun) (h' : Plain text') :
    Emits engine engine'' (text ++ text') := by
  refine ⟨h.markup.append (hBegun ▸ h' engine'.begun), fun hSuspended => ?_⟩
  obtain ⟨hSame, hPlain⟩ := h.suspended hSuspended
  exact ⟨hBegun.trans hSame, hPlain.append h'⟩

/-- The engine owes no end marker, or it may emit one. -/
def MayClose (engine : AutoBreak) : Bool :=
  engine.enabled || !engine.begun

/-- Closing a paragraph emits its end marker, if it was begun. -/
theorem ForWeb.emits_close (h : engine.ForWeb) (hClose : engine.MayClose = true) :
    Emits engine engine.close.2 engine.close.1.toList := by
  unfold MayClose at hClose
  have hOwing := h.owing
  unfold Owing at hOwing
  unfold AutoBreak.close
  cases hOpened : engine.opened with
  | false => exact .of_plain Text.plain_nil rfl
  | true =>
      cases hBegun : engine.begun with
      | false => exact .of_plain Text.plain_nil hBegun.symm
      | true =>
          have hEnabled : engine.enabled = true := by simpa [hBegun] using hClose
          refine ⟨?_, fun hSuspended => ?_⟩
          · simp only [hBegun, if_true, h.endMarker]
            exact .closing (.nil false)
          · rw [hEnabled] at hSuspended
            cases hSuspended

/-- Nothing is begun outside of a paragraph. -/
theorem ForWeb.begun_of_closed (h : engine.ForWeb) (hClosed : engine.opened = false) :
    engine.begun = false := by
  cases hBegun : engine.begun with
  | false => rfl
  | true => exact (h.owing hBegun).symm.trans hClosed

/-- Behind a closed paragraph nothing is begun. -/
theorem ForWeb.begun_close (h : engine.ForWeb) : engine.close.2.begun = false := by
  unfold AutoBreak.close
  split
  · rfl
  · rename_i hClosed
    exact h.begun_of_closed (by simpa using hClosed)

/-- Starting a paragraph emits its begin marker. -/
theorem ForWeb.emits_start (h : engine.ForWeb) (hClosed : engine.opened = false) :
    Emits engine engine.start.2 engine.start.1.toList := by
  have hBegun := h.begun_of_closed hClosed
  unfold AutoBreak.start
  cases hEnabled : engine.enabled with
  | false => exact .of_plain Text.plain_nil rfl
  | true =>
      refine ⟨?_, fun hSuspended => absurd (hEnabled.symm.trans hSuspended) (by decide)⟩
      simp only [if_true, h.beginMarker, hBegun]
      exact .opening (.nil true)

theorem plain_blank : Plain " ".toList :=
  Text.plain_of_not_mem (by decide)

/-- Pending blanks emit the markers of the boundary that they make. -/
theorem ForWeb.emits_flush (h : engine.ForWeb) :
    Emits engine engine.flush.2 engine.flush.1.toList := by
  unfold AutoBreak.flush
  split
  · exact .of_plain Text.plain_nil rfl
  · split
    · rename_i hPending
      rw [Bool.and_eq_true] at hPending
      exact h.emits_close (by rw [MayClose, hPending.2, Bool.true_or])
    · dsimp only
      split
      · exact .of_plain plain_blank rfl
      · exact .of_plain Text.plain_nil rfl

/-- An open paragraph is left as it is, or closed before another one is begun. -/
theorem ForWeb.emits_ensureOpen (h : engine.ForWeb) {reopen : Bool}
    (hReopen : reopen = true → engine.MayClose = true) :
    Emits engine (engine.ensureOpen reopen).2 (engine.ensureOpen reopen).1.toList := by
  unfold AutoBreak.ensureOpen
  split
  · rename_i hOpened
    split
    · rename_i hFresh
      have hMove := Move.close engine
      have hClosed : engine.close.2.opened = false := by
        unfold AutoBreak.close
        rw [if_pos hOpened]
      dsimp only
      rw [String.toList_append]
      exact (h.emits_close (hReopen hFresh)).trans ((h.move hMove).emits_start hClosed) hMove.kept.1
    · exact .of_plain Text.plain_nil rfl
  · rename_i hClosed
    exact h.emits_start (by simpa using hClosed)

/-- An engine that may close may do so behind its pending blanks. -/
theorem mayClose_flush (h : engine.MayClose = true) : engine.flush.2.MayClose = true := by
  unfold MayClose AutoBreak.flush AutoBreak.close clearPending at *
  grind

/-- Only a macro that ends the paragraph may not be called where an end marker is owed
but suspended. -/
theorem ForWeb.emits_settle (h : engine.ForWeb) {policy : BreakPolicy}
    (hPolicy : policy = .leaveParagraph → engine.MayClose = true) :
    Emits engine (engine.settle policy).2 (engine.settle policy).1.toList := by
  have hMove := Move.flush engine
  have hFlushed := h.move hMove
  unfold AutoBreak.settle
  dsimp only
  rw [String.toList_append]
  refine h.emits_flush.trans ?_ hMove.kept.1
  cases policy with
  | wrapInParagraph => exact hFlushed.emits_ensureOpen fun hReopen => nomatch hReopen
  | leaveParagraph => exact hFlushed.emits_close (mayClose_flush (hPolicy rfl))

theorem ForWeb.settle (h : engine.ForWeb) (policy : BreakPolicy) :
    (engine.settle policy).2.ForWeb := by
  have hFlushed := h.move (.flush engine)
  cases policy with
  | wrapInParagraph => exact hFlushed.move (.ensureOpen false _)
  | leaveParagraph => exact hFlushed.move (.close _)

/-- A visible character settles the paragraph in front of it. -/
theorem ForWeb.emits_processVisible (h : engine.ForWeb) {c : Char} (hChar : c ≠ '<') :
    Emits engine (engine.processVisible c).2 (engine.processVisible c).1.toList := by
  have hVisible : Plain (String.singleton c).toList := by
    rw [String.toList_singleton]
    exact .cons hChar Text.plain_nil
  unfold AutoBreak.processVisible
  dsimp only
  split
  · rename_i hClosed
    split
    · rename_i hEnabled
      refine ⟨?_, fun hSuspended => absurd (hEnabled.symm.trans hSuspended) (by decide)⟩
      rw [h.begun_of_closed (by simpa using hClosed), String.toList_append, h.beginMarker]
      exact .opening (hVisible true)
    · exact .of_plain hVisible rfl
  · split
    · dsimp only
      rw [String.toList_append]
      exact .of_plain (plain_blank.append hVisible) rfl
    · split
      · rename_i hBreaks
        rw [Bool.and_eq_true] at hBreaks
        refine ⟨?_, fun hSuspended => absurd (hBreaks.2.symm.trans hSuspended) (by decide)⟩
        have hOpening : Markup false true (engine.beginMarker ++ String.singleton c).toList := by
          rw [String.toList_append, h.beginMarker]
          exact .opening (hVisible true)
        dsimp only
        rw [String.append_assoc, String.toList_append]
        cases hBegun : engine.begun with
        | false => exact hOpening
        | true =>
            rw [if_pos rfl, h.endMarker]
            exact .closing hOpening
      · exact .of_plain hVisible rfl

/-- A blank emits nothing, and a visible character what settles the paragraph. -/
theorem ForWeb.emits_process (h : engine.ForWeb) {c : Char} (hChar : c ≠ '<') :
    Emits engine (engine.process c).2 (engine.process c).1.toList := by
  unfold AutoBreak.process
  split
  · refine .of_plain Text.plain_nil ?_
    unfold AutoBreak.processSpace
    split <;> rfl
  · split
    · refine .of_plain Text.plain_nil ?_
      unfold AutoBreak.processBreak
      split <;> rfl
    · exact h.emits_processVisible hChar

end AutoBreak

end MacroMarkup
