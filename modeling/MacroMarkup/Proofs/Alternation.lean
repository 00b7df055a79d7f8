import MacroMarkup.Proofs.AutoBreak

/-! The markers of the paragraph engine alternate. What an engine emits is split into
pieces, which depend on its flags and not on its markers; the `begun` flag is then the
state of an automaton that reads the markers of a whole run. -/
namespace MacroMarkup

namespace AutoBreak

/-- An engine as its constructors make it. -/
inductive Made : AutoBreak → Prop where
  | ofMarkers (beginMarker endMarker : String) : Made (ofMarkers beginMarker endMarker)
  | ofTarget (target : Target) : Made (ofTarget target)
  | disabled (target : Target) : Made (disabled target)

/-- One call on an engine. -/
inductive Operation where
  | process (c : Char)
  | ensureOpen (reopen : Bool)
  | close
  | flush
  | suspend
  | restore (enabled : Bool)
  deriving DecidableEq, Repr

/-- What a call emits, and the engine behind it. -/
def Operation.apply : Operation → AutoBreak → String × AutoBreak
  | process c, engine => engine.process c
  | ensureOpen reopen, engine => engine.ensureOpen reopen
  | close, engine => engine.close
  | flush, engine => engine.flush
  | suspend, engine => ("", engine.suspend.2)
  | restore enabled, engine => ("", engine.restore enabled)

def run : List Operation → AutoBreak → String × AutoBreak
  | [], engine => ("", engine)
  | operation :: operations, engine =>
      let (piece, engine) := operation.apply engine
      let (out, engine) := run operations engine
      (piece ++ out, engine)

/-- A part of what an engine emits: one of its markers, or text of its own. -/
inductive Piece where
  | beginMarker
  | endMarker
  | text (content : String)
  deriving DecidableEq, Repr

namespace Piece

def isMarker : Piece → Bool
  | beginMarker => true
  | endMarker => true
  | text _ => false

def render (beginning ending : String) : Piece → String
  | beginMarker => beginning
  | endMarker => ending
  | text content => content

end Piece

/-- The text that pieces stand for, with the markers of an engine put in. -/
def render (beginning ending : String) : List Piece → String
  | [] => ""
  | piece :: pieces => piece.render beginning ending ++ render beginning ending pieces

/-- The markers among the pieces, in their order. -/
def markers (pieces : List Piece) : List Piece :=
  pieces.filter Piece.isMarker

/-- The marker that has its turn at a place: begin and end by turns, begin first. -/
def turn (place : Nat) : Piece :=
  if place % 2 = 0 then .beginMarker else .endMarker

/-- The marker of a paragraph that starts, if markers are on. -/
def beginPieces (engine : AutoBreak) : List Piece :=
  if engine.enabled then [.beginMarker] else []

/-- The marker of a paragraph that ends, if one is owed. -/
def endPieces (engine : AutoBreak) : List Piece :=
  if engine.begun then [.endMarker] else []

namespace Operation

def pieces : Operation → AutoBreak → List Piece
  | process c, engine =>
      if c = ' ' ∨ c = '\n' then []
      else if !engine.opened then engine.beginPieces ++ [.text (String.singleton c)]
      else if engine.pendingSpace && (engine.pendingBreaks < 2 || !engine.enabled) then
        [.text " ", .text (String.singleton c)]
      else if engine.pendingBreaks > 0 && engine.enabled then
        engine.endPieces ++ [.beginMarker, .text (String.singleton c)]
      else [.text (String.singleton c)]
  | ensureOpen reopen, engine =>
      if !engine.opened then engine.beginPieces
      else if reopen then engine.endPieces ++ engine.beginPieces
      else []
  | close, engine => if engine.opened then engine.endPieces else []
  | flush, engine =>
      if !engine.opened then []
      else if engine.pendingBreaks ≥ 2 && engine.enabled then engine.endPieces
      else if engine.pendingSpace || engine.pendingBreaks > 0 then [.text " "]
      else []
  | suspend, _ => []
  | restore _, _ => []

end Operation

def trace : List Operation → AutoBreak → List Piece
  | [], _ => []
  | operation :: operations, engine =>
      operation.pieces engine ++ trace operations (operation.apply engine).2

/-! The pieces are what is emitted, whatever the markers are. -/

/-- Pieces one after the other are written one after the other. -/
theorem render_append (beginning ending : String) (pieces pieces' : List Piece) :
    render beginning ending (pieces ++ pieces') =
      render beginning ending pieces ++ render beginning ending pieces' := by
  induction pieces with
  | nil => simp [render]
  | cons piece pieces ih => simp [render, ih, String.append_assoc]

def withMarkers (beginMarker endMarker : String) (engine : AutoBreak) : AutoBreak :=
  { engine with beginMarker, endMarker }

/-- One call emits its pieces, and its effect on the flags does not depend on the
markers. -/
theorem Operation.apply_withMarkers (operation : Operation) (beginning ending : String)
    (engine : AutoBreak) :
    operation.apply (engine.withMarkers beginning ending) =
      (render beginning ending (operation.pieces engine),
        (operation.apply engine).2.withMarkers beginning ending) := by
  cases engine with
  | mk opened pendingSpace pendingBreaks enabled begun beginMarker endMarker =>
      cases operation with
      | process c =>
          unfold apply pieces AutoBreak.process processSpace processBreak processVisible withMarkers
          by_cases hSpace : c = ' '
          · cases opened <;> by_cases hBreaks : pendingBreaks = 0 <;> simp [hSpace, hBreaks, render]
          by_cases hBreak : c = '\n'
          · cases opened <;> simp [hBreak, render]
          by_cases hBreaks : pendingBreaks < 2 <;> by_cases hSome : 0 < pendingBreaks <;>
            cases opened <;> cases pendingSpace <;> cases enabled <;> cases begun <;>
            simp [hSpace, hBreak, hBreaks, hSome, clearPending, beginPieces, endPieces, render,
              Piece.render, String.append_assoc, -String.append_singleton]
      | ensureOpen reopen =>
          unfold apply pieces AutoBreak.ensureOpen AutoBreak.close start
          cases opened <;> cases reopen <;> cases enabled <;> cases begun <;>
            simp [withMarkers, clearPending, beginPieces, endPieces, render, Piece.render]
      | close =>
          unfold apply pieces AutoBreak.close
          cases opened <;> cases begun <;>
            simp [withMarkers, clearPending, endPieces, render, Piece.render]
      | flush =>
          unfold apply pieces AutoBreak.flush AutoBreak.close
          by_cases hBreaks : 2 ≤ pendingBreaks <;> by_cases hSome : 0 < pendingBreaks <;>
            cases opened <;> cases pendingSpace <;> cases enabled <;> cases begun <;>
            simp [withMarkers, hBreaks, hSome, clearPending, endPieces, render, Piece.render]
      | suspend => rfl
      | restore enabled => rfl

/-- The operations do not look at the markers: with other ones the same pieces are written
with those, and the same engine is reached but for them. -/
theorem run_withMarkers (operations : List Operation) (beginning ending : String)
    (engine : AutoBreak) :
    run operations (engine.withMarkers beginning ending) =
      (render beginning ending (trace operations engine),
        (run operations engine).2.withMarkers beginning ending) := by
  induction operations generalizing engine with
  | nil => rfl
  | cons operation operations ih =>
      simp [run, trace, operation.apply_withMarkers, ih, render_append]

theorem run_append (operations operations' : List Operation) (engine : AutoBreak) :
    (run (operations ++ operations') engine).2 =
      (run operations' (run operations engine).2).2 := by
  induction operations generalizing engine with
  | nil => rfl
  | cons operation operations ih => simp [run, ih]

/-! The flag `begun` follows the markers. -/

/-- Reads pieces where an end marker is owed or not: only an owed end marker and a
begin marker where none is owed are read. -/
def follow : Bool → List Piece → Option Bool
  | owed, [] => some owed
  | owed, .text _ :: pieces => follow owed pieces
  | false, .beginMarker :: pieces => follow true pieces
  | true, .endMarker :: pieces => follow false pieces
  | _, _ => none

theorem markers_text (content : String) (pieces : List Piece) :
    markers (.text content :: pieces) = markers pieces :=
  rfl

theorem markers_beginMarker (pieces : List Piece) :
    markers (.beginMarker :: pieces) = .beginMarker :: markers pieces :=
  rfl

theorem markers_endMarker (pieces : List Piece) :
    markers (.endMarker :: pieces) = .endMarker :: markers pieces :=
  rfl

theorem follow_append {owed owed' : Bool} {pieces : List Piece}
    (h : follow owed pieces = some owed') (pieces' : List Piece) :
    follow owed (pieces ++ pieces') = follow owed' pieces' := by
  induction pieces generalizing owed with
  | nil =>
      simp only [follow, Option.some.injEq] at h
      rw [h, List.nil_append]
  | cons piece pieces ih =>
      cases piece <;> cases owed <;> simp_all [follow]

/-- The markers that are read have their turns, counted from the one that is due. -/
theorem markers_of_follow {owed owed' : Bool} {pieces : List Piece}
    (h : follow owed pieces = some owed') (place : Nat) {piece : Piece}
    (hPiece : (markers pieces)[place]? = some piece) :
    piece = turn (place + owed.toNat) := by
  induction pieces generalizing owed place with
  | nil => simp [markers] at hPiece
  | cons first pieces ih =>
      cases first with
      | text content =>
          rw [markers_text] at hPiece
          exact ih (by simpa [follow] using h) place hPiece
      | beginMarker =>
          rw [markers_beginMarker] at hPiece
          cases owed with
          | true => simp [follow] at h
          | false =>
              have hNext : follow true pieces = some owed' := by simpa [follow] using h
              cases place with
              | zero => simpa [turn] using hPiece.symm
              | succ place => exact ih hNext place hPiece
      | endMarker =>
          rw [markers_endMarker] at hPiece
          cases owed with
          | false => simp [follow] at h
          | true =>
              have hNext : follow false pieces = some owed' := by simpa [follow] using h
              cases place with
              | zero => simpa [turn] using hPiece.symm
              | succ place => simpa [turn, Nat.add_assoc] using ih hNext place hPiece

/-- Of what is read, begin markers and end markers pair up, but for those owed. -/
theorem count_of_follow {owed owed' : Bool} {pieces : List Piece}
    (h : follow owed pieces = some owed') :
    pieces.count .beginMarker + owed.toNat = pieces.count .endMarker + owed'.toNat := by
  induction pieces generalizing owed with
  | nil => simp_all [follow]
  | cons piece pieces ih =>
      cases piece with
      | text content => simpa using ih (by simpa [follow] using h)
      | beginMarker =>
          cases owed with
          | true => simp [follow] at h
          | false =>
              have hNext : follow true pieces = some owed' := by simpa [follow] using h
              have hCount := ih hNext
              simp at hCount ⊢
              omega
      | endMarker =>
          cases owed with
          | false => simp [follow] at h
          | true =>
              have hNext : follow false pieces = some owed' := by simpa [follow] using h
              have hCount := ih hNext
              simp at hCount ⊢
              omega

/-- What every call keeps: an end marker is owed only in a paragraph, and blanks are
pending only in one. -/
structure Tidy (engine : AutoBreak) : Prop where
  owing : engine.Owing
  settled : engine.opened = false → engine.pendingSpace = false ∧ engine.pendingBreaks = 0

/-- An engine is tidy as it is made. -/
theorem Made.tidy {engine : AutoBreak} (h : engine.Made) : engine.Tidy := by
  cases h <;> exact ⟨fun hBegun => absurd hBegun Bool.false_ne_true, fun _ => ⟨rfl, rfl⟩⟩

/-- No paragraph is begun when an engine is made. -/
theorem Made.begun {engine : AutoBreak} (h : engine.Made) : engine.begun = false := by
  cases h <;> rfl

/-- Each operation keeps an engine tidy. -/
theorem Operation.tidy_apply (operation : Operation) {engine : AutoBreak} (h : engine.Tidy) :
    (operation.apply engine).2.Tidy := by
  obtain ⟨hOwing, hSettled⟩ := h
  unfold Owing at hOwing
  cases operation with
  | process c =>
      constructor <;>
        (simp only [apply, AutoBreak.process, processSpace, processBreak, processVisible, Owing]
         grind [clearPending])
  | ensureOpen reopen =>
      constructor <;>
        (simp only [apply, AutoBreak.ensureOpen, AutoBreak.close, start, Owing]
         grind [clearPending])
  | close =>
      constructor <;>
        (simp only [apply, AutoBreak.close, Owing]
         grind [clearPending])
  | flush =>
      constructor <;>
        (simp only [apply, AutoBreak.flush, AutoBreak.close, Owing]
         grind [clearPending])
  | suspend => exact ⟨hOwing, hSettled⟩
  | restore enabled => exact ⟨hOwing, hSettled⟩

/-- A marker is emitted where it is due, and `begun` says which one that is. -/
theorem Operation.follow_pieces (operation : Operation) {engine : AutoBreak} (h : engine.Tidy) :
    follow engine.begun (operation.pieces engine) = some (operation.apply engine).2.begun := by
  have hOwing := h.owing
  unfold Owing at hOwing
  cases operation with
  | process c =>
      simp only [pieces, apply, AutoBreak.process, processSpace, processBreak, processVisible]
      grind [clearPending, beginPieces, endPieces, follow]
  | ensureOpen reopen =>
      simp only [pieces, apply, AutoBreak.ensureOpen, AutoBreak.close, start]
      grind [clearPending, beginPieces, endPieces, follow]
  | close =>
      simp only [pieces, apply, AutoBreak.close]
      grind [clearPending, endPieces, follow]
  | flush =>
      simp only [pieces, apply, AutoBreak.flush, AutoBreak.close]
      grind [clearPending, endPieces, follow]
  | suspend => rfl
  | restore enabled => rfl

/-- The run law: whatever the operations write follows on what was owed before, and what is
owed afterwards is whether a paragraph is begun. -/
theorem follow_trace (operations : List Operation) {engine : AutoBreak} (h : engine.Tidy) :
    (run operations engine).2.Tidy ∧
      follow engine.begun (trace operations engine) = some (run operations engine).2.begun := by
  induction operations generalizing engine with
  | nil => exact ⟨h, rfl⟩
  | cons operation operations ih =>
      obtain ⟨hTidy, hFollow⟩ := ih (operation.tidy_apply h)
      refine ⟨hTidy, ?_⟩
      simp only [trace, run]
      rw [follow_append (operation.follow_pieces h), hFollow]

/-- Without markers switched on, nothing is begun. -/
theorem Operation.markers_off {operation : Operation} (hOff : operation ≠ .restore true)
    {engine : AutoBreak} (hEnabled : engine.enabled = false) (hBegun : engine.begun = false) :
    markers (operation.pieces engine) = [] ∧
      (operation.apply engine).2.enabled = false ∧ (operation.apply engine).2.begun = false := by
  cases operation with
  | process c =>
      simp only [pieces, apply, AutoBreak.process, processSpace, processBreak, processVisible]
      grind [clearPending, beginPieces, markers, Piece.isMarker]
  | ensureOpen reopen =>
      simp only [pieces, apply, AutoBreak.ensureOpen, AutoBreak.close, start]
      grind [clearPending, beginPieces, endPieces, markers, Piece.isMarker]
  | close =>
      simp only [pieces, apply, AutoBreak.close]
      grind [clearPending, endPieces, markers, Piece.isMarker]
  | flush =>
      simp only [pieces, apply, AutoBreak.flush, AutoBreak.close]
      grind [clearPending, endPieces, markers, Piece.isMarker]
  | suspend => exact ⟨rfl, rfl, hBegun⟩
  | restore enabled =>
      cases enabled with
      | false => exact ⟨rfl, rfl, hBegun⟩
      | true => exact absurd rfl hOff

/-- A suspended engine without a begun paragraph writes no marker until it is resumed. -/
theorem markers_trace_off {operations : List Operation} (hOff : .restore true ∉ operations)
    {engine : AutoBreak} (hEnabled : engine.enabled = false) (hBegun : engine.begun = false) :
    markers (trace operations engine) = [] := by
  induction operations generalizing engine with
  | nil => rfl
  | cons operation operations ih =>
      simp only [List.mem_cons, not_or] at hOff
      obtain ⟨hMarkers, hEnabled', hBegun'⟩ :=
        operation.markers_off (fun h => hOff.1 h.symm) hEnabled hBegun
      have hRest := ih hOff.2 hEnabled' hBegun'
      simp only [markers] at hMarkers hRest ⊢
      rw [trace, List.filter_append, hMarkers, hRest, List.nil_append]

/-- Closing ends a paragraph that is owed its marker. -/
theorem begun_close (engine : AutoBreak) (h : engine.Owing) : engine.close.2.begun = false := by
  unfold Owing at h
  unfold close
  grind

/-- Over any calls on an engine as it is made, the markers alternate, the begin marker
first, and an end marker is owed exactly while `begun` is set. It is set in paragraphs
only, and outside of them no blank is pending. Where the last call is a close, nothing
is owed. An engine without markers that is not switched on emits none. The markers are
counted among the pieces of what is emitted, which are the same for any two markers. -/
theorem emissions_alternate {engine : AutoBreak} (hMade : engine.Made)
    (operations : List Operation) :
    let emitted := trace operations engine
    let last := (run operations engine).2
    (run operations engine).1 = render engine.beginMarker engine.endMarker emitted ∧
    (∀ beginning ending, run operations (engine.withMarkers beginning ending) =
      (render beginning ending emitted, last.withMarkers beginning ending)) ∧
    (∀ place piece, (markers emitted)[place]? = some piece → piece = turn place) ∧
    emitted.count .beginMarker = emitted.count .endMarker + last.begun.toNat ∧
    (last.begun = true → last.opened = true) ∧
    (last.opened = false → last.pendingSpace = false ∧ last.pendingBreaks = 0) ∧
    (trace (operations ++ [.close]) engine).count .beginMarker =
      (trace (operations ++ [.close]) engine).count .endMarker ∧
    ((∃ target, engine = disabled target) → .restore true ∉ operations →
      markers emitted = []) := by
  have hTidy := hMade.tidy
  have hFollowed (operations : List Operation) :
      follow false (trace operations engine) = some (run operations engine).2.begun := by
    rw [← hMade.begun]
    exact (follow_trace operations hTidy).2
  have hLast := (follow_trace operations hTidy).1
  have hRun := run_withMarkers operations
  refine ⟨congrArg Prod.fst (hRun engine.beginMarker engine.endMarker engine),
    fun beginning ending => hRun beginning ending engine,
    fun place piece hPiece => markers_of_follow (hFollowed operations) place hPiece,
    count_of_follow (hFollowed operations), hLast.owing, hLast.settled, ?_, ?_⟩
  · have hClosed := count_of_follow (hFollowed (operations ++ [.close]))
    rw [run_append] at hClosed
    have hBegun := begun_close _ hLast.owing
    simpa [run, Operation.apply, hBegun] using hClosed
  · rintro ⟨target, rfl⟩ hOff
    exact markers_trace_off hOff rfl rfl

/-- Two paragraphs; in the second one the engine is suspended and a paragraph is
asked for again. -/
def interrupted : List Operation :=
  [.process 'a', .process '\n', .process '\n', .process 'b', .suspend, .process ' ',
    .ensureOpen true, .process 'c', .restore true, .flush]

theorem emissions_alternate_interrupted :
    (ofMarkers "<p>" "</p>").Made ∧
    (run interrupted (ofMarkers "<p>" "</p>")).1 = "<p>a</p><p>b</p>c" ∧
    (markers (trace interrupted (ofMarkers "<p>" "</p>"))).length = 4 ∧
    ∀ place piece, (markers (trace interrupted (ofMarkers "<p>" "</p>")))[place]? = some piece →
      piece = turn place :=
  ⟨.ofMarkers "<p>" "</p>", by decide +kernel, by decide +kernel,
    (emissions_alternate (.ofMarkers "<p>" "</p>") interrupted).2.2.1⟩

end AutoBreak

end MacroMarkup
