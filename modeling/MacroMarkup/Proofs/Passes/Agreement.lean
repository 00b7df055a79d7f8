import MacroMarkup.Proofs.Expand.Growth
import MacroMarkup.Proofs.Passes.Places

/-! Whether two passes agree with one. Rendering what the normalizing pass made of a
text gives what rendering the text itself gives. -/
namespace MacroMarkup

namespace Text

/-- A word ends where no word follows. -/
theorem word_append_of_nil {after : List Char} (h : word after = []) (text : List Char) :
    word (text ++ after) = word text := by
  have hLe : word after <+: word [] := by
    rw [h]
    exact List.nil_prefix
  have hShorter := word_append_mono hLe text
  rw [List.append_nil] at hShorter
  exact hShorter.eq_of_length_le (word_le_append text after).length_le

end Text

namespace Registry

/-- Whether a handler is a builtin, or a command of a later pass that stays in the
paragraph. -/
def defers : Handler → Bool
  | .builtin _ => true
  | .user user => user.kind = .command && user.signature.mode ≠ .normalize &&
      user.signature.policy = .wrapInParagraph

/-- A registry defers if all of its handlers do. -/
theorem deferring_of_handlers {registry : Registry} (h : registry.handlers.all defers = true) :
    registry.Deferring := by
  intro key user hBound
  have hDefers := of_all_handlers h hBound
  simpa [defers, and_assoc] using hDefers

end Registry

def Session.opening (session : Session) (file path text : String) (target : Target) : ExpandState :=
  { session, document := DocumentState.start file path text target }

namespace Expand

variable {env : Env} {fuel : Nat} {s s' : ExpandState}

/-- A block that is over is written as nothing. -/
theorem Rewritten.over (hs : Passing s) {marker? : Option (List Char)} (count : Nat)
    (hOutcome : ∀ executed, outcome (blockReader env fuel marker?) (s.normalizing executed) =
      (.ok "", (s.normalizing executed).advance count)) :
    Remains s (s.advance count) ∧ Rewritten env fuel marker? s "" (s.advance count) "" := by
  refine ⟨⟨rfl, rfl, rfl, rfl, id, hs.orderly⟩, fun executed => ⟨executed, hOutcome executed⟩, ?_, ?_⟩
  · exact fun _ => List.nil_prefix
  · intro m tail hStep hText _
    exact ⟨m, .refl m, ⟨hStep.session, hStep.depth, hStep.target, hStep.engine⟩, hText⟩

/-- A block is written place by place. -/
theorem PlaceRewritten.then {marker? : Option (List Char)} {piece after written written' : String}
    {middle : ExpandState} (hSome : s.rest ≠ []) (hEnds : ¬ endsAt marker? s.rest)
    (hPlace : PlaceRewritten env fuel s piece middle written)
    (hBlock : Rewritten env fuel marker? middle after s' written') :
    Rewritten env (fuel + 1) marker? s (piece ++ after) s' (written ++ written') := by
  refine ⟨fun executed => ?_, fun hOpened => ?_, fun {m tail} hStep hText hTail => ?_⟩
  · obtain ⟨executed', hFirst⟩ := hPlace.normal executed
    obtain ⟨executed'', hRest⟩ := hBlock.normal executed'
    exact ⟨executed'',
      outcome_blockReader_then (s := s.normalizing executed) hSome hEnds hFirst hRest⟩
  · rw [String.toList_append]
    exact hPlace.word hBlock.word hOpened
  · rw [String.toList_append, List.append_assoc] at hText
    have hWord : middle.engine.opened = true → Text.word (written'.toList ++ tail) <+: middle.ahead := by
      rw [Text.word_append_of_nil hTail]
      exact hBlock.word
    obtain ⟨m', hReads, hMiddle, hRest⟩ := hPlace.again hStep hText hWord
    obtain ⟨m'', hReads', hLast, hEnd⟩ := hBlock.again hMiddle hRest hTail
    exact ⟨m'', hReads.trans hReads', hLast, hEnd⟩

/-- The induction is on the fuel of the direct pass; one step of it is one place. -/
theorem blocks_rewritten (env : Env) (fuel : Nat) : BlocksRewritten env fuel := by
  induction fuel with
  | zero =>
      intro marker? s s' out _ _ h
      cases h
  | succ fuel ih =>
      intro marker? s s' out hMarker hs h
      rcases loop_ok h with ⟨hRest, rfl, rfl, hSame⟩ | ⟨marker, rfl, hSome, hPrefix, rfl, rfl⟩ |
        ⟨hSome, hEnds, piece, middle, after, hPlace, hAfter, rfl⟩
      · have hOver := Rewritten.over hs 0 fun executed =>
          outcome_block_atEnd (s := s.normalizing executed) env fuel "" hRest
        subst hSame
        exact ⟨hOver.1, "", hOver.2⟩
      · have hOver := Rewritten.over hs marker.length fun executed =>
          outcome_block_marker (s := s.normalizing executed) env fuel "" hSome hPrefix
        exact ⟨hOver.1, "", hOver.2⟩
      · obtain ⟨hRemains, written, hWritten⟩ := place_rewritten ih hs hSome hPlace
        obtain ⟨hRemains', written', hWritten'⟩ := ih hMarker (hs.later hRemains) hAfter
        exact ⟨hRemains.trans hRemains', written ++ written', hWritten.then hSome hEnds hWritten'⟩

/-- What the normalizing pass puts behind a document. -/
theorem closing_spacing (h : s.engine.Orderly) :
    Text.Spacing s.engine.normalizing.close.1.toList ∧
      Text.word s.engine.normalizing.close.1.toList = [] := by
  rw [h.close_normalizing]
  dsimp only
  split <;> decide

/-- A document ends with what closes its paragraph. -/
theorem expandDocument_of_block {out : String}
    (h : outcome (blockReader env fuel none) s = (.ok out, s')) :
    outcome (expandDocument env fuel) s =
      (.ok (out ++ s'.engine.close.1), s'.withEngine s'.engine.close.2) := by
  unfold expandDocument
  rw [outcome_wholeDocument, h]

/-- The last pass reads what was written for a document, and then blanks. -/
theorem Rewritten.outcome_document (hs : Passing s) (hRemains : Remains s s') {out written : String}
    (h : Rewritten env fuel none s out s' written) {m : ExpandState} (hStep : InStep s m)
    (hText : m.rest = (written ++ s'.engine.normalizing.close.1).toList) :
    ∃ fuel' last, outcome (expandDocument env fuel') m = (.ok (out ++ s'.engine.close.1), last) := by
  obtain ⟨hSpacing, hWord⟩ := closing_spacing hRemains.orderly
  rw [String.toList_append] at hText
  obtain ⟨m', hReads, hLast, hBehind⟩ := h.again hStep hText hWord
  have hBuilt : m'.session.registry.Built := by
    rw [hLast.session]
    exact (hs.later hRemains).built
  have hBlanks := Reads.blanks env hSpacing hBuilt (hBehind.trans (List.append_nil _).symm)
  generalize hBlanksIs : s'.engine.normalizing.close.1.toList = blanks at hBlanks hBehind
  have hEnd : ((m'.withEngine (m'.engine.behindBlanks blanks)).advance blanks.length).rest = [] := by
    rw [ExpandState.rest_advance]
    change m'.rest.drop blanks.length = []
    rw [hBehind, List.drop_length]
  obtain ⟨fuel', hBlock⟩ := (hReads.trans hBlanks).block (.inl rfl)
    ⟨1, outcome_block_atEnd env 0 "" hEnd⟩
  have hClose : ((m'.withEngine (m'.engine.behindBlanks blanks)).advance blanks.length).engine.close.1 =
      s'.engine.close.1 := by
    change (m'.engine.behindBlanks blanks).close.1 = _
    rw [hLast.engine, AutoBreak.close_behindBlanks]
  have hDocument := expandDocument_of_block hBlock
  rw [hClose, String.append_empty] at hDocument
  exact ⟨fuel', _, hDocument⟩

/-- A text that a pass can render without definitions, libraries and explicit paragraphs
is normalized first to no effect: the normalizing pass succeeds on it, and rendering its
result gives what rendering the text gives. The macros are commands that a later pass
evaluates and that stay in the paragraph. -/
theorem passes_agree (env : Env) {fuel : Nat} {session : Session}
    (hBuilt : session.registry.Built) (hDeferring : session.registry.Deferring)
    {file path text : String} {target : Target} {out : String} {last : ExpandState}
    (hRun : outcome (documentWithin Handler.rendering env fuel)
      (session.opening file path text target) = (.ok out, last)) :
    outcome (expandDocument env fuel) (session.opening file path text target) = (.ok out, last) ∧
    ∃ normalized middle,
      outcome (expandDocument env fuel) (session.opening file path text .normalize) =
        (.ok normalized, middle) ∧
      ∃ fuel' last', outcome (expandDocument env fuel')
        (session.opening file path normalized target) = (.ok out, last') := by
  refine ⟨(documentWithin_below _ env fuel).ok hRun, ?_⟩
  have hs : Passing (session.opening file path text target) :=
    ⟨hBuilt, hDeferring, AutoBreak.orderly_ofTarget target⟩
  obtain ⟨output, s', hBlock, rfl, rfl⟩ := wholeDocument_ok hRun
  obtain ⟨hRemains, written, hWritten⟩ := blocks_rewritten env fuel (.inl rfl) hs hBlock
  obtain ⟨executed, hNormal⟩ := hWritten.normal 0
  have hStart : (session.opening file path text target).normalizing 0 =
      session.opening file path text .normalize := rfl
  rw [hStart] at hNormal
  exact ⟨_, _, expandDocument_of_block hNormal,
    hWritten.outcome_document hs hRemains ⟨rfl, rfl, rfl, rfl⟩ rfl⟩

def emphasis : Session :=
  (behind "\\newcommand\x7bem: raw(x) ctx->web\x7d\x7b<em>#x</em>\x7d\n").session

theorem built_emphasis : emphasis.registry.Built := by
  unfold emphasis
  exact built_behind _

theorem deferring_emphasis : emphasis.registry.Deferring :=
  Registry.deferring_of_handlers (by decide +kernel)

theorem emphasis_rendered :
    (outcome (documentWithin Handler.rendering plainEnv 20)
      (emphasis.opening "<string>" "" "a % b\n\\em\x7bc  d\x7d" .web)).1 =
        .ok "\n<p>a <em>c d</em></p>\n" := by
  decide +kernel

/-- The command in a paragraph, behind a comment. -/
theorem passes_agree_emphasis : ∃ normalized middle fuel last,
    outcome (expandDocument plainEnv 20)
      (emphasis.opening "<string>" "" "a % b\n\\em\x7bc  d\x7d" .normalize) =
        (.ok normalized, middle) ∧
    outcome (expandDocument plainEnv fuel) (emphasis.opening "<string>" "" normalized .web) =
      (.ok "\n<p>a <em>c d</em></p>\n", last) := by
  obtain ⟨last, hRun⟩ := outcome_ok_of_fst emphasis_rendered
  obtain ⟨-, normalized, middle, hNormalized, fuel, last', hLast⟩ :=
    passes_agree plainEnv built_emphasis deferring_emphasis hRun
  exact ⟨normalized, middle, fuel, last', hNormalized, hLast⟩

end Expand

end MacroMarkup
