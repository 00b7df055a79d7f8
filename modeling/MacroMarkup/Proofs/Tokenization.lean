import MacroMarkup.Proofs.ErrorPosition
import MacroMarkup.Proofs.Expand.Reread
import MacroMarkup.Proofs.Expand.Run

/-! Which spellings the last pass finds in the normalized text. Between two items of the
normalizing pass it finds nothing that neither of them is, except for two quotes that
come to stand side by side. -/
namespace MacroMarkup

/-- The mode of the macro that is dispatched to. -/
def Handler.mode? : Handler → Option Mode
  | .builtin _ => none
  | .user called => some called.signature.mode

namespace Expand

variable {env : Env} {fuel fuel' : Nat} {s s' last : ExpandState}

/-- What the places of the normalizing pass put out is inert in the end, one step for
each place. -/
theorem Steps.inert {out : String} (h : Steps env fuel s out fuel' s') (hs : Normalizing s)
    (hTame : s'.session.registry.Tame) : Inert s'.session.registry .running out.toList := by
  induction h with
  | refl fuel s => exact .nil
  | @place fuel fuel' s middle s' piece out hRest hPlace hSteps ih =>
      have hMiddle := hs.later ((calm.place env (calm.block env fuel · "") fuel).ok hPlace)
      have hExtends := hMiddle.extends (hSteps.keeps calm)
      have hPiece := (inertReader env fuel).place hs hPlace (hExtends.tame hTame)
      rw [String.toList_append]
      exact (hPiece.extends hExtends).append (ih hMiddle hTame)

/-- A document that is normalized is inert on both sides of each of its places. -/
theorem Steps.inert_parts {items normalized : String} (h : Steps env fuel s items fuel' s')
    (hs : Normalizing s) (hRun : outcome (expandDocument env fuel) s = (.ok normalized, last))
    (hTame : last.session.registry.Tame) :
    ∃ tail, normalized = items ++ tail ∧ Inert last.session.registry .running items.toList ∧
      Inert last.session.registry .running tail.toList := by
  obtain ⟨output, ended, hBlock, rfl, rfl⟩ := wholeDocument_ok hRun
  unfold blockReader at hBlock
  rw [h.outcome_block] at hBlock
  have hMiddle := hs.later (h.keeps calm)
  have hEnded := calm.block env fuel' none _ |>.ok hBlock
  have hExtends := hMiddle.extends hEnded
  obtain ⟨others, rfl, hOthers⟩ := block_inert env fuel' hMiddle hBlock hTame
  have hItems := h.inert hs (hExtends.tame hTame)
  refine ⟨others ++ ended.engine.close.1, ?_, hItems.extends hExtends, ?_⟩
  · rw [String.empty_append, String.append_assoc]
  · rw [String.toList_append]
    exact hOthers.append (.ofSpacing (hMiddle.later hEnded).blank.close)

/-- A pass over a text of two inert parts reads nothing across the point where they
meet but two quotes. -/
theorem expandDocument_stable {m : ExpandState} (hs : Rereading m) {items tail : String}
    (hItems : Inert m.session.registry .running items.toList)
    (hTail : Inert m.session.registry .running tail.toList) (hRest : m.rest = (items ++ tail).toList) :
    outcome (documentIf (stable tail.length) env fuel) m = outcome (expandDocument env fuel) m := by
  rw [String.toList_append] at hRest
  have hAlike := alike_parts env fuel "" hs hItems hTail hRest
  rw [String.length_toList] at hAlike
  have hAgree : outcome (blockIf (stable tail.length) env fuel none) m =
    outcome (blockReader env fuel none) m := hAlike.agree
  unfold documentIf expandDocument
  rw [outcome_wholeDocument, outcome_wholeDocument, hAgree]

end Expand

namespace Compiler

open Expand

/-- When a document can be normalized and all its macros are tame, the pass that renders it
dispatches only to escaped characters, formulas and commands of a later pass, on every
level; and no spelling of theirs goes over the end of what one place of the document was
normalized to, except for two equal quotes on both sides of that point, which are always
read at once. -/
theorem tokenization_stable {env : Env} {fuel : Nat} {source : Source} {text normalized : String}
    {s last : ExpandState}
    (hPreload : outcome (env.options.preload.forM fun name =>
      includeLibrary env (blockReader env fuel) name) (opening source text) = (.ok (), s))
    (hRun : outcome (expandDocument env fuel) s = (.ok normalized, last))
    (hTame : last.session.registry.Tame) {items : String} {fuel' : Nat} {s' : ExpandState}
    (hItems : Steps env fuel s items fuel' s') :
    ∃ tail, normalized = items ++ tail ∧ ∀ fuel target,
      outcome (documentIf (stable tail.length) env fuel) (last.withDocument
          (DocumentState.start source.filename source.path normalized target)) =
        outcome (pass env fuel source normalized target) last := by
  have hOpening : Normalizing (opening source text) := ⟨.builtins, rfl, AutoBreak.blank_ofTarget⟩
  have hPreloaded := hOpening.later
    ((calm.forM (calm.includeLibrary env (calm.block env fuel · "")) _).ok hPreload)
  obtain ⟨tail, rfl, hBefore, hBehind⟩ := hItems.inert_parts hPreloaded hRun hTame
  refine ⟨tail, rfl, fun fuel target => ?_⟩
  have hLast := hPreloaded.later ((calm.expandDocument env _).ok hRun)
  have hRereading : Rereading (last.withDocument
      (DocumentState.start source.filename source.path (items ++ tail) target)) :=
    ⟨hLast.built, hTame⟩
  unfold Expand.pass
  rw [outcome_bind_of_ok (outcome_modifyDocument _ last)]
  exact expandDocument_stable hRereading hBefore hBehind rfl

/-- Two quotes that a definition keeps apart, and a command of the web pass. -/
def meeting : Source :=
  Source.ofText "'\\newcommand\x7bem: raw(x) ctx->web\x7d\x7b<em>#x</em>\x7d'\\em\x7ba\x7d"

theorem meeting_normalized :
    (outcome (expandDocument plainEnv 80) (opening meeting meeting.text)).1 =
        .ok "''\\em\x7ba\x7d\n\n" ∧
      (outcome (expandDocument plainEnv 80) (opening meeting meeting.text)).2.session.registry.handlers.all
        Registry.tames = true := by
  decide +kernel

theorem meeting_begins :
    (outcome (place plainEnv (blockReader plainEnv 79) 79) (opening meeting meeting.text)).1 =
      .ok "'" := by
  decide +kernel

/-- The point between the two quotes of the normalized text. -/
theorem tokenization_stable_quotes : ∃ last tail,
    outcome (expandDocument plainEnv 80) (opening meeting meeting.text) = (.ok ("'" ++ tail), last) ∧
    ∀ fuel target, outcome (documentIf (stable tail.length) plainEnv fuel) (last.withDocument
        (DocumentState.start meeting.filename meeting.path ("'" ++ tail) target)) =
      outcome (pass plainEnv fuel meeting ("'" ++ tail) target) last := by
  obtain ⟨last, hRun⟩ := outcome_ok_of_fst meeting_normalized.1
  obtain ⟨middle, hPlace⟩ := outcome_ok_of_fst meeting_begins
  have hTame : last.session.registry.Tame := by
    have hHandlers := meeting_normalized.2
    rw [hRun] at hHandlers
    exact Registry.tame_of_handlers hHandlers
  have hItems := Steps.place (by decide) hPlace (.refl 79 middle)
  obtain ⟨tail, hTail, hStable⟩ := tokenization_stable rfl hRun hTame hItems
  rw [String.append_empty] at hTail
  rw [hTail] at hRun hStable
  exact ⟨last, tail, hRun, hStable⟩

/-- A macro whose spelling goes on from an escaped percent sign, defined behind text that
completes it. -/
def completed : Source :=
  Source.ofText "\\%abc\n\\newcommand\x7b%abc: raw()\x7d\x7bx\x7d"

/-- Two quotes that a definition keeps apart. -/
def quotesApart : Source :=
  Source.ofText "'\\newcommand\x7ba:\x7d\x7bx\x7d'"

/-- The escape and the letters behind it are normalized one by one, but the web pass finds
one spelling in them, of a macro that the normalizing pass evaluates, and dispatches to
that. It takes two quotes for one as well. -/
theorem tokenization_unstable :
    document? (compileWith 60 plainEnv completed .normalize) = some "\\%abc\n\n" ∧
    (outcome (place plainEnv (blockReader plainEnv 59) 59) (opening completed completed.text)).1 =
      .ok "\\%" ∧
    (((outcome (expandDocument plainEnv 60) (opening completed completed.text)).2.session.registry.lookup?
      "\\%abc\n\n".toList).map fun found => (found.1, found.2.mode?)) = some (5, some .normalize) ∧
    document? (compileWith 60 plainEnv completed .web) = some "\n<p>\\%abc\x7b\x7d</p>\n" ∧
    document? (compileWith 60 plainEnv quotesApart .normalize) = some "''\n\n" ∧
    document? (compileWith 60 plainEnv quotesApart .web) = some "\n<p>\u201d</p>\n" := by
  decide +kernel

end Compiler

end MacroMarkup
