import MacroMarkup.Proofs.Fixpoint.Places
import MacroMarkup.Proofs.Passes.Agreement

/-! Re-expansion ends at a fixed point. Its result is not the text that the last round
read but what that round made of it, with blanks settled and scopes written out; read once
more, that text stands for itself. -/
namespace MacroMarkup.Expand

variable {env : Env} {fuel : Nat} {s s' middle : ExpandState}

/-- A block that is over is read again as nothing. -/
theorem Repeated.over (hs : InRound s) (count : Nat) :
    Quiet s (s.advance count) ∧ Repeated env s "" (s.advance count) :=
  ⟨⟨rfl, rfl, rfl, hs.muted⟩, fun _ => List.nil_prefix, fun {m _} hStep hText _ =>
    ⟨m, .refl m, ⟨⟨hStep.session, hStep.depth, hStep.target, hStep.engine⟩, hStep.executed⟩, hText⟩⟩

/-- A block is read again place by place. -/
theorem PlaceAgain.then {piece after : String} (hPlace : PlaceAgain env s piece middle)
    (hBlock : Repeated env middle after s') : Repeated env s (piece ++ after) s' := by
  refine ⟨fun hOpened => ?_, fun {m tail} hStep hText hTail => ?_⟩
  · rw [String.toList_append]
    exact hPlace.word hBlock.word hOpened
  · rw [String.toList_append, List.append_assoc] at hText
    have hWord : middle.engine.opened = true → Text.word (after.toList ++ tail) <+: middle.ahead := by
      rw [Text.word_append_of_nil hTail]
      exact hBlock.word
    obtain ⟨m', hReads, hMiddle, hRest⟩ := hPlace.again hStep hText hWord
    obtain ⟨m'', hReads', hLast, hEnd⟩ := hBlock.again hMiddle hRest hTail
    exact ⟨m'', hReads.trans hReads', hLast, hEnd⟩

/-- The induction is on the fuel of the round in which nothing fires; one step of it is one
place. -/
theorem blocks_repeated (env : Env) (fuel : Nat) : BlocksRepeated env fuel := by
  induction fuel with
  | zero =>
      intro marker? s s' out _ _ h
      cases h
  | succ fuel ih =>
      intro marker? s s' out hMarker hs h hStill
      have hReader : (fun marker? => loop (place env) fuel marker? "") = blockReader env fuel := by
        unfold blockReader
        rw [block_eq_loop]
      unfold blockReader at h
      rw [block_eq_loop] at h
      rcases loop_ok h with ⟨-, rfl, rfl, rfl⟩ | ⟨marker, rfl, -, -, rfl, rfl⟩ |
        ⟨hSome, -, piece, middle, after, hPlace, hAfter, rfl⟩
      · exact Repeated.over hs 0
      · exact Repeated.over hs marker.length
      · rw [hReader] at hPlace
        have hBlock : outcome (blockReader env fuel marker?) middle = (.ok after, s') := by
          rw [← hReader]
          exact hAfter
        have hLaw := (fires.block env fuel · "")
        obtain ⟨hStill₁, hStill₂⟩ := Fires.between ((fires.place env hLaw fuel).ok hPlace)
          ((hLaw marker?).ok hBlock) hStill
        obtain ⟨hQuiet, hAgain⟩ := place_again ih hs hSome hPlace hStill₁
        obtain ⟨hQuiet', hRepeated⟩ := ih hMarker (hs.later hQuiet) hBlock hStill₂
        exact ⟨hQuiet.trans hQuiet', hAgain.then hRepeated⟩

/-- A re-expansion that succeeds ends with a round in which nothing fires. -/
theorem toFixpoint_ok (hBuilt : s.session.registry.Built) {rounds : Nat} {text result : String}
    (h : outcome (toFixpoint (blockReader env fuel) rounds text) s = (.ok result, s')) :
    ∃ session last output middle, session.registry.Built ∧
      outcome (blockReader env fuel none) ⟨session, s.document.generated last⟩ =
        (.ok output, middle) ∧
      middle.document.executed = 0 ∧ result = output ++ middle.engine.close.1 ∧
      s'.session = middle.session := by
  induction rounds generalizing s text with
  | zero => cases h
  | succ rounds ih =>
      rw [outcome_toFixpoint_succ] at h
      generalize hRound : outcome (round (blockReader env fuel) text) s = ended at h
      obtain ⟨_ | ⟨output, fired⟩, next⟩ := ended
      · cases h
      · obtain ⟨written, middle, hBlock, hResult, rfl⟩ := round_ok hRound
        cases hResult
        dsimp only at h
        split at h
        · rename_i hNone
          cases h
          exact ⟨s.session, text, written, middle, hBuilt, hBlock, hNone, rfl, rfl⟩
        · have hLater := ((grown.block env fuel none "").ok hBlock hBuilt).1
          exact ih (s := (middle.withDocument s.document).update fun document =>
            { document with executed := document.executed + middle.document.executed }) hLater h

/-- What re-expansion returns is a fixed point. A document of that text, read with the
registry and the libraries that re-expansion left and from the same level, succeeds with
the text itself; nothing fires in it, and nothing is defined or loaded. The macros are any
but environments of a later pass and a command named as the builtin that opens
environments. -/
theorem fixpoint_repeats (env : Env) {fuel rounds : Nat} {text result : String}
    {s s' : ExpandState} (hBuilt : s.session.registry.Built)
    (hTarget : s.document.target = .normalize)
    (hRun : outcome (toFixpoint (blockReader env fuel) rounds text) s = (.ok result, s'))
    (hRepeatable : s'.session.registry.Repeatable) :
    ∃ enough last, (∀ fuel', enough ≤ fuel' →
        outcome (expandDocument env fuel') (s'.withDocument (s.document.generated result)) =
          (.ok result, last)) ∧
      last.session = s'.session ∧ last.document.executed = 0 := by
  obtain ⟨session, final, output, middle, hBuilt', hBlock, hNone, rfl, hSession⟩ :=
    toFixpoint_ok hBuilt hRun
  have hExtends := ((grown.block env fuel none "").ok hBlock hBuilt').2
  have hStart : InRound ⟨session, s.document.generated final⟩ :=
    ⟨hBuilt', hExtends.repeatable (hSession ▸ hRepeatable), hTarget, AutoBreak.muted_disabled _⟩
  obtain ⟨hQuiet, hRepeated⟩ := blocks_repeated env fuel (.inl rfl) hStart hBlock hNone
  rw [hQuiet.muted.close, String.append_empty]
  have hStep : Retraces (AutoBreak.disabled s.document.target)
      ⟨session, s.document.generated final⟩ (s'.withDocument (s.document.generated output)) :=
    ⟨⟨hSession.trans hQuiet.session, rfl, rfl, rfl⟩, rfl⟩
  obtain ⟨m, hReads, hLast, hEnd⟩ := hRepeated.again hStep (List.append_nil _).symm rfl
  obtain ⟨enough, hAgain⟩ := hReads.block (.inl rfl) ⟨1, outcome_block_atEnd env 0 "" hEnd⟩
  have hClose : m.engine.close.1 = "" := by
    rw [hLast.engine]
    exact AutoBreak.Muted.close ⟨hQuiet.muted.enabled, hQuiet.muted.begun, fun h => absurd rfl h,
      fun _ => ⟨rfl, rfl⟩⟩
  have hDocument := expandDocument_of_block hAgain
  rw [hClose, String.append_empty] at hDocument
  refine ⟨enough, m.withEngine m.engine.close.2, fun fuel' hLe => ?_,
    hLast.session.trans hSession.symm, hLast.executed.trans hNone⟩
  exact (Below.wholeDocument (blockReader_below env hLe)).ok hDocument

/-- A state behind two commands of the web pass, one of which ends the paragraph. -/
def ruled : ExpandState :=
  behind ("\\newcommand\x7bem: raw(x) ctx->web\x7d\x7b<em>#x</em>\x7d\n" ++
    "\\newcommand\x7bcut: raw() ctx->web; leaveblk\x7d\x7b<hr>\x7d\n")

theorem ruled_expanded :
    (outcome (toFixpoint (blockReader plainEnv 40) 3
      "a\n% note\n\\cut  b \\em\x7bc  \\cut\x7b\x7d d \x7de") ruled).1 =
        .ok "a \\cut\x7b\x7db \\em\x7bc \\cut\x7b\x7dd\x7d e" ∧
    (outcome (toFixpoint (blockReader plainEnv 40) 3
      "a\n% note\n\\cut  b \\em\x7bc  \\cut\x7b\x7d d \x7de") ruled).2.session.registry.handlers.all
        Registry.tames = true := by
  decide +kernel

/-- The comment goes in the first of two rounds. -/
theorem fixpoint_repeats_ruled : ∃ s',
    outcome (toFixpoint (blockReader plainEnv 40) 3
      "a\n% note\n\\cut  b \\em\x7bc  \\cut\x7b\x7d d \x7de") ruled =
        (.ok "a \\cut\x7b\x7db \\em\x7bc \\cut\x7b\x7dd\x7d e", s') ∧
    ∃ enough last, (∀ fuel', enough ≤ fuel' →
        outcome (expandDocument plainEnv fuel') (s'.withDocument
          (ruled.document.generated "a \\cut\x7b\x7db \\em\x7bc \\cut\x7b\x7dd\x7d e")) =
            (.ok "a \\cut\x7b\x7db \\em\x7bc \\cut\x7b\x7dd\x7d e", last)) ∧
      last.session = s'.session ∧ last.document.executed = 0 := by
  obtain ⟨hResult, hTame⟩ := ruled_expanded
  obtain ⟨s', hRun⟩ := outcome_ok_of_fst hResult
  rw [hRun] at hTame
  have hBuilt : ruled.session.registry.Built := by
    unfold ruled
    exact built_behind _
  exact ⟨s', hRun, fixpoint_repeats plainEnv hBuilt rfl hRun
    (Registry.tame_of_handlers hTame).repeatable⟩

end MacroMarkup.Expand
