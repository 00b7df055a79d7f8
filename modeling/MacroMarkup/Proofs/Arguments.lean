import MacroMarkup.Proofs.Arguments.Spaced

/-! Blanks at the end of an argument. They are no part of its value, but they
stay pending, and what is read next settles them. -/
namespace MacroMarkup

/-- The scopes that an invocation reads, by whether they are verbatim. -/
def Handler.scopes : Handler → List Bool
  | .user called => called.scopes
  | .builtin .paragraph => [false]
  | .builtin _ => []

/-- The paragraph engine with which the scopes of an invocation are read. -/
def Handler.opening (handler : Handler) (engine : AutoBreak) : AutoBreak :=
  match handler with
  | .user called => (engine.settle called.signature.policy).2
  | .builtin _ => (engine.ensureOpen true).2

namespace Expand

variable {env : Env} {fuel : Nat} {blanks after : List Char} {s s' t : ExpandState}

section Tied

variable {tie : Tie} {block block' : BlockReader} {rounds rounds' : Nat} {before later : List Bool}
  {values : List String} {behind behind' last : ExpandState}

/-- Where the scopes are read with the same values, and what follows them is steady,
an invocation of a macro comes to the same. -/
theorem invoke_tied {user : UserMacro} {invocation : String} {expansion : Expansion}
    (hBlock : BlocksBelow block block') (hKeeps : ∀ marker?, Keeps Calm Calm (block marker?))
    (hRounds : rounds ≤ rounds') (hScopes : user.scopes = before ++ false :: later)
    (hLater : ∀ flag ∈ later, Steady tie [] [] (argument env block flag))
    (hIndent : s'.document.reader.indent = s.document.reader.indent)
    (hEngine : s'.engine = s.engine)
    (hRead : outcome ((before ++ [false]).mapM (argument env block))
      (s.withEngine (s.engine.settle user.signature.policy).2).suspend = (.ok values, behind))
    (hRead' : outcome ((before ++ [false]).mapM (argument env block'))
      (s'.withEngine (s.engine.settle user.signature.policy).2).suspend = (.ok values, behind'))
    (hBuilt : behind.session.registry.Built) (hTied : Abreast tie [] [] behind behind')
    (hOutcome : outcome (invoke env block rounds user invocation) s = (.ok expansion, last)) :
    ∃ last', outcome (invoke env block' rounds' user invocation) s' = (.ok expansion, last') ∧
      Abreast tie [] [] last last' := by
  obtain ⟨args, middle, hArgs⟩ := invoke_ok hOutcome
  have hInner := hArgs
  rw [outcome_callArgs _ hScopes hRead] at hInner
  have hSteady := Steady.laterArguments hLater user s.document.reader.indent values
  rcases hSteady.follows hBuilt hTied args middle hInner with hLost | ⟨middle', hInner', hMiddle⟩
  · exact absurd hLost (Nat.not_lt_zero _)
  · have hArgs' : outcome (callArgs env block' user s'.document.reader.indent)
        (s'.withEngine (s'.engine.settle user.signature.policy).2).suspend = (.ok args, middle') := by
      rw [hEngine, outcome_callArgs _ hScopes hRead', hIndent]
      exact (Below.laterArguments hBlock env user _ values later).ok hInner'
    have hBuilt' : ∀ enabled, (middle.resume enabled).session.registry.Built :=
      fun _ => ((hSteady.keeps.ok hInner).2 hBuilt).1
    rw [outcome_invoke user invocation hArgs] at hOutcome
    rw [outcome_invoke user invocation hArgs', hEngine, hMiddle.target]
    split at hOutcome
    · rename_i hApplies
      rw [if_pos hApplies]
      generalize hText : outcome (evaluate env block rounds user args.1.values)
        (middle.resume (s.engine.settle user.signature.policy).2.enabled) = result at hOutcome
      obtain ⟨_ | text, ended⟩ := result
      · cases hOutcome
      · cases hOutcome
        have hEvaluate : Steady tie [] [] (evaluate env block rounds user args.1.values) :=
          .evaluate hKeeps rounds user _
        rcases hEvaluate.follows (hBuilt' _) (hMiddle.resume _) text _ hText with
          hLost | ⟨last', hText', hLast⟩
        · exact absurd hLost (Nat.not_lt_zero _)
        · have hMore := (Below.evaluate hBlock env hRounds user args.1.values).ok hText'
          refine ⟨last', ?_, hLast⟩
          rw [hMore]
    · rename_i hApplies
      rw [if_neg hApplies]
      cases hOutcome
      exact ⟨_, rfl, hMiddle.resume _⟩

/-- The list of one parsed argument is read as one scope. -/
theorem outcome_single (env : Env) (block : BlockReader) (s : ExpandState) :
    outcome ([false].mapM (argument env block)) s =
      match outcome (parsedScope env block) s with
      | (.ok value, middle) => (.ok [value], middle)
      | (.error failure, middle) => (.error failure, middle) := by
  rw [List.mapM_cons, outcome_bind]
  have hArgument : argument env block false = parsedScope env block := rfl
  rw [hArgument]
  generalize outcome (parsedScope env block) s = result
  obtain ⟨_ | value, middle⟩ := result <;> rfl

/-- The same for a paragraph of its own, which has the one scope. -/
theorem paragraph_tied {expansion : Expansion} (hEngine : s'.engine = s.engine)
    (hRead : outcome ([false].mapM (argument env block))
      (s.withEngine (s.engine.ensureOpen true).2).suspend = (.ok values, behind))
    (hRead' : outcome ([false].mapM (argument env block'))
      (s'.withEngine (s.engine.ensureOpen true).2).suspend = (.ok values, behind'))
    (hTied : Abreast tie [] [] behind behind')
    (hOutcome : outcome (paragraph env block) s = (.ok expansion, last)) :
    ∃ last', outcome (paragraph env block') s' = (.ok expansion, last') ∧
      Abreast tie [] [] last last' := by
  obtain ⟨contents, middle, hScope, rfl, rfl⟩ := paragraph_ok hOutcome
  rw [outcome_single, hScope] at hRead
  cases hRead
  rw [outcome_single] at hRead'
  generalize hScope' : outcome (parsedScope env block')
    (s'.withEngine (s.engine.ensureOpen true).2).suspend = result at hRead'
  obtain ⟨_ | contents', middle'⟩ := result
  · cases hRead'
  · cases hRead'
    rw [← hEngine] at hScope' ⊢
    exact ⟨_, outcome_paragraph hScope', hTied.resume _⟩

/-- The same for whatever is dispatched to. -/
theorem dispatch_tied {handler : Handler} {length : Nat} {out : String}
    (hBlock : BlocksBelow block block') (hKeeps : ∀ marker?, Keeps Calm Calm (block marker?))
    (hRounds : rounds ≤ rounds') (hScopes : handler.scopes = before ++ false :: later)
    (hLater : ∀ flag ∈ later, Steady tie [] [] (argument env block flag))
    (hTake : s'.rest.take length = s.rest.take length)
    (hDepth : s'.document.depth = s.document.depth) (hEngine : s'.engine = s.engine)
    (hIndent : (s'.entered length).document.reader.indent =
      (s.entered length).document.reader.indent)
    (hRead : outcome ((before ++ [false]).mapM (argument env block))
      (s.calling length (handler.opening s.engine)) = (.ok values, behind))
    (hRead' : outcome ((before ++ [false]).mapM (argument env block'))
      (s'.calling length (handler.opening s.engine)) = (.ok values, behind'))
    (hBuilt : behind.session.registry.Built) (hTied : Abreast tie [] [] behind behind')
    (hOutcome : outcome (dispatch env block rounds handler length) s = (.ok out, last)) :
    ∃ last', outcome (dispatch env block' rounds' handler length) s' = (.ok out, last') ∧
      Abreast tie [] [] last last' := by
  obtain ⟨hLimit, expansion, middle, hHandler, rfl, rfl⟩ := dispatch_ok hOutcome
  obtain ⟨middle', hHandler', hMiddle⟩ : ∃ middle', outcome (runHandler env block' rounds' handler
      (String.ofList (s'.rest.take length))) (s'.entered length) = (.ok expansion, middle') ∧
        Abreast tie [] [] middle middle' := by
    rw [hTake]
    cases handler with
    | user user =>
        exact invoke_tied (s := s.entered length) hBlock hKeeps hRounds hScopes hLater hIndent
          hEngine hRead hRead' hBuilt hTied hHandler
    | builtin builtin =>
        cases builtin with
        | paragraph =>
            obtain ⟨rfl, rfl⟩ : before = [] ∧ later = [] := by
              cases before with
              | nil => exact ⟨rfl, (List.cons.inj hScopes).2.symm⟩
              | cons flag before => simp [Handler.scopes] at hScopes
            exact paragraph_tied (s := s.entered length) hEngine hRead hRead' hTied hHandler
        | _ => simp [Handler.scopes] at hScopes
  refine ⟨middle'.exited expansion.firings, ?_, hMiddle.exited _⟩
  rw [outcome_dispatch rounds' handler length (by rw [hDepth]; exact hLimit), hHandler']

end Tied

/-- An invocation stands here, and its scopes are read up to one that is expanded,
whose closing brace stands behind `text`. -/
structure ScopesRead (env : Env) (block : BlockReader) (s : ExpandState) (length : Nat)
    (handler : Handler) (before later : List Bool) (values : List String) (text : List Char)
    (behind : ExpandState) : Prop where
  found : s.session.registry.lookup? s.rest = some (length, handler)
  scopes : handler.scopes = before ++ false :: later
  read : outcome ((before ++ [false]).mapM (argument env block))
    (s.calling length (handler.opening s.engine)) = (.ok values, behind)
  closed : s.rest = text ++ '\x7d' :: behind.rest

/-- What the first computation gives is given by the second one as well, with a
change to the paragraph engine that is left. -/
def Matches {α : Type} (change : AutoBreak → AutoBreak) (s s' : ExpandState)
    (action action' : Expand α) : Prop :=
  ∀ a last, outcome action s = (.ok a, last) →
    ∃ reader, outcome action' s' = (.ok a, last.moved reader (change last.engine)) ∧
      reader.rest = last.rest

/-- Runs that end side by side on the same text match without a change. -/
theorem Matches.of_same {α : Type} {action action' : Expand α}
    (h : ∀ a last, outcome action s = (.ok a, last) →
      ∃ last', outcome action' s' = (.ok a, last') ∧ Abreast .same [] [] last last') :
    Matches id s s' action action' := by
  intro a last hOutcome
  obtain ⟨last', hOutcome', hLast⟩ := h a last hOutcome
  obtain ⟨reader, text, rfl, -, hRest, hRest'⟩ := hLast.same
  exact ⟨reader, hOutcome', hRest'.trans hRest.symm⟩

section Inserted

variable {length : Nat} {handler : Handler} {before later : List Bool} {values : List String}
  {text : List Char} {behind : ExpandState}

namespace ScopesRead

/-- The scopes end behind the spelling of the invocation. -/
theorem reach (h : ScopesRead env (blockReader env fuel) s length handler before later values text
    behind) : behind.rest.length < (s.advance length).rest.length := by
  have hShorter : behind.rest.length < (s.calling length (handler.opening s.engine)).rest.length :=
    arguments_shorten h.read
  exact hShorter

/-- The text with the blanks, side by side with the text without them. -/
theorem abreast (h : ScopesRead env (blockReader env fuel) s length handler before later values text
    behind) (blanks : List Char) :
    Abreast .same ('\x7d' :: behind.rest) (blanks ++ '\x7d' :: behind.rest) s
      (s.padded text blanks behind.rest) :=
  .intro _ s.engine text rfl (fun _ => rfl) h.closed rfl

/-- Behind the spelling the two texts stand abreast of the inserted blanks. -/
theorem abreast_entered (h : ScopesRead env (blockReader env fuel) s length handler before later
    values text behind) (hBlanks : Text.Spacing blanks) :
    Abreast .same ('\x7d' :: behind.rest) (blanks ++ '\x7d' :: behind.rest) (s.entered length)
      ((s.padded text blanks behind.rest).entered length) := by
  have hGap : Gap ('\x7d' :: behind.rest) (blanks ++ '\x7d' :: behind.rest) := .blanks _ hBlanks
  rcases (h.abreast blanks).advance hGap length with hLost | hAhead
  · have hReach := h.reach
    rw [List.length_cons] at hLost
    omega
  · exact hAhead.withDepth _

/-- The scopes are read with the same values. The blanks are pending behind them. -/
theorem inserted (h : ScopesRead env (blockReader env fuel) s length handler before later values text
    behind) (hBuilt : s.session.registry.Built) (hBlanks : Text.Spacing blanks) :
    ∃ reader, reader.rest = behind.rest ∧
      ScopesRead env (blockReader env (fuel + blanks.length)) (s.padded text blanks behind.rest)
        length handler before later values (text ++ blanks)
        (behind.moved reader (behind.engine.behindBlanks blanks)) := by
  have hGap : Gap ('\x7d' :: behind.rest) (blanks ++ '\x7d' :: behind.rest) := .blanks _ hBlanks
  have hCalling : Abreast .same ('\x7d' :: behind.rest) (blanks ++ '\x7d' :: behind.rest)
      (s.calling length (handler.opening s.engine))
      ((s.padded text blanks behind.rest).calling length (handler.opening s.engine)) := by
    obtain ⟨reader, rest, hSame, hAligned, hRest, hRest'⟩ := (h.abreast_entered hBlanks).same
    unfold ExpandState.calling
    rw [hSame]
    exact .intro reader _ rest rfl hAligned hRest hRest'
  have hBuilt' : (s.calling length (handler.opening s.engine)).session.registry.Built := hBuilt
  obtain ⟨reader, hRead, hReader⟩ := arguments_spaced env hBlanks hBuilt' hCalling h.read rfl
  refine ⟨reader, hReader, ?_, h.scopes, hRead, ?_⟩
  · rcases (h.abreast blanks).lookup? hGap hBuilt with ⟨other, _, hFound, hLost⟩ | hSame
    · have hReach := h.reach
      rw [h.found] at hFound
      cases hFound
      rw [List.length_cons] at hLost
      omega
    · exact hSame.trans h.found
  · have hEnd : (behind.moved reader (behind.engine.behindBlanks blanks)).rest = behind.rest := hReader
    rw [hEnd, List.append_assoc]
    rfl

/-- A macro with scopes leaves visible text in its row. -/
theorem indent_entered (h : ScopesRead env (blockReader env fuel) s length handler before later
    values text behind) (hBuilt : s.session.registry.Built) (hBlanks : Text.Spacing blanks) :
    ((s.padded text blanks behind.rest).entered length).document.reader.indent =
      (s.entered length).document.reader.indent := by
  obtain ⟨reader, rest, hSame, hAligned, -, -⟩ := (h.abreast_entered hBlanks).same
  rw [hSame]
  rcases Steady.seen_entered hBuilt h.found with ⟨c, rfl⟩ | hSeen
  · have hScopes := h.scopes
    simp [Handler.scopes] at hScopes
  · exact hAligned.indent hSeen

/-- The blanks come behind the spelling, which is found as before. -/
theorem take_padded (h : ScopesRead env (blockReader env fuel) s length handler before later
    values text behind) (hBuilt : s.session.registry.Built) (hBlanks : Text.Spacing blanks) :
    (s.padded text blanks behind.rest).rest.take length = s.rest.take length := by
  have hGap : Gap ('\x7d' :: behind.rest) (blanks ++ '\x7d' :: behind.rest) := .blanks _ hBlanks
  have hReach := h.reach
  obtain ⟨key, hLongest, rfl⟩ := hBuilt.wellFormed.longest_of_lookup? h.found
  rcases (h.abreast blanks).prefix_of hGap hLongest.matched with hLost | hMatched
  · rw [List.length_cons] at hLost
    omega
  · rw [← List.prefix_iff_eq_take.mp hMatched, ← List.prefix_iff_eq_take.mp hLongest.matched]

/-- Reading the scopes only defines macros. -/
theorem built (h : ScopesRead env (blockReader env fuel) s length handler before later values text
    behind) (hBuilt : s.session.registry.Built) : behind.session.registry.Built := by
  have hSteady : Steady .same [] [] ((before ++ [false]).mapM (argument env (blockReader env fuel))) :=
    .mapM fun flag _ => .argument (.block env .none fuel (.inl rfl) "") .none flag
  exact ((hSteady.keeps.ok h.read).2 hBuilt).1

/-- Where what follows the scopes is read alike, so is the whole invocation. -/
theorem dispatch_padded {tie : Tie} (h : ScopesRead env (blockReader env fuel) s length handler
    before later values text behind) (hBuilt : s.session.registry.Built)
    (hBlanks : Text.Spacing blanks) {reader : Reader}
    (hInserted : ScopesRead env (blockReader env (fuel + blanks.length))
      (s.padded text blanks behind.rest) length handler before later values (text ++ blanks)
      (behind.moved reader (behind.engine.behindBlanks blanks)))
    (hLater : ∀ flag ∈ later, Steady tie [] [] (argument env (blockReader env fuel) flag))
    (hTied : Abreast tie [] [] behind (behind.moved reader (behind.engine.behindBlanks blanks)))
    {out : String} {last : ExpandState}
    (hOutcome : outcome (dispatch env (blockReader env fuel) fuel handler length) s =
      (.ok out, last)) :
    ∃ last', outcome (dispatch env (blockReader env (fuel + blanks.length)) (fuel + blanks.length)
        handler length) (s.padded text blanks behind.rest) = (.ok out, last') ∧
      Abreast tie [] [] last last' :=
  dispatch_tied (blockReader_below env (Nat.le_add_right fuel blanks.length))
    (fun marker? => calm.block env fuel marker? "") (Nat.le_add_right fuel blanks.length) h.scopes
    hLater (h.take_padded hBuilt hBlanks) rfl rfl (h.indent_entered hBuilt hBlanks) h.read
    hInserted.read (h.built hBuilt) hTied hOutcome

/-- Absorbed blanks leave nothing to tell the two texts apart by. -/
theorem tied_absorbed {reader : Reader} (hAbsorbs : behind.engine.Absorbs blanks)
    (hAligned : behind.document.reader.Aligned reader) (hReader : reader.rest = behind.rest) :
    Abreast .same [] [] behind (behind.moved reader (behind.engine.behindBlanks blanks)) := by
  rw [(behind.engine.behindBlanks_eq_iff blanks).mpr hAbsorbs]
  exact .intro reader _ behind.rest rfl hAligned (List.append_nil _).symm
    (hReader.trans (List.append_nil _).symm)

/-- The scopes behind the blanks are read alike where the engine has absorbed them. -/
theorem later_absorbed (h : ScopesRead env (blockReader env fuel) s length handler before later
    values text behind) (hBuilt : s.session.registry.Built) {reader : Reader} {engine : AutoBreak}
    (hTied : Abreast .same [] [] behind (behind.moved reader engine)) (more : Nat) :
    Matches id behind (behind.moved reader engine)
      (later.mapM (argument env (blockReader env fuel)))
      (later.mapM (argument env (blockReader env (fuel + more)))) := by
  have hSteady : Steady .same [] [] (later.mapM (argument env (blockReader env fuel))) :=
    .mapM fun flag _ => .argument (.block env .none fuel (.inl rfl) "") .none flag
  refine .of_same fun others last hOthers => ?_
  rcases hSteady.follows (h.built hBuilt) hTied others last hOthers with
    hLost | ⟨last', hOthers', hLast⟩
  · exact absurd hLost (Nat.not_lt_zero _)
  · have hBlock := blockReader_below env (Nat.le_add_right fuel more)
    exact ⟨last', (Below.mapM_argument hBlock env later).ok hOthers', hLast⟩

/-- A document that starts with the invocation goes on with its dispatch. -/
theorem outcome_document (h : ScopesRead env (blockReader env fuel) s length handler before later
    values text behind) (output : String) :
    outcome (block env (fuel + 1) none output) s =
      outcome (dispatch env (blockReader env fuel) fuel handler length >>= fun piece =>
        block env fuel none (output ++ piece)) s := by
  have hSome : s.rest ≠ [] := by rw [h.closed]; simp
  rw [outcome_block_place env fuel output hSome (not_endsAt_none _), outcome_bind, outcome_bind,
    outcome_place_dispatch env _ fuel hSome h.found]
  rfl

/-- The rest of the document is read alike where the invocation is. -/
theorem document_padded (h : ScopesRead env (blockReader env fuel) s length handler before later
    values text behind) (hBuilt : s.session.registry.Built) (hBlanks : Text.Spacing blanks)
    {reader : Reader}
    (hInserted : ScopesRead env (blockReader env (fuel + blanks.length))
      (s.padded text blanks behind.rest) length handler before later values (text ++ blanks)
      (behind.moved reader (behind.engine.behindBlanks blanks)))
    (hTied : Abreast .same [] [] behind (behind.moved reader (behind.engine.behindBlanks blanks)))
    (output : String) :
    Matches id s (s.padded text blanks behind.rest) (block env (fuel + 1) none output)
      (block env (fuel + 1 + blanks.length) none output) := by
  refine .of_same fun whole last hWhole => ?_
  rw [h.outcome_document output] at hWhole
  rw [Nat.add_right_comm, hInserted.outcome_document output]
  obtain ⟨piece, middle, hPiece, hAfter⟩ := outcome_bind_ok hWhole
  obtain ⟨middle', hPiece', hMiddle⟩ := h.dispatch_padded hBuilt hBlanks hInserted
    (fun flag _ => .argument (.block env .none fuel (.inl rfl) "") .none flag) hTied hPiece
  have hBuilt' : middle.session.registry.Built :=
    ((calm.dispatch env (fun marker? => calm.block env fuel marker? "") fuel handler length).ok
      hPiece).2 hBuilt |>.1
  have hSteady : Steady .same [] [] (block env fuel none (output ++ piece)) :=
    .block env .none fuel (.inr ⟨rfl, rfl⟩) _
  rcases hSteady.follows hBuilt' hMiddle whole last hAfter with hLost | ⟨last', hAfter', hLast⟩
  · exact absurd hLost (Nat.not_lt_zero _)
  · refine ⟨last', ?_, hLast⟩
    rw [outcome_bind_of_ok hPiece']
    exact (block_below env (Nat.le_add_right fuel blanks.length) none (output ++ piece)).ok hAfter'

/-- Where only verbatim scopes follow, the blanks are pending behind the invocation. -/
theorem dispatch_leaves (h : ScopesRead env (blockReader env fuel) s length handler before later
    values text behind) (hBuilt : s.session.registry.Built) (hBlanks : Text.Spacing blanks)
    {reader : Reader} (hReader : reader.rest = behind.rest)
    (hInserted : ScopesRead env (blockReader env (fuel + blanks.length))
      (s.padded text blanks behind.rest) length handler before later values (text ++ blanks)
      (behind.moved reader (behind.engine.behindBlanks blanks)))
    (hVerbatim : false ∉ later) :
    Matches (AutoBreak.behindBlanks blanks) s (s.padded text blanks behind.rest)
      (dispatch env (blockReader env fuel) fuel handler length)
      (dispatch env (blockReader env (fuel + blanks.length)) (fuel + blanks.length) handler
        length) := by
  have hArgument : ∀ flag ∈ later,
      Steady (.lacking blanks) [] [] (argument env (blockReader env fuel) flag) := by
    intro flag hMem
    cases flag with
    | false => exact absurd hMem hVerbatim
    | true => exact .verbatimScope .none
  have hTied : Abreast (.lacking blanks) [] [] behind
      (behind.moved reader (behind.engine.behindBlanks blanks)) :=
    .intro reader _ behind.rest rfl trivial (List.append_nil _).symm
      (hReader.trans (List.append_nil _).symm)
  intro out last hOutcome
  obtain ⟨last', hOutcome', hLast⟩ :=
    h.dispatch_padded hBuilt hBlanks hInserted hArgument hTied hOutcome
  obtain ⟨reader', engine, rest, hEngine, -, hRest, hRest'⟩ := hLast
  obtain rfl : engine = last.engine.behindBlanks blanks := hEngine
  exact ⟨reader', hOutcome', hRest'.trans hRest.symm⟩

end ScopesRead

/-- Blanks in front of the closing brace of an argument change neither its value nor
what is read before it. Behind it they are pending, and only those that the paragraph
engine absorbs leave it as it is. Where it does absorb them, and the row is indented as
before, nothing that follows changes: not the later arguments, not the invocation, not
the rest of the document. Where no later argument is expanded, the invocation comes to
the same, and leaves the blanks pending. -/
theorem argument_blanks (hBuilt : s.session.registry.Built)
    (h : ScopesRead env (blockReader env fuel) s length handler before later values text behind)
    (hBlanks : Text.Spacing blanks) (output : String) :
    ∃ reader, reader.rest = behind.rest ∧
      ScopesRead env (blockReader env (fuel + blanks.length)) (s.padded text blanks behind.rest)
        length handler before later values (text ++ blanks)
        (behind.moved reader (behind.engine.behindBlanks blanks)) ∧
      (∀ engine : AutoBreak, engine.behindBlanks blanks = engine ↔ engine.Absorbs blanks) ∧
      (behind.engine.Absorbs blanks → behind.document.reader.Aligned reader →
        Matches id behind (behind.moved reader (behind.engine.behindBlanks blanks))
          (later.mapM (argument env (blockReader env fuel)))
          (later.mapM (argument env (blockReader env (fuel + blanks.length)))) ∧
        Matches id s (s.padded text blanks behind.rest)
          (dispatch env (blockReader env fuel) fuel handler length)
          (dispatch env (blockReader env (fuel + blanks.length)) (fuel + blanks.length) handler
            length) ∧
        Matches id s (s.padded text blanks behind.rest) (block env (fuel + 1) none output)
          (block env (fuel + 1 + blanks.length) none output)) ∧
      (false ∉ later →
        Matches (AutoBreak.behindBlanks blanks) s (s.padded text blanks behind.rest)
          (dispatch env (blockReader env fuel) fuel handler length)
          (dispatch env (blockReader env (fuel + blanks.length)) (fuel + blanks.length) handler
            length)) := by
  obtain ⟨reader, hReader, hInserted⟩ := h.inserted hBuilt hBlanks
  refine ⟨reader, hReader, hInserted, fun engine => engine.behindBlanks_eq_iff blanks, ?_, ?_⟩
  · intro hAbsorbs hAligned
    have hTied := ScopesRead.tied_absorbed hAbsorbs hAligned hReader
    refine ⟨h.later_absorbed hBuilt hTied _, .of_same fun out last hOutcome => ?_,
      h.document_padded hBuilt hBlanks hInserted hTied output⟩
    exact h.dispatch_padded hBuilt hBlanks hInserted
      (fun flag _ => .argument (.block env .none fuel (.inl rfl) "") .none flag) hTied hOutcome
  · exact h.dispatch_leaves hBuilt hBlanks hReader hInserted

end Inserted

def brackets : String :=
  "\\newcommand\x7bem: raw(a)\x7d\x7b[#a]\x7d\n"

def bracketing (argument : String) : ExpandState :=
  (behind brackets).withDocument
    (DocumentState.start "<string>" "" ("\\em\x7b" ++ argument ++ "\x7db") .normalize)

theorem built_bracketing (argument : String) : (bracketing argument).session.registry.Built := by
  have hSession (s : ExpandState) (document : DocumentState) :
      (s.withDocument document).session = s.session := rfl
  rw [bracketing, hSession]
  exact built_behind brackets

def bracketed (argument : String) : Handler :=
  match (bracketing argument).session.registry.lookup? (bracketing argument).rest with
  | some (_, handler) => handler
  | none => .builtin .paragraph

def bracketedScope (argument : String) : Except Failure (List String) × ExpandState :=
  outcome ([false].mapM (Expand.argument plainEnv (blockReader plainEnv 9)))
    ((bracketing argument).calling 3
      ((bracketed argument).opening (bracketing argument).engine))

def bracketedCall (argument : String) : Except Failure String × ExpandState :=
  outcome (dispatch plainEnv (blockReader plainEnv 9) 9 (bracketed argument) 3)
    (bracketing argument)

theorem bracketing_run : ∀ argument ∈ ["a", "a "],
    ((bracketing argument).session.registry.lookup? (bracketing argument).rest =
        some (3, bracketed argument) ∧
      (bracketed argument).scopes = [false] ∧
      (bracketedScope argument).1 = .ok ["a"] ∧
      (bracketing argument).rest =
        ("\\em\x7b" ++ argument).toList ++ '\x7d' :: (bracketedScope argument).2.rest) ∧
    (bracketedCall argument).1 = .ok "[a]" ∧
    ((bracketedCall argument).2.engine.pendingSpace = true ↔ argument = "a ") ∧
    (bracketedCall argument).2.engine.pendingBreaks = 0 := by
  decide +kernel

theorem scopesRead_bracketing {argument : String} (hArgument : argument ∈ ["a", "a "]) :
    ScopesRead plainEnv (blockReader plainEnv 9) (bracketing argument) 3 (bracketed argument) [] []
      ["a"] ("\\em\x7b" ++ argument).toList (bracketedScope argument).2 := by
  obtain ⟨⟨hFound, hScopes, hRead, hClosed⟩, -⟩ := bracketing_run argument hArgument
  exact ⟨hFound, hScopes, Prod.ext hRead rfl, hClosed⟩

/-- A second blank in front of the closing brace is absorbed by the first. -/
theorem argument_blanks_absorbed : ∃ reader last,
    (bracketedCall "a ") = (.ok "[a]", last) ∧ last.engine.Absorbs [' '] ∧
    outcome (dispatch plainEnv (blockReader plainEnv 10) 10 (bracketed "a ") 3)
      ((bracketing "a ").padded ("\\em\x7b" ++ "a ").toList [' '] (bracketedScope "a ").2.rest) =
        (.ok "[a]", last.moved reader last.engine) := by
  have hMem : "a " ∈ ["a", "a "] := by decide
  have hRun := (bracketing_run "a " hMem).2
  generalize hCall : bracketedCall "a " = result at hRun
  obtain ⟨out, last⟩ := result
  obtain ⟨hOut, hPending, hBreaks⟩ := hRun
  dsimp only at hOut
  subst hOut
  obtain ⟨-, -, -, -, -, hLeaves⟩ := argument_blanks (built_bracketing "a ")
    (scopesRead_bracketing hMem) (show Text.Spacing [' '] by decide) ""
  obtain ⟨reader, hOutcome, -⟩ := hLeaves (by decide) "[a]" last hCall
  have hAbsorbs : last.engine.Absorbs [' '] := .inr (.inr ⟨by decide, .inl (hPending.mpr rfl)⟩)
  rw [(last.engine.behindBlanks_eq_iff [' ']).mpr hAbsorbs] at hOutcome
  exact ⟨reader, last, rfl, hAbsorbs, hOutcome⟩

/-- A blank row in front of the closing brace goes on to the text behind the
invocation, and ends its paragraph there. -/
theorem argument_blanks_leak : ∃ handler behind,
    ScopesRead plainEnv (blockReader plainEnv 9) (bracketing "a") 3 handler [] [] ["a"]
      ("\\em\x7b" ++ "a").toList behind ∧
    (outcome (dispatch plainEnv (blockReader plainEnv 9) 9 handler 3) (bracketing "a")).2.engine ≠
      (outcome (dispatch plainEnv (blockReader plainEnv 11) 11 handler 3)
        ((bracketing "a").padded ("\\em\x7b" ++ "a").toList ['\n', '\n']
          behind.rest)).2.engine ∧
    (outcome (block plainEnv 10 none "") (bracketing "a")).1 = .ok "[a]b" ∧
    (outcome (block plainEnv 12 none "")
      ((bracketing "a").padded ("\\em\x7b" ++ "a").toList ['\n', '\n'] behind.rest)).1 =
        .ok "[a]\n\nb" :=
  ⟨bracketed "a", (bracketedScope "a").2, scopesRead_bracketing (by decide), by decide +kernel⟩

end Expand

end MacroMarkup
