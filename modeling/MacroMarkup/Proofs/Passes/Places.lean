import MacroMarkup.Proofs.Passes.Handlers

/-! The places of a document in three passes. A place of the direct pass is nothing to
the normalizing pass but a blank to remember, or it is written with the blanks that were
pending before it. -/
namespace MacroMarkup.Expand

variable {env : Env} {fuel : Nat} {block : BlockReader} {user : UserMacro} {s s' m m' : ExpandState}

/-- What the normalizing pass writes at a place comes to the same in the last pass. What
counts of the text behind it is the word that it starts with. -/
structure PlaceRewritten (env : Env) (fuel : Nat) (s : ExpandState) (piece : String)
    (s' : ExpandState) (written : String) : Prop where
  normal : ∀ executed, ∃ executed', outcome (place env (blockReader env fuel) fuel)
    (s.normalizing executed) = (.ok written, s'.normalizing executed')
  word : ∀ {after : List Char}, (s'.engine.opened = true → Text.word after <+: s'.ahead) →
    s.engine.opened = true → Text.word (written.toList ++ after) <+: s.ahead
  again : ∀ {m : ExpandState} {tail : List Char}, InStep s m → m.rest = written.toList ++ tail →
    (s'.engine.opened = true → Text.word tail <+: s'.ahead) →
      ∃ m', Reads env m piece m' ∧ InStep s' m' ∧ m'.rest = tail

/-- Blanks that are pending end the word that comes next. -/
theorem word_gap {text : List Char} (h : Text.word text <+: Text.word s.rest) :
    Text.word (s.engine.gap ++ text) <+: s.ahead := by
  by_cases hGap : s.engine.gap = []
  · rw [ahead_settled hGap, hGap]
    exact h
  · rw [Text.word_spacing s.engine.spacing_gap hGap]
    exact List.nil_prefix

/-- Visible text is written with the blanks that were pending before it. -/
theorem PlaceRewritten.of_visible (hs : Passing s) {piece written : String} {c : Char}
    (item : List Char) (hBrace : c ≠ '\x7d')
    (hNormal : ∀ executed, ∃ executed', outcome (place env (blockReader env fuel) fuel)
      (s.normalizing executed) = (.ok written, s'.normalizing executed'))
    (hWritten : written.toList = s.engine.gap ++ c :: item)
    (hWord : ∀ {after : List Char}, (s'.engine.opened = true → Text.word after <+: s'.ahead) →
      Text.word (c :: item ++ after) <+: Text.word s.rest)
    (hAgain : ∀ {m : ExpandState} {tail : List Char},
      Counterpart (s.engine.clearPending.behindBlanks s.engine.gap) s m →
        m.rest = c :: item ++ tail → (s'.engine.opened = true → Text.word tail <+: s'.ahead) →
          ∃ fuel m', outcome (place env (blockReader env fuel) fuel) m = (.ok piece, m') ∧
            InStep s' m' ∧ m'.rest = tail) :
    PlaceRewritten env fuel s piece s' written := by
  refine ⟨hNormal, fun {after} hAfter _ => ?_, fun {m tail} hStep hText hTail => ?_⟩
  · rw [hWritten, List.append_assoc]
    exact word_gap (hWord hAfter)
  · rw [hWritten, List.append_assoc] at hText
    have hBuilt : m.session.registry.Built := by
      rw [hStep.session]
      exact hs.built
    have hRest := rest_behindBlanks hText (m.engine.behindBlanks s.engine.gap)
    have hLevel : Counterpart (s.engine.clearPending.behindBlanks s.engine.gap) s
        ((m.withEngine (m.engine.behindBlanks s.engine.gap)).advance s.engine.gap.length) :=
      ⟨hStep.session, hStep.depth, hStep.target, congrArg (AutoBreak.behindBlanks _) hStep.engine⟩
    obtain ⟨fuel', m', hPlace, hLast, hEnd⟩ := hAgain hLevel hRest hTail
    exact ⟨m', .behindBlanks s.engine.spacing_gap hBuilt hText hBrace hPlace, hLast, hEnd⟩

/-- Behind a blank that counts no word goes on. -/
theorem word_behindBlank {c : Char} {after : List Char}
    (hGap : (s.engine.behindBlanks [c]).gap ≠ [])
    (hAfter : Text.word after <+: ((s.withEngine (s.engine.behindBlanks [c])).advance 1).ahead) :
    Text.word after <+: s.ahead := by
  have hAhead : ((s.withEngine (s.engine.behindBlanks [c])).advance 1).ahead = [] := if_neg hGap
  rw [hAhead, List.prefix_nil] at hAfter
  rw [hAfter]
  exact List.nil_prefix

/-- A blank is rewritten in the gap behind it. -/
theorem blank_rewritten (hs : Passing s) {c : Char} {text : List Char}
    (hBlank : c = ' ' ∨ c = '\n') (hRest : s.rest = c :: text) :
    Remains s ((s.withEngine (s.engine.behindBlanks [c])).advance 1) ∧
      PlaceRewritten env fuel s "" ((s.withEngine (s.engine.behindBlanks [c])).advance 1) "" := by
  have hOrderly := hs.orderly.behindBlanks [c]
  have hOpened := s.engine.opened_behindBlanks [c]
  refine ⟨⟨rfl, rfl, rfl, s.engine.enabled_behindBlanks [c], hOpened.trans, hOrderly⟩,
    fun executed => ⟨executed, blank_normalizing env _ fuel executed hs.built hBlank hRest⟩,
    fun {after} hAfter hOpen => ?_, fun {m tail} hStep hText _ => ?_⟩
  · exact word_behindBlank (hs.orderly.gap_behindBlanks hOpen (List.cons_ne_nil c []))
      (hAfter (hOpened.trans hOpen))
  · refine ⟨m, .refl m, ⟨hStep.session, hStep.depth, hStep.target, ?_⟩, hText⟩
    rw [hStep.engine]
    exact (s.engine.clearPending_behindBlanks [c]).symm

/-- A literal character is rewritten as the gap in front of it, and itself. -/
theorem literal_rewritten (hs : Passing s) {c : Char} {text : List Char}
    (hRest : s.rest = c :: text) (hLiteral : s.session.registry.lookup? (c :: text) = none)
    {piece : String} (h : outcome (literal c) s = (.ok piece, s')) :
    Remains s s' ∧ ∃ written, PlaceRewritten env fuel s piece s' written := by
  have hMark := hs.built.unmarked_of_literal hLiteral
  rw [outcome_literal, Prod.mk.injEq] at h
  obtain ⟨hPiece, rfl⟩ := h
  by_cases hBlank : c = ' ' ∨ c = '\n'
  · rw [AutoBreak.process_blank hBlank] at *
    obtain ⟨hRemains, hRewritten⟩ := blank_rewritten hs hBlank hRest
    cases hPiece
    exact ⟨hRemains, "", hRewritten⟩
  · have hVisible := not_or.mp hBlank
    rw [hs.orderly.process hVisible]
    have hBrace : c ≠ '\x7d' := by
      rintro rfl
      exact hMark (by decide)
    refine ⟨⟨rfl, rfl, rfl, rfl, fun _ => rfl, s.engine.orderly_settled⟩,
      String.ofList s.engine.gap ++ String.singleton c,
      .of_visible hs [] hBrace (fun executed => ⟨executed,
        literal_normalizing env _ fuel executed hs.orderly hVisible hRest hLiteral⟩) (by simp) ?_ ?_⟩
    · intro after hAfter
      have hWord := hAfter rfl
      rw [ahead_settled s.engine.gap_settled, rest_behindBlank hRest] at hWord
      rw [hRest]
      exact Text.word_append_mono hWord [c]
    · intro m tail hStep hText _
      refine ⟨0, (m.withEngine s.engine.settled).advance 1, ?_,
        ⟨hStep.session, hStep.depth, hStep.target, rfl⟩, ?_⟩
      · rw [outcome_place env _ 0 hText, hStep.session, hs.built.lookup?_literal hLiteral]
        dsimp only
        rw [outcome_literal, hStep.engine, hs.orderly.process_gap hVisible,
          hs.orderly.process hVisible, hPiece]
      · exact rest_behindBlank hText _

/-- A comment is not written at all. -/
theorem comment_rewritten (hs : Passing s) {length : Nat} (hSome : s.rest ≠ [])
    (hFound : s.session.registry.lookup? s.rest = some (length, .builtin .comment)) {piece : String}
    (h : outcome (dispatch env (blockWithin Handler.rendering env fuel) fuel (.builtin .comment) length)
      s = (.ok piece, s')) :
    Remains s s' ∧ ∃ written, PlaceRewritten env fuel s piece s' written := by
  obtain ⟨hDepth, expansion, middle, hComment, rfl, rfl⟩ := dispatch_ok h
  change outcome comment (s.entered length) = _ at hComment
  rw [outcome_comment, Prod.mk.injEq] at hComment
  obtain ⟨hExpansion, rfl⟩ := hComment
  cases hExpansion
  refine ⟨⟨rfl, rfl, rfl, rfl, id, hs.orderly⟩, "", fun executed => ⟨executed + 1, ?_⟩, ?_, ?_⟩
  · have hAgain : outcome comment ((s.entered length).normalizing executed) =
        (.ok (.fired ""), ((s.entered length).advance _).normalizing executed) := rfl
    exact dispatch_normalizing env _ fuel executed hSome hFound hDepth hAgain
  · intro after hAfter hOpened
    have hWord := hAfter hOpened
    rw [ExpandState.ahead] at hWord
    have hRow := Text.word_rowEnd (s.entered length).rest
    rw [← ExpandState.rest_advance] at hRow
    change Text.word after <+: if _ then Text.word ((s.entered length).advance _).rest else []
      at hWord
    rw [hRow, ite_self, List.prefix_nil] at hWord
    change Text.word after <+: _
    rw [hWord]
    exact List.nil_prefix
  · intro m tail hStep hText _
    exact ⟨m, .refl m, ⟨hStep.session, hStep.depth, hStep.target, hStep.engine⟩, hText⟩

/-- An invocation is written with its spelling, which is found again. -/
theorem dispatch_rewritten (hBlocks : BlocksRewritten env fuel) (hs : Passing s) {length : Nat}
    {handler : Handler} (hFound : s.session.registry.lookup? s.rest = some (length, handler))
    (hAllowed : handler.rendering = true) (hComment : handler ≠ .builtin .comment) {piece : String}
    (h : outcome (dispatch env (blockWithin Handler.rendering env fuel) fuel handler length) s =
      (.ok piece, s')) :
    Remains s s' ∧ ∃ written, PlaceRewritten env fuel s piece s' written := by
  obtain ⟨hDepth, expansion, middle, hHandler, rfl, rfl⟩ := dispatch_ok h
  obtain ⟨key, hLongest, rfl⟩ := hs.built.wellFormed.longest_of_lookup? hFound
  have hTake : s.rest.take key.length = key := (List.prefix_iff_eq_take.mp hLongest.matched).symm
  rw [hTake] at hHandler
  have hEntered : Passing (s.entered key.length) := ⟨hs.built, hs.deferring, hs.orderly⟩
  obtain ⟨⟨hEscape, hClose⟩, hRemains, hOpened, text, hAgain⟩ :=
    handler_redispatched hBlocks hEntered hLongest.bound hAllowed hComment hHandler
  have hLevel : middle.document.depth - 1 = s.document.depth := by
    rw [hRemains.depth]
    rfl
  obtain ⟨after, hAfter⟩ := hLongest.matched
  have hBehind : (s.entered key.length).rest = after := ExpandState.rest_entered hAfter.symm
  obtain ⟨c, more, hKey⟩ := List.exists_cons_of_ne_nil hLongest.ne_nil
  have hBrace : c ≠ '\x7d' := by
    rintro rfl
    exact hClose (by rw [hKey]; rfl)
  obtain ⟨-, written, -, hWritten⟩ := hAgain.normal 0
  refine ⟨⟨hRemains.session, hLevel, hRemains.target, hRemains.enabled, hRemains.opened,
    hRemains.orderly⟩, written.text,
      .of_visible hs (more ++ text) hBrace (fun executed => ?_) ?_ ?_ ?_⟩
  · obtain ⟨executed', written', hNormal, hWritten'⟩ := hAgain.normal executed
    have hSame : written'.text = written.text :=
      String.toList_inj.mp (hWritten'.trans hWritten.symm)
    have hSome : s.rest ≠ [] := by rw [← hAfter, hKey]; simp
    have hInvoked : outcome (runHandler env (blockReader env fuel) fuel handler
        (String.ofList (s.rest.take key.length))) ((s.entered key.length).normalizing executed) =
          (.ok written', middle.normalizing executed') := by
      rwa [hTake]
    rw [← hSame]
    exact ⟨_, dispatch_normalizing env _ fuel executed hSome hFound hDepth hInvoked⟩
  · rw [hWritten, hKey]
    rfl
  · intro others hOthers
    have hWord := Text.word_append_mono (hAgain.word (hOthers hOpened)) key
    rw [hBehind, hAfter, hKey, List.cons_append] at hWord
    rwa [List.cons_append, List.append_assoc]
  · intro m tail hStep hText hTail
    have hSplit : m.rest = key ++ (text ++ tail) := by
      rw [hText, hKey, List.cons_append, List.append_assoc]
      rfl
    have hLookup : m.session.registry.lookup? m.rest = some (key.length, handler) := by
      rw [hStep.session, hSplit]
      rw [← hAfter] at hLongest
      refine hs.built.lookup?_word hs.deferring hLongest hEscape ?_
      have hWord := hAgain.word (hTail hOpened)
      rwa [hBehind] at hWord
    have hInner : (m.entered key.length).rest = text ++ tail := ExpandState.rest_entered hSplit
    have hLevelAgain : Counterpart ((s.entered key.length).engine.clearPending.behindBlanks
        (s.entered key.length).engine.gap) (s.entered key.length) (m.entered key.length) :=
      ⟨hStep.session, congrArg (· + 1) hStep.depth, hStep.target, hStep.engine⟩
    obtain ⟨fuel', again, m', hOutcome, hSame, hLast, hEnd⟩ := hAgain.again hLevelAgain hInner
    have hTakeAgain : m.rest.take key.length = key := by rw [hSplit, List.take_left]
    refine ⟨fuel', m'.exited again.firings, ?_, ⟨hLast.session, congrArg (· - 1) hLast.depth,
      hLast.target, hLast.engine⟩, hEnd⟩
    rw [outcome_place_dispatch env _ fuel' (by rw [hText]; simp) hLookup,
      outcome_dispatch fuel' handler key.length (by rw [hStep.depth]; exact hDepth), hTakeAgain,
      hOutcome, ← hSame]

/-- Every place of the direct pass is rewritten, where its scopes are. -/
theorem place_rewritten (hBlocks : BlocksRewritten env fuel) (hs : Passing s) (hSome : s.rest ≠ [])
    {piece : String}
    (h : outcome (placeWithin Handler.rendering env (blockWithin Handler.rendering env fuel) fuel) s =
      (.ok piece, s')) :
    Remains s s' ∧ ∃ written, PlaceRewritten env fuel s piece s' written := by
  obtain ⟨hAllowed, hPlace⟩ := placeWithin_ok h
  obtain ⟨c, text, hRest⟩ := List.exists_cons_of_ne_nil hSome
  rw [outcome_place env _ fuel hRest] at hPlace
  cases hLookup : s.session.registry.lookup? (c :: text) with
  | none =>
      rw [hLookup] at hPlace
      exact literal_rewritten hs hRest hLookup hPlace
  | some found =>
      obtain ⟨length, handler⟩ := found
      rw [hLookup] at hPlace
      rw [← hRest] at hLookup
      have hRendering := hAllowed length handler hLookup
      by_cases hComment : handler = .builtin .comment
      · subst hComment
        exact comment_rewritten hs hSome hLookup hPlace
      · exact dispatch_rewritten hBlocks hs hLookup hRendering hComment hPlace

end MacroMarkup.Expand
