import MacroMarkup.Proofs.Expand.Abreast.Documents
import MacroMarkup.Proofs.Expand.Abreast.Scopes

/-! Places, where the paragraph engines are the same, and the block loop over them. -/
namespace MacroMarkup.Expand.Steady

variable {tie : Tie} {left right : List Char} {s s' : ExpandState} {α β : Type}

/-- Behind an invocation its row has visible text, unless it is an escaped space. -/
theorem seen_entered (hBuilt : s.session.registry.Built) {length : Nat} {handler : Handler}
    (hLookup : s.session.registry.lookup? s.rest = some (length, handler)) :
    (∃ char, handler = .builtin (.escapedChar char)) ∨
      ∃ c ∈ (s.entered length).document.reader.row, c ≠ ' ' := by
  obtain ⟨key, hLongest, rfl⟩ := hBuilt.wellFormed.longest_of_lookup? hLookup
  refine (hBuilt.spelled hLongest.bound).unspaced.imp_right fun hVisible => ?_
  obtain ⟨c, hMem⟩ := List.exists_mem_of_ne_nil key hLongest.ne_nil
  have hBreak : '\n' ∉ key := fun h => (hVisible _ h).2 rfl
  exact ⟨c, Reader.mem_row_advance hLongest.matched hBreak hMem, (hVisible c hMem).1⟩

/-- Definitions read the indentation of their row, which is known behind a
visible character. -/
theorem bindIndent {next : Nat → Expand α} (hNext : ∀ indent, Steady .same left right (next indent))
    (hBuilt : s.session.registry.Built) (hAbreast : Abreast .same left right s s')
    (hSeen : ∃ c ∈ s.document.reader.row, c ≠ ' ') :
    Follows .same left right s s'
      (Expand.document >>= fun document => next document.reader.indent) := by
  intro a t hOutcome
  rw [outcome_bind_of_ok (outcome_document s)] at hOutcome
  rw [outcome_bind_of_ok (outcome_document s')]
  have hIndent : s'.document.reader.indent = s.document.reader.indent := by
    obtain ⟨reader, text, rfl, hAligned, -, -⟩ := hAbreast.same
    exact hAligned.indent hSeen
  rw [hIndent]
  exact (hNext _).follows hBuilt hAbreast a t hOutcome

/-- A definition is read with the indentation of its row, which is the same in both. -/
theorem define (hGap : Gap left right) (kind : MacroKind) (hBuilt : s.session.registry.Built)
    (hAbreast : Abreast .same left right s s') (hSeen : ∃ c ∈ s.document.reader.row, c ≠ ' ') :
    Follows .same left right s s' (Expand.define kind) := by
  have hRest : ∀ indent, Steady .same left right (do
      let signature ← Expand.verbatimScope
      let declaration ← Expand.located (Declaration.parse kind signature.toList)
      let code ← Expand.definitionBody indent
      Expand.setRegistry
        (← Expand.located ((← Expand.registry).define (declaration.define kind code)))) :=
    fun indent => (verbatimScope hGap).bind fun signature => locatedBind fun declaration hParse =>
      (definitionBody hGap indent).bind fun code => register hParse code
  exact bindIndent hRest hBuilt hAbreast hSeen

theorem withAutoBreak {operation : AutoBreak → α × AutoBreak}
    (hMove : ∀ engine, AutoBreak.Move engine (operation engine).2) :
    Steady .same left right (Expand.withAutoBreak operation) where
  keeps := calm.withAutoBreak hMove
  follows := by
    intro s s' _ hAbreast a t hOutcome
    obtain ⟨reader, rest, rfl, hAligned, hRest, hRest'⟩ := hAbreast.same
    cases hOutcome
    exact .inr ⟨_, rfl, .intro reader _ rest rfl hAligned hRest hRest'⟩

/-- What is done while the engine is suspended. -/
theorem suspended {action : Expand α} (h : Steady .same left right action) :
    Steady .same left right (Expand.suspended action) where
  keeps := calm.suspended h.keeps
  follows := by
    intro s s' hBuilt hAbreast a t hOutcome
    obtain ⟨middle, hInner, rfl⟩ := suspended_ok hOutcome
    have hBuilt' : (s.resume false).session.registry.Built := hBuilt
    have hEnabled : s'.engine.enabled = s.engine.enabled := by
      obtain ⟨reader, text, rfl, -, -, -⟩ := hAbreast.same
      rfl
    rcases h.follows hBuilt' (hAbreast.resume false) a middle hInner with
      hLost | ⟨middle', hInner', hMiddle⟩
    · exact .inl hLost
    · have hSuspended : outcome action s'.suspend = (.ok a, middle') := hInner'
      refine .inr ⟨_, ?_, hMiddle.resume s.engine.enabled⟩
      rw [outcome_suspended, hSuspended, hEnabled]

theorem settleParagraph (policy : BreakPolicy) :
    Steady .same left right (Expand.settleParagraph policy) := by
  refine (withAutoBreak AutoBreak.Move.flush).bind fun _ =>
    (withAutoBreak fun engine => ?_).bind fun _ => pure _
  cases policy with
  | wrapInParagraph => exact .ensureOpen false engine
  | leaveParagraph => exact .close engine

/-- A character is read in both. -/
theorem literal (hGap : Gap left right) (c : Char) : Steady .same left right (Expand.literal c) :=
  (withAutoBreak (AutoBreak.Move.process c)).bind fun _ => (advance hGap 1).bind fun _ => pure _

/-- A comment that does not end before the gap takes the brace in. -/
theorem comment (hGap : Gap left right) : Steady tie left right Expand.comment where
  keeps := calm.bind calm.rest fun _ => calm.bind (calm.advance _) fun _ => calm.pure _
  follows := by
    intro s s' _ hAbreast a t hOutcome
    have hLength : (s.advance (s.rest.takeWhile (· ≠ '\n')).length).rest.length < left.length ∨
        s'.rest.takeWhile (· ≠ '\n') = s.rest.takeWhile (· ≠ '\n') := by
      obtain ⟨reader, engine, text, -, -, hText, hText'⟩ := hAbreast
      have hRight : (s.moved reader engine).rest = text ++ right := hText'
      rw [s.rest_advance, hRight, hText]
      cases hGap with
      | none => exact .inr rfl
      | blanks after hBlanks =>
          by_cases hBreak : '\n' ∈ text
          · refine .inr ?_
            rw [Text.takeWhile_append ⟨'\n', hBreak, by decide⟩,
              Text.takeWhile_append ⟨'\n', hBreak, by decide⟩]
          · refine .inl ?_
            have hAll : ∀ c ∈ text, decide (c ≠ '\n') = true := by
              intro c hMem
              rw [decide_eq_true_eq]
              rintro rfl
              exact hBreak hMem
            rw [List.takeWhile_append_of_pos hAll, List.takeWhile_cons_of_pos (by decide),
              List.length_append, List.length_drop, List.length_append]
            simp only [List.length_cons]
            omega
    rw [outcome_comment] at hOutcome
    cases hOutcome
    rcases hLength with hLost | hSame
    · exact .inl hLost
    · rcases hAbreast.advance hGap (s.rest.takeWhile (· ≠ '\n')).length with hLost | hAhead
      · exact .inl hLost
      · refine .inr ⟨_, ?_, hAhead⟩
        rw [outcome_comment, hSame]

section Place

variable {env : Env} {block : BlockReader} (hGap : Gap left right)
  (hKeeps : ∀ marker?, Keeps Calm Calm (block marker?))
  (hScope : Steady .same left right (block (some ['\x7d'])))

include hGap hKeeps hScope

/-- An invocation reads its scopes before the gap, and evaluates the same arguments. -/
theorem invoke (rounds : Nat) (user : UserMacro) (invocation : String)
    (hBuilt : s.session.registry.Built) (hAbreast : Abreast .same left right s s')
    (hSeen : ∃ c ∈ s.document.reader.row, c ≠ ' ') :
    Follows .same left right s s' (Expand.invoke env block rounds user invocation) := by
  have hRest : ∀ indent, Steady .same left right (do
      let marker ← Expand.settleParagraph user.signature.policy
      let args ← Expand.suspended (Expand.callArgs env block user indent)
      if user.signature.mode.appliesTo (← Expand.document).target then
        let text ← Expand.evaluate env block rounds user args.1.values
        return Expansion.fired (marker ++ text)
      else
        return Expansion.passthrough (marker ++ user.reemit invocation args.1 args.2)) := by
    refine fun indent => (settleParagraph _).bind fun marker =>
      (suspended (callArgs hScope hGap user indent)).bind fun args =>
        bindDocument (fun _ _ _ => rfl) fun reached => ?_
    split
    · exact (evaluate hKeeps rounds user _).bind fun _ => pure _
    · exact pure _
  exact bindIndent hRest hBuilt hAbreast hSeen

/-- A builtin reads what it needs before the gap, or takes the gap in. -/
theorem runBuiltin (builtin : Builtin) (invocation : String)
    (hBuilt : s.session.registry.Built) (hAbreast : Abreast .same left right s s')
    (hSeen : (∃ char, builtin = .escapedChar char) ∨ ∃ c ∈ s.document.reader.row, c ≠ ' ') :
    Follows .same left right s s' (Expand.runBuiltin env block builtin invocation) := by
  cases builtin with
  | escape => exact (fail _).follows hBuilt hAbreast
  | escapedChar char =>
      exact ((settleParagraph _).bind fun _ => bindDocument (fun _ _ _ => rfl) fun _ =>
        pure _).follows hBuilt hAbreast
  | comment => exact (comment hGap).follows hBuilt hAbreast
  | scopeBegin => exact (fail _).follows hBuilt hAbreast
  | scopeEnd => exact (fail _).follows hBuilt hAbreast
  | usePackage =>
      exact ((verbatimScope hGap).bind fun _ => (includeLibrary hKeeps _).bind fun _ =>
        pure _).follows hBuilt hAbreast
  | newCommand =>
      have hRow := hSeen.resolve_left (by simp)
      exact (define hGap .command hBuilt hAbreast hRow).bind hBuilt (calm.define _) fun _ => pure _
  | newEnvironment =>
      have hRow := hSeen.resolve_left (by simp)
      exact (define hGap .environment hBuilt hAbreast hRow).bind hBuilt (calm.define _) fun _ =>
        pure _
  | environmentBegin =>
      exact ((verbatimScope hGap).bind fun _ => fail _).follows hBuilt hAbreast
  | environmentEnd => exact (fail _).follows hBuilt hAbreast
  | paragraph =>
      exact ((withAutoBreak (AutoBreak.Move.ensureOpen true)).bind fun _ =>
        (suspended (parsedScope hScope hGap)).bind fun _ => pure _).follows hBuilt hAbreast
  | math =>
      refine Steady.follows ?_ hBuilt hAbreast
      refine (settleParagraph _).bind fun _ => (readPast hGap _ _).bind fun _ =>
        bindDocument (fun _ _ _ => rfl) fun _ => ?_
      split <;> exact pure _

theorem runHandler (rounds : Nat) (handler : Handler) (invocation : String)
    (hBuilt : s.session.registry.Built) (hAbreast : Abreast .same left right s s')
    (hSeen : (∃ char, handler = .builtin (.escapedChar char)) ∨
      ∃ c ∈ s.document.reader.row, c ≠ ' ') :
    Follows .same left right s s' (Expand.runHandler env block rounds handler invocation) := by
  cases handler with
  | builtin builtin =>
      refine runBuiltin hGap hKeeps hScope builtin invocation hBuilt hAbreast ?_
      rcases hSeen with ⟨char, hChar⟩ | hRow
      · exact .inl ⟨char, Handler.builtin.inj hChar⟩
      · exact .inr hRow
  | user user =>
      refine invoke hGap hKeeps hScope rounds user invocation hBuilt hAbreast ?_
      rcases hSeen with ⟨char, hChar⟩ | hRow
      · cases hChar
      · exact hRow

omit hGap hScope in
/-- No invocation gives back text that it has read. -/
theorem dispatch_shortens {rounds : Nat} {handler : Handler} {length : Nat} {text : String}
    {t : ExpandState}
    (h : outcome (Expand.dispatch env block rounds handler length) s = (.ok text, t)) :
    t.rest.length ≤ (s.advance length).rest.length := by
  obtain ⟨-, expansion, middle, hHandler, rfl, rfl⟩ := dispatch_ok h
  exact ((calm.runHandler env hKeeps rounds handler _).ok hHandler).1.rest.length_le

theorem dispatch (rounds : Nat) {handler : Handler} {length : Nat}
    (hBuilt : s.session.registry.Built) (hAbreast : Abreast .same left right s s')
    (hLookup : s.session.registry.lookup? s.rest = some (length, handler)) :
    Follows .same left right s s' (Expand.dispatch env block rounds handler length) := by
  intro a t hOutcome
  have hShorter := dispatch_shortens hKeeps hOutcome
  obtain ⟨hDepth, expansion, middle, hHandler, rfl, rfl⟩ := dispatch_ok hOutcome
  obtain ⟨key, hLongest, rfl⟩ := hBuilt.wellFormed.longest_of_lookup? hLookup
  have hTake : s.rest.take key.length = key := (List.prefix_iff_eq_take.mp hLongest.matched).symm
  rcases hAbreast.advance hGap key.length with hLost | hAhead
  · exact .inl (Nat.lt_of_le_of_lt hShorter hLost)
  · rcases hAbreast.prefix_of hGap hLongest.matched with hLost | hMatched
    · exact .inl (Nat.lt_of_le_of_lt hShorter hLost)
    · have hTake' : s'.rest.take key.length = key := (List.prefix_iff_eq_take.mp hMatched).symm
      have hEntered : Abreast .same left right (s.entered key.length) (s'.entered key.length) := by
        unfold ExpandState.entered
        rw [hAbreast.depth]
        exact hAhead.withDepth _
      have hSeen := seen_entered hBuilt hLookup
      have hBuilt' : (s.entered key.length).session.registry.Built := hBuilt
      rcases runHandler hGap hKeeps hScope rounds handler _ hBuilt' hEntered hSeen expansion middle
        hHandler with hLost | ⟨middle', hHandler', hMiddle⟩
      · exact .inl hLost
      · refine .inr ⟨middle'.exited expansion.firings, ?_, hMiddle.exited _⟩
        rw [hTake] at hHandler'
        rw [outcome_dispatch rounds handler _ (by rw [hAbreast.depth]; exact hDepth), hTake',
          hHandler']

theorem place (rounds : Nat) : Steady .same left right (Expand.place env block rounds) where
  keeps := calm.place env hKeeps rounds
  follows := by
    intro s s' hBuilt hAbreast a t hOutcome
    cases hRest : s.rest with
    | nil =>
        rw [outcome_place_atEnd env block rounds hRest] at hOutcome
        cases hOutcome
        exact .inr ⟨s', outcome_place_atEnd env block rounds (hAbreast.atEnd hGap hRest), hAbreast⟩
    | cons c text =>
        rw [outcome_place env block rounds hRest] at hOutcome
        cases hLookup : s.session.registry.lookup? (c :: text) with
        | none =>
            rw [hLookup] at hOutcome
            rcases hAbreast.head hGap hRest with ⟨rfl, -⟩ | ⟨after, hAfter⟩
            · exact absurd (by simp) (hBuilt.unmarked_of_literal hLookup)
            · rcases hAbreast.lookup? hGap hBuilt with ⟨length, handler, hSome, -⟩ | hSame
              · rw [hRest, hLookup] at hSome
                cases hSome
              · rw [hAfter, hRest, hLookup] at hSame
                rw [outcome_place env block rounds hAfter, hSame]
                exact (literal hGap c).follows hBuilt hAbreast a t hOutcome
        | some found =>
            obtain ⟨length, handler⟩ := found
            rw [hLookup] at hOutcome
            have hShorter := dispatch_shortens hKeeps hOutcome
            rw [← hRest] at hLookup
            obtain ⟨key, hLongest, rfl⟩ := hBuilt.wellFormed.longest_of_lookup? hLookup
            have hKey := List.length_pos_iff.mpr hLongest.ne_nil
            rcases hAbreast.head hGap hRest with ⟨-, hLeft⟩ | ⟨after, hAfter⟩
            · refine .inl ?_
              rw [s.rest_advance, List.length_drop, hLeft] at hShorter
              have hSome := congrArg List.length (hLeft.symm.trans hRest)
              rw [List.length_cons] at hSome
              omega
            · rcases hAbreast.lookup? hGap hBuilt with ⟨length, other, hSome, hLost⟩ | hSame
              · rw [hLookup] at hSome
                cases hSome
                exact .inl (Nat.lt_of_le_of_lt hShorter hLost)
              · rw [hAfter, hLookup] at hSame
                rw [outcome_place env block rounds hAfter, hSame]
                exact dispatch hGap hKeeps hScope rounds hBuilt hAbreast hLookup a t hOutcome

end Place

/-- The block loop, in a scope, and up to the end of a document where there is no
gap. The induction is on the fuel. -/
theorem block (env : Env) (hGap : Gap left right) (fuel : Nat) {marker? : Option (List Char)}
    (hMarker : marker? = some ['\x7d'] ∨ marker? = none ∧ left = []) (output : String) :
    Steady .same left right (Expand.block env fuel marker? output) := by
  induction fuel generalizing marker? output with
  | zero => exact throw _
  | succ fuel ih =>
      refine ⟨calm.block env _ _ _, ?_⟩
      intro s s' hBuilt hAbreast a t hOutcome
      have hPlace := @place _ _ env _ hGap (fun marker? => calm.block env fuel marker? "")
        (ih (.inl rfl) "") fuel
      cases hRest : s.rest with
      | nil =>
          have hRest' := hAbreast.atEnd hGap hRest
          rcases hMarker with rfl | ⟨rfl, -⟩
          · rw [outcome_block_unterminated env fuel _ output hRest] at hOutcome
            cases hOutcome
          · rw [outcome_block_atEnd env fuel output hRest] at hOutcome
            cases hOutcome
            exact .inr ⟨s', outcome_block_atEnd env fuel output hRest', hAbreast⟩
      | cons c text =>
          have hSome : s.rest ≠ [] := by simp [hRest]
          by_cases hEnds : endsAt marker? s.rest
          · obtain ⟨marker, rfl, hPrefix⟩ := hEnds
            obtain rfl : marker = ['\x7d'] := by
              rcases hMarker with h | ⟨h, -⟩ <;> cases h
              rfl
            rw [outcome_block_marker env fuel output hSome hPrefix] at hOutcome
            cases hOutcome
            rcases hAbreast.head hGap hRest with ⟨-, hLeft⟩ | ⟨after, hAfter⟩
            · refine .inl ?_
              rw [s.rest_advance, hLeft, List.length_drop]
              rw [hRest] at hLeft
              rw [← hLeft]
              simp
            · rcases hAbreast.advance hGap 1 with hLost | hAhead
              · exact .inl hLost
              · refine .inr ⟨_, outcome_block_marker env fuel output (by simp [hAfter]) ?_, hAhead⟩
                rw [hRest, List.isPrefixOf_iff_prefix, List.cons_prefix_cons] at hPrefix
                rw [hAfter, List.isPrefixOf_iff_prefix, List.cons_prefix_cons]
                exact ⟨hPrefix.1, List.nil_prefix⟩
          · rcases hAbreast.head hGap hRest with ⟨rfl, hLeft⟩ | ⟨after, hAfter⟩
            · rcases hMarker with rfl | ⟨rfl, hNil⟩
              · refine absurd ⟨_, rfl, ?_⟩ hEnds
                rw [hRest, List.isPrefixOf_iff_prefix]
                exact List.prefix_append ['\x7d'] text
              · rw [hLeft, hNil] at hRest
                cases hRest
            · have hEnds' : ¬ endsAt marker? s'.rest := by
                rintro ⟨marker, rfl, hPrefix⟩
                obtain rfl : marker = ['\x7d'] := by
                  rcases hMarker with h | ⟨h, -⟩ <;> cases h
                  rfl
                rw [hAfter, List.isPrefixOf_iff_prefix, List.cons_prefix_cons] at hPrefix
                refine hEnds ⟨_, rfl, ?_⟩
                rw [hRest, List.isPrefixOf_iff_prefix, List.cons_prefix_cons]
                exact ⟨hPrefix.1, List.nil_prefix⟩
              rw [outcome_block_place env fuel output hSome hEnds] at hOutcome
              rw [outcome_block_place env fuel output (by simp [hAfter]) hEnds']
              exact (hPlace.bind fun piece => ih hMarker _).follows hBuilt hAbreast a t hOutcome

end MacroMarkup.Expand.Steady
