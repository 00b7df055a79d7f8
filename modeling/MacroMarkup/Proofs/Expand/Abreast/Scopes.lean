import MacroMarkup.Proofs.Expand.Abreast

/-! Scopes and bodies, read side by side. A body or a marker that is found before the gap is
found in both texts, and one that is not takes the gap in. -/
namespace MacroMarkup.Expand.Steady

variable {tie : Tie} {left right : List Char} {s s' : ExpandState} {α β : Type}

/-- A marker that comes before the gap is found in both. Otherwise the first takes the gap in. -/
theorem readPast (hGap : Gap left right) (marker shown : String) :
    Steady tie left right (Expand.readPast marker shown) where
  keeps := calm.readPast marker shown
  follows := by
    intro s s' _ hAbreast a t hOutcome
    obtain ⟨reader, engine, text, hEngine, hAligned, hRest, hRest'⟩ := id hAbreast
    rw [outcome_readPast, hRest] at hOutcome
    cases hFound : Text.before? marker.toList (text ++ left) with
    | none =>
        rw [hFound] at hOutcome
        cases hOutcome
    | some content =>
        rw [hFound] at hOutcome
        cases hOutcome
        have hFound' : ((text ++ left).drop (content.length + marker.length)).length < left.length ∨
            Text.before? marker.toList (text ++ right) = some content := by
          rcases hGap.reach text (content.length + marker.length) with hWithin | rfl | hLost
          · exact .inr (Text.before?_append hFound hWithin)
          · exact .inr hFound
          · exact .inl hLost
        rcases hFound' with hLost | hFound'
        · refine .inl ?_
          rwa [s.rest_advance, hRest]
        · rcases hAbreast.advance hGap (content.length + marker.length) with hLost | hAhead
          · exact .inl hLost
          · refine .inr ⟨_, ?_, hAhead⟩
            have hAfter : (s.moved reader engine).rest = text ++ right := hRest'
            rw [outcome_readPast, hAfter, hFound']

/-- A scope begins in both, or in neither of them. -/
theorem expectScopeBegin (hGap : Gap left right) :
    Steady tie left right Expand.expectScopeBegin where
  keeps := calm.expectScopeBegin
  follows := by
    intro s s' _ hAbreast a t hOutcome
    obtain ⟨text, hText, rfl⟩ := expectScopeBegin_ok hOutcome
    rcases hAbreast.head hGap hText with ⟨hBrace, -⟩ | ⟨after, hAfter⟩
    · exact absurd hBrace (by decide)
    · rcases hAbreast.advance hGap 1 with hLost | hAhead
      · exact .inl hLost
      · exact .inr ⟨_, outcome_expectScopeBegin hAfter, hAhead⟩

theorem verbatimScope (hGap : Gap left right) :
    Steady tie left right Expand.verbatimScope :=
  (expectScopeBegin hGap).bind fun _ => readPast hGap _ _

/-- An empty scope has no blanks, so that the gap is not in it. -/
theorem emptyScope (hGap : Gap left right) : Steady tie left right Expand.emptyScope where
  keeps := calm.emptyScope
  follows := by
    intro s s' _ hAbreast a t hOutcome
    rw [outcome_emptyScope] at hOutcome
    by_cases hEmpty : ['\x7b', '\x7d'] <+: s.rest
    · rw [if_pos hEmpty] at hOutcome
      cases hOutcome
      rcases hAbreast.prefix_of hGap hEmpty with hLost | hEmpty'
      · exact .inl hLost
      · rcases hAbreast.advance hGap 2 with hLost | hAhead
        · exact .inl hLost
        · refine .inr ⟨_, ?_, hAhead⟩
          rw [outcome_emptyScope, if_pos hEmpty']
    · rw [if_neg hEmpty] at hOutcome
      cases hOutcome
      refine .inr ⟨_, ?_, hAbreast⟩
      rw [outcome_emptyScope,
        if_neg fun h => hEmpty (hAbreast.prefix_back hGap (by decide) h)]

/-- A line break comes before the gap, or not at all. -/
theorem expectLineBreak (hGap : Gap left right) (cause : ErrorCause) :
    Steady tie left right (Expand.expectLineBreak cause) where
  keeps := calm.expectLineBreak cause
  follows := by
    intro s s' _ hAbreast a t hOutcome
    rw [outcome_expectLineBreak] at hOutcome
    split at hOutcome
    · rename_i hBreak
      cases hOutcome
      obtain ⟨text, hText⟩ := hBreak
      rcases hAbreast.head hGap hText.symm with ⟨hBrace, -⟩ | ⟨after, hAfter⟩
      · exact absurd hBrace (by decide)
      · refine .inr ⟨_, ?_, hAbreast⟩
        have hBreak' : ['\n'] <+: s'.rest := by
          rw [hAfter]
          exact List.prefix_append ['\n'] after
        rw [outcome_expectLineBreak, if_pos hBreak']
    · cases hOutcome

/-- The body of an environment ends before the gap. -/
theorem environmentBody (hGap : Gap left right) (name : String) (indent : Nat) :
    Steady tie left right (Expand.environmentBody name indent) :=
  (expectLineBreak hGap _).bind fun _ => (readPast hGap _ _).bind fun _ => pure _

section Arguments

variable {env : Env} {block : BlockReader} (hScope : Steady tie left right (block (some ['\x7d'])))
include hScope

/-- A scope that is parsed, one level deeper. -/
theorem parsedScope (hGap : Gap left right) :
    Steady tie left right (Expand.parsedScope env block) :=
  (expectScopeBegin hGap).bind fun _ => deeper env hScope fun _ => pure _

theorem argument (hGap : Gap left right) (verbatim : Bool) :
    Steady tie left right (Expand.argument env block verbatim) := by
  unfold Expand.argument
  split
  · exact verbatimScope hGap
  · exact parsedScope hScope hGap

/-- All that an invocation reads behind its spelling. -/
theorem callArgs (hGap : Gap left right) (user : UserMacro) (indent : Nat) :
    Steady tie left right (Expand.callArgs env block user indent) := by
  unfold Expand.callArgs
  split
  · exact (emptyScope hGap).bind fun _ => pure _
  · refine Steady.bind ?_ fun _ => pure _
    unfold Expand.arguments
    split
    · exact (mapM fun flag _ => argument hScope hGap flag).bind fun _ => pure _
    · exact (mapM fun flag _ => argument hScope hGap flag).bind fun _ =>
        (environmentBody hGap _ _).bind fun _ => pure _

end Arguments

/-! Bodies of definitions. -/

theorem inlineBody (hGap : Gap left right) : Steady tie left right Expand.inlineBody := by
  refine (readPast hGap _ _).bind fun code => ?_
  dsimp only
  split
  · exact (fail _).bind fun _ => pure _
  · exact pure _

/-- A block ends before the gap. -/
theorem blockBody (hGap : Gap left right) (indent : Nat) :
    Steady tie left right (Expand.blockBody indent) := by
  refine (readPast hGap _ _).bind fun block => ?_
  dsimp only
  split
  · exact pure _
  · split
    · exact (fail _).bind fun _ => pure _
    · exact pure _

/-- A body on one line takes at least its closing brace. -/
theorem inlineBody_shortens {code : String} {t : ExpandState}
    (h : outcome Expand.inlineBody s = (.ok code, t)) : t.rest.length < s.rest.length := by
  obtain ⟨content, middle, hRead, hRest⟩ := outcome_bind_ok h
  have hOnward : Keeps Onward Onward (do
      if content.toList.contains '\n' then Expand.fail ErrorCause.expectedLineBreak
      return content) := by
    split
    · exact onward.bind (onward.fail _) fun _ => onward.pure _
    · exact onward.pure _
  obtain ⟨after, hText, -, rfl⟩ := readPast_single_ok rfl hRead
  have hShorter := (hOnward.ok hRest).rest.length_le
  rw [s.rest_advance, List.length_drop] at hShorter
  have hLength := congrArg List.length hText
  simp only [List.length_append, List.length_cons] at hLength
  omega

/-- A body on one line is read at least to a closing brace, and so behind the gap. -/
theorem definitionBody (hGap : Gap left right) (indent : Nat) :
    Steady tie left right (Expand.definitionBody indent) := by
  have hLines : Steady tie left right (Expand.blockBody indent) := blockBody hGap indent
  have hInline : Steady tie left right Expand.inlineBody := inlineBody hGap
  refine (expectScopeBegin hGap).bind fun _ => ⟨calm.bind calm.rest fun text => ?_, ?_⟩
  · split
    · exact hLines.keeps
    · exact hInline.keeps
  · intro s s' hBuilt hAbreast a t hOutcome
    rw [outcome_bind_of_ok (outcome_rest s)] at hOutcome
    rw [outcome_bind_of_ok (outcome_rest s')]
    by_cases hBreak : ['\n'].isPrefixOf s.rest
    · obtain ⟨text, hText⟩ := List.isPrefixOf_iff_prefix.mp hBreak
      rcases hAbreast.head hGap hText.symm with ⟨hBrace, -⟩ | ⟨after, hAfter⟩
      · exact absurd hBrace (by decide)
      · have hBreak' : ['\n'].isPrefixOf s'.rest := by
          rw [hAfter]
          exact List.isPrefixOf_iff_prefix.mpr (List.prefix_append ['\n'] after)
        rw [if_pos hBreak] at hOutcome
        rw [if_pos hBreak']
        exact hLines.follows hBuilt hAbreast a t hOutcome
    · rw [if_neg hBreak] at hOutcome
      by_cases hBreak' : ['\n'].isPrefixOf s'.rest
      · have hShorter := inlineBody_shortens hOutcome
        obtain ⟨c, text, hText⟩ : ∃ c text, s.rest = c :: text :=
          List.exists_cons_of_ne_nil (by rintro hNil; rw [hNil] at hShorter; cases hShorter)
        rcases hAbreast.head hGap hText with ⟨-, hLeft⟩ | ⟨after, hAfter⟩
        · rw [← hLeft]
          exact .inl hShorter
        · rw [hAfter, List.isPrefixOf_iff_prefix, List.cons_prefix_cons] at hBreak'
          rw [hText, List.isPrefixOf_iff_prefix, List.cons_prefix_cons] at hBreak
          exact absurd ⟨hBreak'.1, List.nil_prefix⟩ hBreak
      · rw [if_neg hBreak']
        exact hInline.follows hBuilt hAbreast a t hOutcome

end MacroMarkup.Expand.Steady
