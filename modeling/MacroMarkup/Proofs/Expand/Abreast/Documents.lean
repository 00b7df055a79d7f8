import MacroMarkup.Proofs.Expand.Abreast

/-! Documents of their own and what is kept for the whole session, which are the same on both
sides. -/
namespace MacroMarkup.Expand.Steady

variable {tie : Tie} {left right : List Char} {s s' : ExpandState} {α β : Type}

/-- A document of its own is the same in both, whatever is done on it. -/
theorem onDocument (hAbreast : Abreast tie left right s s') (other : DocumentState)
    (action : Expand α) : Follows tie left right s s' (Expand.onDocument other action) := by
  intro a t hOutcome
  obtain ⟨reader, engine, rest, hEngine, hAligned, hRest, hRest'⟩ := hAbreast
  have hStart : (s.moved reader engine).withDocument other = s.withDocument other := rfl
  rw [outcome_onDocument] at hOutcome
  rw [outcome_onDocument, hStart]
  generalize outcome action (s.withDocument other) = result at hOutcome ⊢
  obtain ⟨_ | b, last⟩ := result
  · cases hOutcome
  · cases hOutcome
    exact .inr ⟨_, rfl, .intro reader engine rest hEngine hAligned hRest hRest'⟩

theorem register {kind : MacroKind} {text : List Char} {declaration : Declaration}
    (hParse : Declaration.parse kind text = .ok declaration) (code : String) :
    Steady tie left right (do
      Expand.setRegistry
        (← Expand.located ((← Expand.registry).define (declaration.define kind code)))) where
  keeps := calm.register hParse code
  follows := by
    intro s s' _ hAbreast a t hOutcome
    obtain ⟨reader, engine, rest, hEngine, hAligned, hRest, hRest'⟩ := hAbreast
    have hRegistry : (s.moved reader engine).session.registry = s.session.registry := rfl
    rw [outcome_bind_of_ok (outcome_registry s), outcome_bind, outcome_located] at hOutcome
    rw [outcome_bind_of_ok (outcome_registry (s.moved reader engine)), outcome_bind,
      outcome_located, hRegistry]
    cases hDefine : s.session.registry.define (declaration.define kind code) with
    | error cause =>
        rw [hDefine] at hOutcome
        cases hOutcome
    | ok registry =>
        rw [hDefine] at hOutcome
        cases hOutcome
        exact .inr ⟨_, rfl, .intro reader engine rest hEngine hAligned hRest hRest'⟩

theorem markLoaded (location : List String) :
    Steady tie left right (Expand.markLoaded location) where
  keeps := calm.markLoaded location
  follows := by
    intro s s' _ hAbreast a t hOutcome
    obtain ⟨reader, engine, rest, hEngine, hAligned, hRest, hRest'⟩ := hAbreast
    have hLoaded : (s.moved reader engine).session.loaded = s.session.loaded := rfl
    rw [outcome_markLoaded] at hOutcome
    rw [outcome_markLoaded, hLoaded]
    split at hOutcome
    · rename_i hContains
      cases hOutcome
      rw [if_pos hContains]
      exact .inr ⟨_, rfl, .intro reader engine rest hEngine hAligned hRest hRest'⟩
    · rename_i hContains
      cases hOutcome
      rw [if_neg hContains]
      exact .inr ⟨_, rfl, .intro reader engine rest hEngine hAligned hRest hRest'⟩

section Block

variable {env : Env} {block : BlockReader} (hKeeps : ∀ marker?, Keeps Calm Calm (block marker?))
include hKeeps

theorem round (text : String) : Steady tie left right (Expand.round block text) where
  keeps := calm.round hKeeps text
  follows := by
    intro s s' _ hAbreast a t hOutcome
    obtain ⟨reader, engine, rest, hEngine, hAligned, hRest, hRest'⟩ := hAbreast
    obtain ⟨output, middle, hBlock, rfl, rfl⟩ := round_ok hOutcome
    refine .inr ⟨_, ?_, .intro reader engine rest hEngine hAligned hRest hRest'⟩
    rw [outcome_round, outcome_wholeDocument]
    have hStart : (s.moved reader engine).withDocument
        ((s.moved reader engine).document.generated text) =
          s.withDocument (s.document.generated text) := rfl
    rw [hStart, hBlock]
    rfl

theorem toFixpoint (rounds : Nat) (text : String) :
    Steady tie left right (Expand.toFixpoint block rounds text) := by
  induction rounds generalizing text with
  | zero => exact throw _
  | succ rounds ih =>
      refine (round hKeeps text).bind fun result => ?_
      dsimp only
      split
      · exact pure _
      · exact ih _

theorem evaluate (rounds : Nat) (user : UserMacro) (values : List String) :
    Steady tie left right (Expand.evaluate env block rounds user values) := by
  unfold Expand.evaluate
  split
  · exact fail _
  · refine (located _).bind fun result => bindDocument (fun _ _ _ => rfl) fun current => ?_
    split
    · exact toFixpoint hKeeps _ _
    · exact pure _

/-- A library is read as a document of its own. -/
theorem readLibrary (path : String) :
    Steady tie left right (Expand.readLibrary env block path) where
  keeps := calm.readLibrary env hKeeps fun _ => trivial
  follows := by
    intro s s' _ hAbreast a t hOutcome
    unfold Expand.readLibrary at hOutcome ⊢
    cases hFile : env.files.readText path with
    | error cause =>
        rw [hFile] at hOutcome
        cases hOutcome
    | ok text =>
        rw [hFile] at hOutcome
        dsimp only at hOutcome ⊢
        cases hMatter : FrontMatter.extract (Source.ofFile path text) with
        | error error =>
            rw [hMatter] at hOutcome
            cases hOutcome
        | ok parts =>
            rw [hMatter] at hOutcome
            obtain ⟨headers, body⟩ := parts
            dsimp only at hOutcome ⊢
            rw [outcome_bind_of_ok (outcome_document s)] at hOutcome
            rw [outcome_bind_of_ok (outcome_document s')]
            obtain ⟨last, middle, hNested, hPure⟩ := outcome_bind_ok hOutcome
            cases hPure
            rcases onDocument hAbreast _ _ last _ hNested with hLost | ⟨middle', hNested', hSame⟩
            · exact .inl hLost
            · refine .inr ⟨middle', ?_, hSame⟩
              rw [hAbreast.depth, hAbreast.target]
              rw [outcome_bind_of_ok hNested']
              rfl

theorem includeLibrary (name : String) :
    Steady tie left right (Expand.includeLibrary env block name) := by
  refine bindDocument (fun _ _ _ => rfl) fun current => ?_
  dsimp only
  split
  · exact fail _
  · refine (markLoaded _).bind fun isNew => ?_
    split
    · exact readLibrary hKeeps _
    · exact pure _

end Block

end MacroMarkup.Expand.Steady
