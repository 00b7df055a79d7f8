import MacroMarkup.Proofs.Expand.Abreast.Places
import MacroMarkup.Proofs.Expand.Run

/-! Scopes with blanks in front of their closing brace. They are read with the values that they
have without the blanks, which the paragraph engine is behind then. -/
namespace MacroMarkup

/-- The state with blanks inserted between a text and the closing brace behind it. -/
def ExpandState.padded (s : ExpandState) (text blanks after : List Char) : ExpandState :=
  s.moved { s.document.reader with rest := text ++ (blanks ++ '\x7d' :: after) } s.engine

namespace Expand

variable {env : Env} {fuel : Nat} {blanks after : List Char} {s s' t : ExpandState}

/-- Blanks in front of a closing brace are read one by one. -/
theorem outcome_block_blanks (env : Env) (fuel : Nat) (hBlanks : Text.Spacing blanks)
    (hBuilt : s.session.registry.Built) (hRest : s.rest = blanks ++ '\x7d' :: after)
    (output : String) :
    outcome (block env (fuel + 1 + blanks.length) (some ['\x7d']) output) s =
      (.ok output,
        (s.withEngine (s.engine.behindBlanks blanks)).advance (blanks.length + 1)) := by
  induction blanks generalizing s output with
  | nil =>
      rw [AutoBreak.behindBlanks_nil]
      refine outcome_block_marker env fuel output (by simp [hRest]) ?_
      rw [hRest]
      exact List.isPrefixOf_iff_prefix.mpr (List.prefix_append ['\x7d'] after)
  | cons b blanks ih =>
      have hBlank := hBlanks b (by simp)
      have hEnds : ¬ endsAt (some ['\x7d']) s.rest := by
        rintro ⟨marker, hMarker, hPrefix⟩
        cases hMarker
        rw [hRest, List.cons_append, List.isPrefixOf_iff_prefix, List.cons_prefix_cons] at hPrefix
        rcases hBlank with rfl | rfl <;> exact absurd hPrefix.1 (by decide)
      rw [List.length_cons, ← Nat.add_assoc,
        outcome_block_place env (fuel + 1 + blanks.length) output (by simp [hRest]) hEnds,
        outcome_bind_of_ok (outcome_place_blank env _ _ hBlank hRest hBuilt),
        String.append_empty,
        ih (s := (s.withEngine (s.engine.behindBlanks [b])).advance 1)
          (fun c hMem => hBlanks c (List.mem_cons_of_mem b hMem)) hBuilt
          (rest_behindBlank hRest _)]
      have hEngine := AutoBreak.behindBlanks_cons b blanks s.engine
      change (_, ((s.withEngine ((s.engine.behindBlanks [b]).behindBlanks blanks)).advance 1).advance
        (blanks.length + 1)) = _
      rw [hEngine, ExpandState.advance_advance, Nat.add_comm 1]

/-- A scope ends behind its closing brace. -/
theorem block_shortens {output text : String}
    (h : outcome (block env fuel (some ['\x7d']) output) s = (.ok text, t)) :
    t.rest.length < s.rest.length := by
  induction fuel generalizing s output with
  | zero => cases h
  | succ fuel ih =>
      by_cases hRest : s.rest = []
      · rw [outcome_block_unterminated env fuel _ output hRest] at h
        cases h
      · have hSome := List.length_pos_iff.mpr hRest
        by_cases hEnds : endsAt (some ['\x7d']) s.rest
        · obtain ⟨marker, hMarker, hPrefix⟩ := hEnds
          cases hMarker
          rw [outcome_block_marker env fuel output hRest hPrefix] at h
          cases h
          rw [s.rest_advance, List.length_drop]
          exact Nat.sub_lt hSome Nat.one_pos
        · rw [outcome_block_place env fuel output hRest hEnds] at h
          obtain ⟨piece, middle, hPlace, hAfter⟩ := outcome_bind_ok h
          have hLe := ((onward.place env (onward.block env fuel · "") fuel).ok hPlace).rest.length_le
          exact Nat.lt_of_lt_of_le (ih hAfter) hLe

/-- A scope with blanks in front of its closing brace has the same contents. What
is pending behind it is what the blanks make of what was pending before. The
induction is on the fuel; what is read before the brace is read side by side. -/
theorem block_spaced (env : Env) (hBlanks : Text.Spacing blanks) {output text : String}
    (hBuilt : s.session.registry.Built)
    (hAbreast : Abreast .same ('\x7d' :: after) (blanks ++ '\x7d' :: after) s s')
    (hOutcome : outcome (block env fuel (some ['\x7d']) output) s = (.ok text, t))
    (hAfter : t.rest = after) :
    ∃ reader, outcome (block env (fuel + blanks.length) (some ['\x7d']) output) s' =
      (.ok text, t.moved reader (t.engine.behindBlanks blanks)) ∧ reader.rest = after := by
  have hGap : Gap ('\x7d' :: after) (blanks ++ '\x7d' :: after) := .blanks after hBlanks
  induction fuel generalizing s s' output with
  | zero => cases hOutcome
  | succ fuel ih =>
      cases hRest : s.rest with
      | nil =>
          rw [outcome_block_unterminated env fuel _ output hRest] at hOutcome
          cases hOutcome
      | cons c rest =>
          have hSome : s.rest ≠ [] := by simp [hRest]
          by_cases hBrace : '\x7d' = c
          · subst hBrace
            rw [outcome_block_scopeEnd env fuel output hRest] at hOutcome
            cases hOutcome
            rw [s.rest_advance, hRest, List.drop_succ_cons, List.drop_zero] at hAfter
            subst hAfter
            obtain ⟨reader, front, rfl, -, hFront, hReader⟩ := hAbreast.same
            rw [hRest, List.self_eq_append_left] at hFront
            rw [hFront, List.nil_append] at hReader
            refine ⟨reader.advance (blanks.length + 1), ?_, ?_⟩
            · exact outcome_block_blanks (s := s.moved reader s.engine) env fuel hBlanks hBuilt
                hReader text
            · rw [Reader.rest_advance, hReader, List.drop_append]
              simp
          · have hEnds : ¬ endsAt (some ['\x7d']) s.rest := by
              rw [hRest, endsAt_single]
              exact hBrace
            rw [outcome_block_place env fuel output hSome hEnds] at hOutcome
            obtain ⟨piece, middle, hPlace, hInner⟩ := outcome_bind_ok hOutcome
            have hSteady : Steady .same ('\x7d' :: after) (blanks ++ '\x7d' :: after)
                (place env (blockReader env fuel) fuel) :=
              .place hGap (fun marker? => calm.block env fuel marker? "")
                (.block env hGap fuel (.inl rfl) "") fuel
            rcases hSteady.follows hBuilt hAbreast piece middle hPlace with
              hLost | ⟨middle', hPlace', hMiddle⟩
            · have hShorter := block_shortens hInner
              rw [hAfter] at hShorter
              rw [List.length_cons] at hLost
              omega
            · rcases hAbreast.head hGap hRest with ⟨hEq, -⟩ | ⟨rest', hRest'⟩
              · exact absurd hEq.symm hBrace
              · have hEnds' : ¬ endsAt (some ['\x7d']) s'.rest := by
                  rw [hRest', endsAt_single]
                  exact hBrace
                have hBuilt' := ((hSteady.keeps.ok hPlace).2 hBuilt).1
                obtain ⟨reader, hBlock, hReader⟩ := ih hBuilt' hMiddle hInner
                refine ⟨reader, ?_, hReader⟩
                have hMore := (Below.place (blockReader_below env (Nat.le_add_right fuel blanks.length))
                  env (Nat.le_add_right fuel blanks.length)).ok hPlace'
                rw [Nat.add_right_comm, outcome_block_place env _ output (by simp [hRest']) hEnds',
                  ← hBlock]
                exact outcome_bind_of_ok hMore

/-- A scope with blanks in front of its brace is read with the same value, and leaves the
engine behind these blanks. -/
theorem parsedScope_spaced (env : Env) (hBlanks : Text.Spacing blanks) {value : String}
    (hBuilt : s.session.registry.Built)
    (hAbreast : Abreast .same ('\x7d' :: after) (blanks ++ '\x7d' :: after) s s')
    (hOutcome : outcome (parsedScope env (blockReader env fuel)) s = (.ok value, t))
    (hAfter : t.rest = after) :
    ∃ reader, outcome (parsedScope env (blockReader env (fuel + blanks.length))) s' =
      (.ok value, t.moved reader (t.engine.behindBlanks blanks)) ∧ reader.rest = after := by
  have hGap : Gap ('\x7d' :: after) (blanks ++ '\x7d' :: after) := .blanks after hBlanks
  obtain ⟨hDepth, text, middle, hRest, hBlock, rfl⟩ := parsedScope_ok hOutcome
  have hShorter : middle.rest.length < (s.entered 1).rest.length := block_shortens hBlock
  rcases hAbreast.head hGap hRest with ⟨hBrace, -⟩ | ⟨text', hRest'⟩
  · exact absurd hBrace (by decide)
  · rcases hAbreast.advance hGap 1 with hLost | hAhead
    · have hEnd : middle.rest.length = after.length := congrArg List.length hAfter
      have hEntered : (s.entered 1).rest.length = (s.advance 1).rest.length := rfl
      rw [List.length_cons] at hLost
      omega
    · have hEntered : Abreast .same ('\x7d' :: after) (blanks ++ '\x7d' :: after) (s.entered 1)
          (s'.entered 1) := by
        unfold ExpandState.entered
        rw [hAbreast.depth]
        exact hAhead.withDepth _
      have hBuilt' : (s.entered 1).session.registry.Built := hBuilt
      obtain ⟨reader, hBlock', hReader⟩ :=
        block_spaced (t := middle) env hBlanks hBuilt' hEntered hBlock hAfter
      refine ⟨reader, ?_, hReader⟩
      rw [outcome_parsedScope hRest' (by rw [hAbreast.depth]; exact hDepth)]
      unfold blockReader
      rw [hBlock']
      rfl

/-- Reading scopes takes text, if there is one at least. -/
theorem arguments_shorten {flags : List Bool} {values : List String}
    (h : outcome ((flags ++ [false]).mapM (argument env (blockReader env fuel))) s =
      (.ok values, t)) : t.rest.length < s.rest.length := by
  induction flags generalizing s values with
  | nil =>
      rw [List.nil_append, List.mapM_cons] at h
      obtain ⟨value, middle, hScope, hPure⟩ := outcome_bind_ok h
      cases hPure
      obtain ⟨-, text, middle, hRest, hBlock, rfl⟩ := parsedScope_ok hScope
      have hShorter := block_shortens hBlock
      have hEntered : (s.entered 1).rest.length ≤ s.rest.length := by
        change (s.advance 1).rest.length ≤ _
        rw [s.rest_advance, List.length_drop]
        exact Nat.sub_le _ _
      exact Nat.lt_of_lt_of_le hShorter hEntered
  | cons flag flags ih =>
      rw [List.cons_append, List.mapM_cons] at h
      obtain ⟨value, middle, hFirst, hRest⟩ := outcome_bind_ok h
      obtain ⟨others, last, hOthers, hPure⟩ := outcome_bind_ok hRest
      cases hPure
      have hLe := ((onward.argument env (onward.block env fuel · "") flag).ok hFirst).rest.length_le
      exact Nat.lt_of_lt_of_le (ih hOthers) hLe

/-- The scopes of an invocation up to one with blanks before its closing brace. -/
theorem arguments_spaced (env : Env) (hBlanks : Text.Spacing blanks) {flags : List Bool}
    {values : List String} (hBuilt : s.session.registry.Built)
    (hAbreast : Abreast .same ('\x7d' :: after) (blanks ++ '\x7d' :: after) s s')
    (hOutcome : outcome ((flags ++ [false]).mapM (argument env (blockReader env fuel))) s =
      (.ok values, t)) (hAfter : t.rest = after) :
    ∃ reader, outcome ((flags ++ [false]).mapM
        (argument env (blockReader env (fuel + blanks.length)))) s' =
      (.ok values, t.moved reader (t.engine.behindBlanks blanks)) ∧ reader.rest = after := by
  have hGap : Gap ('\x7d' :: after) (blanks ++ '\x7d' :: after) := .blanks after hBlanks
  induction flags generalizing s s' values with
  | nil =>
      rw [List.nil_append, List.mapM_cons] at hOutcome ⊢
      obtain ⟨value, middle, hScope, hPure⟩ := outcome_bind_ok hOutcome
      cases hPure
      obtain ⟨reader, hScope', hReader⟩ := parsedScope_spaced env hBlanks hBuilt hAbreast hScope hAfter
      refine ⟨reader, ?_, hReader⟩
      rw [outcome_bind_of_ok (show outcome (argument env _ false) s' = _ from hScope')]
      rfl
  | cons flag flags ih =>
      rw [List.cons_append, List.mapM_cons] at hOutcome ⊢
      obtain ⟨value, middle, hFirst, hRest⟩ := outcome_bind_ok hOutcome
      obtain ⟨others, last, hOthers, hPure⟩ := outcome_bind_ok hRest
      cases hPure
      have hSteady : Steady .same ('\x7d' :: after) (blanks ++ '\x7d' :: after)
          (argument env (blockReader env fuel) flag) :=
        .argument (.block env hGap fuel (.inl rfl) "") hGap flag
      rcases hSteady.follows hBuilt hAbreast value middle hFirst with
        hLost | ⟨middle', hFirst', hMiddle⟩
      · have hShorter := arguments_shorten hOthers
        rw [hAfter] at hShorter
        rw [List.length_cons] at hLost
        omega
      · obtain ⟨reader, hOthers', hReader⟩ :=
          ih ((hSteady.keeps.ok hFirst).2 hBuilt).1 hMiddle hOthers
        have hMore := (Below.argument
          (blockReader_below env (Nat.le_add_right fuel blanks.length)) env flag).ok hFirst'
        refine ⟨reader, ?_, hReader⟩
        rw [outcome_bind_of_ok hMore, outcome_bind_of_ok hOthers']
        rfl

/-! An invocation, from the scope with the blanks to its end. -/

/-- What an invocation reads behind some of its scopes. -/
def laterArguments (env : Env) (block : BlockReader) (user : UserMacro) (indent : Nat)
    (values : List String) (flags : List Bool) : Expand (CallArgs × Bool) := do
  let others ← flags.mapM (argument env block)
  match user.kind with
  | .command => return ({ scopes := values ++ others, body := none }, false)
  | .environment => do
    let body ← environmentBody user.name indent
    return ({ scopes := values ++ others, body := some body }, false)

theorem outcome_mapM_append {α β : Type} {action : α → Expand β} {items others : List α}
    {values : List β} {middle : ExpandState}
    (h : outcome (items.mapM action) s = (.ok values, middle)) :
    outcome ((items ++ others).mapM action) s =
      match outcome (others.mapM action) middle with
      | (.ok more, last) => (.ok (values ++ more), last)
      | (.error failure, last) => (.error failure, last) := by
  rw [List.mapM_append, outcome_bind_of_ok h, outcome_bind]
  generalize outcome (others.mapM action) middle = result
  obtain ⟨_ | more, last⟩ := result <;> rfl

/-- An invocation reads the first of its scopes, and then those behind them. -/
theorem outcome_callArgs {user : UserMacro} {block : BlockReader} {before later : List Bool}
    {values : List String} {middle : ExpandState} (indent : Nat)
    (hScopes : user.scopes = before ++ false :: later)
    (hRead : outcome ((before ++ [false]).mapM (argument env block)) s = (.ok values, middle)) :
    outcome (callArgs env block user indent) s =
      outcome (laterArguments env block user indent values later) middle := by
  have hSplit : user.scopes = (before ++ [false]) ++ later := by rw [hScopes]; simp
  have hSome : user.signature.verbatim.isEmpty = false := by
    rw [List.isEmpty_eq_false_iff]
    intro hNil
    unfold UserMacro.scopes at hScopes
    rw [hNil] at hScopes
    cases hKind : user.kind <;> rw [hKind] at hScopes <;> simp at hScopes
  unfold callArgs
  rw [hSome, if_neg (by decide), outcome_bind]
  unfold arguments laterArguments UserMacro.scopes at *
  cases hKind : user.kind with
  | command =>
      rw [hKind] at hSplit
      dsimp only at hSplit ⊢
      rw [hSplit, outcome_bind, outcome_bind, outcome_mapM_append hRead]
      generalize outcome (later.mapM (argument env block)) middle = result
      obtain ⟨_ | more, last⟩ := result <;> rfl
  | environment =>
      rw [hKind] at hSplit
      dsimp only at hSplit ⊢
      rw [hSplit, outcome_bind, outcome_bind, outcome_mapM_append hRead]
      generalize outcome (later.mapM (argument env block)) middle = result
      obtain ⟨_ | more, last⟩ := result
      · rfl
      · dsimp only
        rw [outcome_bind, outcome_bind]
        generalize outcome (environmentBody user.name indent) last = result
        obtain ⟨_ | body, last⟩ := result <;> rfl

/-- Behind the gap the later scopes are read alike. -/
theorem Steady.laterArguments {tie : Tie} {block : BlockReader} {later : List Bool}
    (hLater : ∀ flag ∈ later, Steady tie [] [] (Expand.argument env block flag)) (user : UserMacro)
    (indent : Nat) (values : List String) :
    Steady tie [] [] (Expand.laterArguments env block user indent values later) := by
  refine (Steady.mapM hLater).bind fun others => ?_
  split
  · exact .pure _
  · exact (Steady.environmentBody .none _ _).bind fun _ => .pure _

/-- The later scopes are read with more fuel as with less. -/
theorem Below.laterArguments {block block' : BlockReader} (hBlock : BlocksBelow block block')
    (env : Env) (user : UserMacro) (indent : Nat) (values : List String) (later : List Bool) :
    Below (Expand.laterArguments env block user indent values later)
      (Expand.laterArguments env block' user indent values later) :=
  (Below.mapM_argument hBlock env later).bind fun _ => .refl _

end Expand

end MacroMarkup
