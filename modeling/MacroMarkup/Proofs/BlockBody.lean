import MacroMarkup.Proofs.Expand.Steps
import MacroMarkup.Proofs.Text.Indent

/-! Bodies of definitions that are written as a block. The code of a block is read back as
it was before it was indented, whatever its rows are. -/
namespace MacroMarkup.Expand

variable {s s' : ExpandState}

/-- A block is captured up to its end, and must then be indented as a whole. -/
theorem outcome_blockBody (indent : Nat) (s : ExpandState) :
    outcome (blockBody indent) s =
      match Text.before? (blockEnd indent Spelling.scopeEnd).toList s.rest with
      | some captured =>
        let behind := s.advance (captured.length + (blockEnd indent Spelling.scopeEnd).length)
        match Text.blockIndent (Text.dropLineBreak captured) with
        | none => (.ok "", behind)
        | some least =>
          if least ≤ indent then
            (.error (.error (behind.document.error (.outdented indent))), behind)
          else (.ok (String.ofList (Text.stripIndent (Text.dropLineBreak captured) least)), behind)
      | none =>
        (.error (.error ((s.advance s.rest.length).document.error
          (.expectedEndMarker Spelling.scopeEnd))), s.advance s.rest.length) := by
  unfold blockBody
  rw [outcome_bind, outcome_readPast]
  generalize Text.before? _ s.rest = found
  cases found with
  | none => rfl
  | some captured =>
      dsimp only
      rw [String.toList_ofList]
      generalize Text.blockIndent (Text.dropLineBreak captured) = least
      cases least with
      | none => rfl
      | some least =>
          dsimp only
          split <;> rfl

/-- A scope that goes on with a line break holds a block. -/
theorem outcome_definitionBody_block (indent : Nat) {inner : List Char}
    (hRest : s.rest = '\x7b' :: '\n' :: inner) :
    outcome (definitionBody indent) s = outcome (blockBody indent) (s.advance 1) := by
  unfold definitionBody
  rw [outcome_bind_of_ok (outcome_expectScopeBegin hRest), outcome_bind_of_ok (outcome_rest _),
    s.rest_advance_one hRest]
  rfl

/-- Code that is written deeper than the directive has no row that closes the block. -/
theorem not_closing_of_indented {indent extra : Nat} (hExtra : 0 < extra) {code block : List Char}
    (h : Text.Indented (indent + extra) code block) :
    ¬ '\n' :: (List.replicate indent ' ' ++ ['\x7d']) <:+: '\n' :: block := by
  rw [Text.row_infix_iff (by simp)]
  rintro ⟨row, hMem, hCloses⟩
  obtain rfl | hSpaces := h.written_row hMem
  · simp at hCloses
  · -- The brace would stand where one of the spaces does.
    have hLonger : List.replicate (indent + 1) ' ' <+: row := by
      refine List.IsPrefix.trans ?_ hSpaces
      exact ⟨List.replicate (extra - 1) ' ', by rw [List.replicate_append_replicate]; congr 1; omega⟩
    rw [List.replicate_succ'] at hLonger
    have hSame := List.prefix_of_prefix_length_le hCloses hLonger (by simp)
    simp [List.prefix_append_right_inj] at hSame

/-- A block that code was written as, deeper than the directive, is read back as the code. -/
theorem outcome_blockBody_indented {indent extra : Nat} (hExtra : 0 < extra)
    {code block tail : List Char}
    (hFlush : ∃ row ∈ Text.rows code, Text.isAllBlank row = false ∧ Text.indentOf row = 0)
    (h : Text.Indented (indent + extra) code block)
    (hRest : s.rest = '\n' :: block ++ (blockEnd indent Spelling.scopeEnd).toList ++ tail) :
    ∃ count, outcome (blockBody indent) s = (.ok (String.ofList code), s.advance count) ∧
      (s.advance count).rest = tail := by
  have hFound : Text.before? (blockEnd indent Spelling.scopeEnd).toList s.rest =
      some ('\n' :: block) := by
    have hShape : s.rest = '\n' :: block ++
        '\n' :: (List.replicate indent ' ' ++ Spelling.scopeEnd.toList ++ tail) := by
      rw [hRest, toList_blockEnd, List.append_assoc]
      rfl
    rw [hShape, toList_blockEnd]
    exact (Text.before?_row (by simp [Spelling.scopeEnd]) tail).mpr (not_closing_of_indented hExtra h)
  have hLeast : Text.blockIndent block = some (indent + extra) := by
    have hCode : Text.blockIndent code = some 0 :=
      Text.blockIndent_eq_some_iff.mpr ⟨hFlush, fun _ _ _ => Nat.zero_le _⟩
    rw [h.blockIndent_eq, hCode, Option.map_some, Nat.zero_add]
  have hDeeper : ¬ indent + extra ≤ indent := by omega
  refine ⟨_, ?_, ExpandState.rest_behind hRest⟩
  rw [outcome_blockBody, hFound]
  dsimp only
  rw [Text.dropLineBreak_break, hLeast]
  dsimp only
  rw [if_neg hDeeper, h.stripIndent_eq]

/-- Code that a block is read as stands in a block that is deeper than the directive in
every row that is not blank. -/
theorem blockBody_ok {indent : Nat} {inner : List Char} (hInner : s.rest = '\n' :: inner)
    {code : String} (h : outcome (blockBody indent) s = (.ok code, s')) (hCode : code ≠ "") :
    ∃ block, s.rest = '\n' :: block ++ (blockEnd indent Spelling.scopeEnd).toList ++ s'.rest ∧
      (∀ row ∈ Text.rows block, Text.isAllBlank row = false → indent < Text.indentOf row) ∧
      Text.blockIndent code.toList = some 0 := by
  rw [outcome_blockBody] at h
  generalize hFound : Text.before? _ s.rest = found at h
  cases found with
  | none => cases h
  | some captured =>
      obtain ⟨tail, hTail⟩ := Text.before?_some hFound
      have hRest := ExpandState.rest_behind hTail.symm
      cases captured with
      | nil =>
          cases h
          exact absurd rfl hCode
      | cons c block =>
          obtain rfl : '\n' = c := by
            rw [hInner] at hTail
            exact (List.cons.inj hTail).1.symm
          dsimp only at h
          rw [Text.dropLineBreak_break] at h
          generalize hLeast : Text.blockIndent block = least at h
          cases least with
          | none =>
              cases h
              exact absurd rfl hCode
          | some least =>
              dsimp only at h
              split at h
              · cases h
              · rename_i hDeeper
                cases h
                refine ⟨block, ?_, fun row hMem hVisible => ?_, ?_⟩
                · rw [hRest, hTail]
                · have hRow := (Text.blockIndent_eq_some_iff.mp hLeast).2 row hMem hVisible
                  omega
                · rw [String.toList_ofList, Text.blockIndent_stripIndent, hLeast, Option.map_some,
                    Nat.sub_self]

/-- A block body is read back exactly. If code has a row that is not blank, and the least
indented of these is not indented, then the code is read from a block in which its rows are
written deeper than the directive, and reading goes on behind the closing brace; no row
closes the block early. Conversely, code that is read from a block and is not empty is such
code, and all rows of the block that are not blank are written deeper than the directive. -/
theorem block_read_back (indent : Nat) (s : ExpandState) :
    (∀ (extra : Nat) (code block tail : List Char), 0 < extra →
      (∃ row ∈ Text.rows code, Text.isAllBlank row = false ∧ Text.indentOf row = 0) →
      Text.Indented (indent + extra) code block →
      s.rest = '\x7b' :: '\n' :: (block ++ '\n' :: (List.replicate indent ' ' ++ '\x7d' :: tail)) →
      ∃ count, outcome (definitionBody indent) s = (.ok (String.ofList code), s.advance count) ∧
        (s.advance count).rest = tail) ∧
    ∀ (code : String) (s' : ExpandState), ['\x7b', '\n'] <+: s.rest →
      outcome (definitionBody indent) s = (.ok code, s') → code ≠ "" →
      ∃ block, s.rest = '\x7b' :: '\n' ::
          (block ++ '\n' :: (List.replicate indent ' ' ++ '\x7d' :: s'.rest)) ∧
        (∀ row ∈ Text.rows block, Text.isAllBlank row = false → indent < Text.indentOf row) ∧
        Text.blockIndent code.toList = some 0 := by
  have hMarker : (blockEnd indent Spelling.scopeEnd).toList =
      '\n' :: (List.replicate indent ' ' ++ ['\x7d']) := toList_blockEnd indent Spelling.scopeEnd
  constructor
  · intro extra code block tail hExtra hFlush hBlock hRest
    have hInner : (s.advance 1).rest =
        '\n' :: block ++ (blockEnd indent Spelling.scopeEnd).toList ++ tail := by
      rw [s.rest_advance_one hRest, hMarker]
      simp
    obtain ⟨count, hRead, hTail⟩ := outcome_blockBody_indented hExtra hFlush hBlock hInner
    rw [s.advance_advance] at hRead hTail
    exact ⟨1 + count, by rw [outcome_definitionBody_block indent hRest, hRead], hTail⟩
  · rintro code s' ⟨inner, hRest⟩ h hCode
    rw [outcome_definitionBody_block indent hRest.symm] at h
    have hInner := s.rest_advance_one hRest.symm
    obtain ⟨block, hBlock, hDeeper, hFlush⟩ := blockBody_ok hInner h hCode
    refine ⟨block, ?_, hDeeper, hFlush⟩
    rw [← hRest, List.cons_append]
    refine congrArg _ (hInner.symm.trans ?_)
    rw [hBlock, hMarker]
    simp

def braces : ExpandState :=
  ⟨Session.ofRegistry Registry.empty, DocumentState.start "<string>" ""
    "\x7b\n    \x7d\n      \x7b #x\n\n     \n    \x7d\n  \x7d\nafter" .normalize⟩

theorem block_read_back_braces :
    ∃ s', outcome (definitionBody 2) braces =
        (.ok "\x7d\n  \x7b #x\n\n \n\x7d", s') ∧
      s'.rest = "\nafter".toList ∧
      Text.blockIndent "\x7d\n  \x7b #x\n\n \n\x7d".toList = some 0 := by
  have hIndented : Text.Indented (2 + 2) "\x7d\n  \x7b #x\n\n \n\x7d".toList
      "    \x7d\n      \x7b #x\n\n     \n    \x7d".toList := by
    unfold Text.Indented
    decide +kernel
  obtain ⟨count, hRead, hRest⟩ := (block_read_back 2 braces).1 2 _ _ "\nafter".toList (by decide)
    (by decide) hIndented (by decide +kernel)
  obtain ⟨block, -, -, hFlush⟩ := (block_read_back 2 braces).2 _ _ (by decide +kernel) hRead (by decide)
  exact ⟨_, hRead, hRest, hFlush⟩

end MacroMarkup.Expand
