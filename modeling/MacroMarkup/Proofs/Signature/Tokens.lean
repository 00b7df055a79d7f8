import MacroMarkup.Proofs.Signature.Params

/-! The tokens of a signature. A text that lists tokens, with semicolons and blanks between
them, is read as these tokens, and no other text is read. -/
namespace MacroMarkup

/-- Each language has its own tag. -/
theorem Language.ofTag?_eq_some_iff {tag : String} {language : Language} :
    Language.ofTag? tag = some language ↔ tag = language.tag := by
  constructor
  · intro h
    unfold Language.ofTag? at h
    split at h <;> cases h <;> rfl
  · rintro rfl
    cases language <;> rfl

/-- Each mode has its own word. -/
theorem Mode.ofToken?_eq_some_iff {word : String} {mode : Mode} :
    Mode.ofToken? word = some mode ↔ word = mode.token := by
  constructor
  · intro h
    unfold Mode.ofToken? at h
    split at h <;> cases h <;> rfl
  · rintro rfl
    cases mode <;> rfl

/-- Each policy has its own word. -/
theorem BreakPolicy.ofToken?_eq_some_iff {word : String} {policy : BreakPolicy} :
    BreakPolicy.ofToken? word = some policy ↔ word = policy.token := by
  constructor
  · intro h
    unfold BreakPolicy.ofToken? at h
    split at h <;> cases h <;> rfl
  · rintro rfl
    cases policy <;> rfl

namespace Declaration

/-- The depth of parentheses behind a character. -/
def nest (depth : Nat) (c : Char) : Nat :=
  if c = '(' then depth + 1 else if c = ')' then depth - 1 else depth

/-- A semicolon ends a token wherever it stands, a blank outside of parentheses. -/
def Separates (depth : Nat) (c : Char) : Prop :=
  c = ';' ∨ (Text.isBlank c = true ∧ depth = 0)

instance (depth : Nat) (c : Char) : Decidable (Separates depth c) :=
  inferInstanceAs (Decidable (_ ∨ _))

/-- Text that nothing separates when it is read at a depth of parentheses. -/
def Whole : Nat → List Char → Prop
  | _, [] => True
  | depth, c :: rest => ¬ Separates depth c ∧ Whole (nest depth c) rest

/-- A text is whole if its parts are, each at the depth that it starts with. -/
theorem whole_append {depth : Nat} {text text' : List Char} :
    Whole depth (text ++ text') ↔ Whole depth text ∧ Whole (text.foldl nest depth) text' := by
  induction text generalizing depth with
  | nil => exact (and_iff_right trivial).symm
  | cons c text ih =>
      rw [List.cons_append, Whole, Whole, ih, and_assoc]
      rfl

/-- Without parentheses the depth stays what it is. -/
theorem whole_of_flat {depth : Nat} {text : List Char}
    (hFlat : ∀ c ∈ text, ¬ Separates depth c ∧ c ≠ '(' ∧ c ≠ ')') :
    Whole depth text ∧ text.foldl nest depth = depth := by
  induction text with
  | nil => exact ⟨trivial, rfl⟩
  | cons c text ih =>
      obtain ⟨⟨hNot, hOpen, hClose⟩, hMore⟩ := List.forall_mem_cons.mp hFlat
      have hDepth : nest depth c = depth := by rw [nest, if_neg hOpen, if_neg hClose]
      obtain ⟨hWhole, hAfter⟩ := ih hMore
      refine ⟨⟨hNot, ?_⟩, ?_⟩
      · rwa [hDepth]
      · rwa [List.foldl_cons, hDepth]

/-- Whole text without parentheses has no blank. -/
theorem not_blank_of_whole {text : List Char} (hWhole : Whole 0 text) (hOpen : '(' ∉ text) :
    ∀ c ∈ text, Text.isBlank c = false := by
  induction text with
  | nil => exact fun c hMem => nomatch hMem
  | cons c text ih =>
      rw [List.mem_cons, not_or] at hOpen
      obtain ⟨hNot, hMore⟩ := hWhole
      have hDepth : nest 0 c = 0 := by
        rw [nest, if_neg (Ne.symm hOpen.1)]
        exact ite_self 0
      rw [hDepth] at hMore
      refine List.forall_mem_cons.mpr ⟨?_, ih hMore hOpen.2⟩
      cases hBlank : Text.isBlank c with
      | false => rfl
      | true => exact absurd (.inr ⟨hBlank, rfl⟩) hNot

/-- Whole text that is blank is empty. -/
theorem nil_of_whole_blank {text : List Char} (hWhole : Whole 0 text)
    (hBlank : Text.isAllBlank text = true) : text = [] := by
  cases text with
  | nil => rfl
  | cons c text =>
      exact absurd (.inr ⟨List.all_eq_true.mp hBlank c List.mem_cons_self, rfl⟩) hWhole.1

/-- Text is whole, or there is a first character that separates. -/
theorem whole_or_separated (depth : Nat) (text : List Char) :
    Whole depth text ∨ ∃ first c rest, text = first ++ c :: rest ∧ Whole depth first ∧
      Separates (first.foldl nest depth) c := by
  induction text generalizing depth with
  | nil => exact .inl trivial
  | cons c text ih =>
      by_cases hHere : Separates depth c
      · exact .inr ⟨[], c, text, rfl, trivial, hHere⟩
      · rcases ih (nest depth c) with hWhole | ⟨first, d, rest, rfl, hFirst, hNext⟩
        · exact .inl ⟨hHere, hWhole⟩
        · exact .inr ⟨c :: first, d, rest, rfl, ⟨hHere, hFirst⟩, hNext⟩

theorem cutTokens_cons (depth : Nat) (current : List Char) (c : Char) (rest : List Char) :
    cutTokens depth current (c :: rest) =
      if Separates depth c then current.reverse :: cutTokens depth [] rest
      else cutTokens (nest depth c) (c :: current) rest := by
  rw [cutTokens]
  by_cases hOpen : c = '('
  · subst hOpen
    have hNot : ¬ Separates depth '(' := by simp [Separates, Text.isBlank]
    rw [if_pos rfl, if_neg hNot]
    rfl
  · by_cases hClose : c = ')'
    · subst hClose
      have hNot : ¬ Separates depth ')' := by simp [Separates, Text.isBlank]
      rw [if_neg hOpen, if_pos rfl, if_neg hNot]
      rfl
    · rw [if_neg hOpen, if_neg hClose, nest, if_neg hOpen, if_neg hClose]
      rfl

/-- Whole text goes into the current token. -/
theorem cutTokens_append {depth : Nat} {text : List Char} (hWhole : Whole depth text)
    (current rest : List Char) : cutTokens depth current (text ++ rest) =
      cutTokens (text.foldl nest depth) (text.reverse ++ current) rest := by
  induction text generalizing depth current with
  | nil => rfl
  | cons c text ih =>
      rw [List.cons_append, cutTokens_cons, if_neg hWhole.1, ih hWhole.2]
      simp

/-- What whole text adds to the tokens of a signature: itself, unless it is empty. -/
theorem tokens_whole {text : List Char} (hWhole : Whole 0 text) :
    tokens text = [Text.trim text].filter (!·.isEmpty) := by
  have hCut := cutTokens_append hWhole [] []
  rw [List.append_nil, List.append_nil] at hCut
  unfold tokens
  rw [hCut]
  simp [cutTokens]

/-- A separator behind whole text ends its token. -/
theorem tokens_separated {text : List Char} (hWhole : Whole 0 text) {c : Char}
    (hHere : Separates (text.foldl nest 0) c) (rest : List Char) :
    tokens (text ++ c :: rest) = [Text.trim text].filter (!·.isEmpty) ++
      ((cutTokens (text.foldl nest 0) [] rest).map Text.trim).filter (!·.isEmpty) := by
  unfold tokens
  rw [cutTokens_append hWhole, cutTokens_cons, if_pos hHere, List.map_cons, ← List.filter_append]
  simp

/-- What one token of a signature settles. -/
inductive Token where
  | language (language : Language) (params : List Param)
  | mode (mode : Mode)
  | policy (policy : BreakPolicy)
  deriving DecidableEq

namespace Token

def params : Token → List Param
  | language _ params => params
  | _ => []

/-- What is reported where a token of the same kind came before. -/
def conflict : Token → ErrorCause
  | language .. => .conflictLanguage
  | mode _ => .conflictMode
  | policy _ => .conflictBreak

def Proper (token : Token) : Prop :=
  ∀ param ∈ token.params, param.Proper

/-- A language is written with its parameters in parentheses behind it, a mode and a break
policy as their keywords. -/
inductive Written : Token → List Char → Prop where
  | language {language : Language} {params : List Param} {inner : List Char}
      (hInner : Param.AllWritten params inner) :
      Written (.language language params) (language.tag.toList ++ '(' :: (inner ++ [')']))
  | mode (mode : Mode) : Written (.mode mode) mode.token.toList
  | policy (policy : BreakPolicy) : Written (.policy policy) policy.token.toList

end Token

/-- Behind the tag of a language its parameters must be closed. -/
theorem parseLanguage?_behind_tag {language : Language} (rest : List Char) :
    parseLanguage? (language.tag.toList ++ '(' :: rest) =
      if rest.getLast? = some ')' then
        if Text.isAllBlank rest.dropLast then .ok (some (language, []))
        else do
          let params ← (Text.splitAt ',' rest.dropLast).mapM parseParam
          return some (language, params)
      else .error (.unknownParameter (String.ofList (language.tag.toList ++ '(' :: rest))) := by
  have hSplit : Text.splitOnce? '(' (language.tag.toList ++ '(' :: rest) =
      some (language.tag.toList, rest) := by
    rw [Text.splitOnce?_eq_some_iff]
    exact ⟨rfl, by cases language <;> decide⟩
  have hTag : Language.ofTag? (String.ofList (Text.trim language.tag.toList)) = some language := by
    cases language <;> decide
  unfold parseLanguage?
  rw [hSplit]
  dsimp only
  rw [hTag]

/-- A whole token is read as a language exactly if it is written as one. -/
theorem parseLanguage?_eq_some_iff {text : List Char} (hWhole : Whole 0 text)
    {language : Language} {params : List Param} :
    parseLanguage? text = .ok (some (language, params)) ↔
      (Token.language language params).Proper ∧ (Token.language language params).Written text := by
  constructor
  · intro h
    have hText := h
    unfold parseLanguage? at h
    split at h
    · cases h
    · rename_i tag rest hSplit
      obtain ⟨rfl, hOpen⟩ := Text.splitOnce?_eq_some_iff.mp hSplit
      split at h
      · cases h
      · rename_i found hTag
        -- A blank in front of the parenthesis would have ended the token.
        have hTrim : Text.trim tag = tag :=
          Text.trim_of_visible (not_blank_of_whole (whole_append.mp hWhole).1 hOpen)
        rw [hTrim] at hTag
        obtain rfl : tag = found.tag.toList := by
          rw [← Language.ofTag?_eq_some_iff.mp hTag, String.toList_ofList]
        rw [parseLanguage?_behind_tag] at hText
        split at hText
        · rename_i hClosed
          obtain ⟨rfl, hProper, hInner⟩ := parseParams_eq_ok_iff.mp hText
          refine ⟨hProper, ?_⟩
          rw [← List.dropLast_append_getLast? _ (Option.mem_def.mpr hClosed)]
          exact .language hInner
        · cases hText
  · rintro ⟨hProper, hWritten⟩
    cases hWritten with
    | @language _ _ inner hInner =>
        rw [parseLanguage?_behind_tag, List.getLast?_concat, List.dropLast_concat, if_pos rfl]
        exact parseParams_eq_ok_iff.mpr ⟨rfl, hProper, hInner⟩

/-- Takes a token into account, whatever way it was written. -/
def Settled.take (settled : Settled) : Token → Except ErrorCause Settled
  | .language language params =>
    if settled.language.isSome then .error .conflictLanguage
    else .ok { settled with language := some (language, params) }
  | .mode mode =>
    if settled.mode.isSome then .error .conflictMode else .ok { settled with mode := some mode }
  | .policy policy =>
    if settled.policy.isSome then .error .conflictBreak
    else .ok { settled with policy := some policy }

namespace Token.Written

/-- A written token is whole, and closes its parentheses. -/
theorem whole {token : Token} {text : List Char} (hWritten : token.Written text)
    (hProper : token.Proper) : Whole 0 text ∧ text.foldl nest 0 = 0 := by
  cases hWritten with
  | @language language params inner hInner =>
      have hTag : Whole 0 language.tag.toList ∧ language.tag.toList.foldl nest 0 = 0 :=
        whole_of_flat (by cases language <;> decide)
      have hFlat : Whole 1 inner ∧ inner.foldl nest 1 = 1 := by
        refine whole_of_flat fun c hMem => ⟨?_, ?_, ?_⟩
        · rintro (rfl | ⟨-, hNo⟩)
          · exact hInner.not_mem hProper (by decide) rfl (by decide) (by decide) hMem
          · cases hNo
        · rintro rfl
          exact hInner.not_mem hProper (by decide) rfl (by decide) (by decide) hMem
        · rintro rfl
          exact hInner.not_mem hProper (by decide) rfl (by decide) (by decide) hMem
      have hClose : Whole 1 [')'] := ⟨by decide, trivial⟩
      constructor
      · refine whole_append.mpr ⟨hTag.1, ?_⟩
        rw [hTag.2]
        refine ⟨by decide, whole_append.mpr ⟨hFlat.1, ?_⟩⟩
        rwa [show inner.foldl nest (nest 0 '(') = 1 from hFlat.2]
      · rw [List.foldl_append, hTag.2, List.foldl_cons, List.foldl_append,
          show inner.foldl nest (nest 0 '(') = 1 from hFlat.2]
        rfl
  | mode mode => exact whole_of_flat (by cases mode <;> decide)
  | policy policy => exact whole_of_flat (by cases policy <;> decide)

/-- It has no blanks at its ends. -/
theorem trim {token : Token} {text : List Char} (hWritten : token.Written text) :
    Text.trim text = text := by
  cases hWritten with
  | @language language params inner hInner =>
      rw [Text.trim_eq_self_iff]
      constructor
      · intro c hHead
        cases language <;> cases hHead <;> rfl
      · intro c hLast
        rw [← List.cons_append, ← List.append_assoc, List.getLast?_concat] at hLast
        cases hLast
        rfl
  | mode mode => cases mode <;> decide
  | policy policy => cases policy <;> decide

theorem ne_nil {token : Token} {text : List Char} (hWritten : token.Written text) : text ≠ [] := by
  cases hWritten with
  | language => simp
  | mode mode => cases mode <;> decide
  | policy policy => cases policy <;> decide

/-- It has no colon. -/
theorem colon {token : Token} {text : List Char} (hWritten : token.Written text)
    (hProper : token.Proper) : ':' ∉ text := by
  cases hWritten with
  | @language language params inner hInner =>
      have hTag : ':' ∉ language.tag.toList := by cases language <;> decide
      have hIn := hInner.not_mem hProper (c := ':') (by decide) rfl (by decide) (by decide)
      simp [hTag, hIn]
  | mode mode => cases mode <;> decide
  | policy policy => cases policy <;> decide

/-- What is written as a token is taken for that token. -/
theorem settle {token : Token} {text : List Char} (hWritten : token.Written text)
    (hProper : token.Proper) (settled : Settled) :
    Declaration.settle settled text = settled.take token := by
  unfold Declaration.settle
  cases hWritten with
  | @language language params inner hInner =>
      have hRead := (parseLanguage?_eq_some_iff ((Written.language hInner).whole hProper).1).mpr
        ⟨hProper, .language hInner⟩
      rw [hRead]
      rfl
  | mode mode => cases mode <;> rfl
  | policy policy => cases policy <;> rfl

end Token.Written

/-- Only what is written as a token is taken for one. -/
theorem written_of_settle {settled settled' : Settled} {text : List Char} (hWhole : Whole 0 text)
    (h : settle settled text = .ok settled') : ∃ token : Token, token.Proper ∧ token.Written text := by
  unfold settle at h
  cases hRead : parseLanguage? text with
  | error cause =>
      rw [hRead] at h
      cases h
  | ok read =>
      rw [hRead] at h
      cases read with
      | some language => exact ⟨_, (parseLanguage?_eq_some_iff hWhole).mp hRead⟩
      | none =>
          simp only [bind, Except.bind] at h
          split at h
          · rename_i mode hMode
            have hText : text = mode.token.toList := by
              rw [← Mode.ofToken?_eq_some_iff.mp hMode, String.toList_ofList]
            rw [hText]
            exact ⟨.mode mode, List.forall_mem_nil _, .mode mode⟩
          · rename_i policy hMode hPolicy
            have hText : text = policy.token.toList := by
              rw [← BreakPolicy.ofToken?_eq_some_iff.mp hPolicy, String.toList_ofList]
            rw [hText]
            exact ⟨.policy policy, List.forall_mem_nil _, .policy policy⟩
          · cases h

/-- The tokens of a text in their order, with semicolons and blanks around and between them. -/
inductive Listed : List Token → List Char → Prop where
  | nil : Listed [] []
  | gap {tokens : List Token} {text : List Char} {c : Char}
      (hGap : c = ';' ∨ Text.isBlank c = true) (hMore : Listed tokens text) :
      Listed tokens (c :: text)
  | last {token : Token} {text : List Char} (hWritten : token.Written text) : Listed [token] text
  | cons {token : Token} {tokens : List Token} {text rest : List Char} {c : Char}
      (hWritten : token.Written text) (hGap : c = ';' ∨ Text.isBlank c = true)
      (hMore : Listed tokens rest) : Listed (token :: tokens) (text ++ c :: rest)

/-- Outside of parentheses tokens are separated by semicolons and blanks. -/
theorem separates_zero_iff {c : Char} : Separates 0 c ↔ c = ';' ∨ Text.isBlank c = true :=
  or_congr_right (and_iff_left rfl)

/-- No list of proper tokens has a colon. -/
theorem Listed.colon {tokens : List Token} {text : List Char} (hListed : Listed tokens text)
    (hProper : ∀ token ∈ tokens, token.Proper) : ':' ∉ text := by
  have hNoGap : ¬ (':' = ';' ∨ Text.isBlank ':' = true) := by decide
  induction hListed with
  | nil => exact List.not_mem_nil
  | gap hGap hMore ih =>
      rw [List.mem_cons, not_or]
      exact ⟨fun hHere => hNoGap (hHere ▸ hGap), ih hProper⟩
  | last hWritten => exact hWritten.colon (hProper _ List.mem_cons_self)
  | cons hWritten hGap hMore ih =>
      rw [List.forall_mem_cons] at hProper
      rw [List.mem_append, List.mem_cons, not_or, not_or]
      exact ⟨hWritten.colon hProper.1, fun hHere => hNoGap (hHere ▸ hGap), ih hProper.2⟩

/-- A separator in front of a text makes no token. -/
theorem tokens_gap {c : Char} (hGap : c = ';' ∨ Text.isBlank c = true) (rest : List Char) :
    tokens (c :: rest) = tokens rest := by
  have hWhole : Whole 0 [] := trivial
  exact tokens_separated hWhole (separates_zero_iff.mpr hGap) rest

theorem filter_trim {text : List Char} (hSome : Text.trim text ≠ []) :
    [Text.trim text].filter (!·.isEmpty) = [Text.trim text] := by
  rw [List.filter_singleton, List.isEmpty_eq_false_iff.mpr hSome]
  rfl

namespace Token.Written

variable {token : Token} {text : List Char}

theorem trim_ne_nil (hWritten : token.Written text) : Text.trim text ≠ [] := by
  rw [hWritten.trim]
  exact hWritten.ne_nil

theorem tokens (hWritten : token.Written text) (hProper : token.Proper) :
    Declaration.tokens text = [text] := by
  rw [tokens_whole (hWritten.whole hProper).1, filter_trim hWritten.trim_ne_nil, hWritten.trim]

/-- A written token in front of a separator is the first token. -/
theorem tokens_cons (hWritten : token.Written text) (hProper : token.Proper) {c : Char}
    (hGap : c = ';' ∨ Text.isBlank c = true) (rest : List Char) :
    Declaration.tokens (text ++ c :: rest) = text :: Declaration.tokens rest := by
  obtain ⟨hWhole, hDepth⟩ := hWritten.whole hProper
  have hHere : Separates (text.foldl nest 0) c := by
    rw [hDepth]
    exact separates_zero_iff.mpr hGap
  rw [tokens_separated hWhole hHere, filter_trim hWritten.trim_ne_nil, hWritten.trim, hDepth]
  rfl

end Token.Written

/-- Tokens that are listed are taken into account one by one. -/
theorem Listed.read {tokens : List Token} {text : List Char} (hListed : Listed tokens text)
    (hProper : ∀ token ∈ tokens, token.Proper) (settled : Settled) :
    (Declaration.tokens text).foldlM settle settled = tokens.foldlM Settled.take settled := by
  induction hListed generalizing settled with
  | nil => rfl
  | gap hGap hMore ih => rw [tokens_gap hGap, ih hProper]
  | last hWritten =>
      rw [List.forall_mem_singleton] at hProper
      rw [hWritten.tokens hProper, List.foldlM_cons, List.foldlM_cons, hWritten.settle hProper]
      rfl
  | cons hWritten hGap hMore ih =>
      rw [List.forall_mem_cons] at hProper
      rw [hWritten.tokens_cons hProper.1 hGap, List.foldlM_cons, List.foldlM_cons,
        hWritten.settle hProper.1]
      exact bind_congr fun next => ih hProper.2 next

/-- Whole text of which something is taken into account is a token as it is written. -/
theorem written_of_trim {settled settled' : Settled} {text : List Char} (hWhole : Whole 0 text)
    (h : settle settled (Text.trim text) = .ok settled') :
    ∃ token : Token, token.Proper ∧ token.Written text := by
  obtain ⟨before, after, hBefore, hAfter, hText⟩ := Text.trim_surroundings text
  rw [hText, whole_append, whole_append] at hWhole
  obtain rfl := nil_of_whole_blank hWhole.1.1 hBefore
  obtain ⟨token, hProper, hWritten⟩ := written_of_settle hWhole.1.2 h
  have hBehind : Whole 0 after := by
    have hDepth := (hWritten.whole hProper).2
    rw [List.nil_append, hDepth] at hWhole
    exact hWhole.2
  obtain rfl := nil_of_whole_blank hBehind hAfter
  rw [List.nil_append, List.append_nil] at hText
  exact ⟨token, hProper, hText ▸ hWritten⟩

/-- Whole text with nothing but blanks is empty. -/
theorem nil_of_trim {text : List Char} (hWhole : Whole 0 text) (hNothing : Text.trim text = []) :
    text = [] := by
  obtain ⟨before, after, hBefore, hAfter, hText⟩ := Text.trim_surroundings text
  refine nil_of_whole_blank hWhole ?_
  rw [hText, hNothing, List.append_nil, Text.isAllBlank_append, hBefore, hAfter]
  rfl

/-- The first piece that is read writes a proper token, which is taken first. -/
theorem first_of_read {settled settled' : Settled} {piece : List Char} {more : List (List Char)}
    (hWhole : Whole 0 piece) (hSome : Text.trim piece ≠ [])
    (h : ([Text.trim piece].filter (!·.isEmpty) ++ more).foldlM settle settled = .ok settled') :
    ∃ token : Token, token.Proper ∧ token.Written piece ∧
      ∃ next, more.foldlM settle next = .ok settled' := by
  rw [filter_trim hSome, List.singleton_append, List.foldlM_cons] at h
  cases hFirst : settle settled (Text.trim piece) with
  | error cause =>
      rw [hFirst] at h
      cases h
  | ok next =>
      rw [hFirst] at h
      obtain ⟨token, hProper, hWritten⟩ := written_of_trim hWhole hFirst
      exact ⟨token, hProper, hWritten, next, h⟩

/-- Where all tokens of a text are taken into account, it lists them. -/
theorem listed_of_read {settled settled' : Settled} {text : List Char}
    (h : (tokens text).foldlM settle settled = .ok settled') :
    ∃ read : List Token, (∀ token ∈ read, token.Proper) ∧ Listed read text := by
  -- Reading goes on behind the first separator, and outside of parentheses again: what was
  -- taken for a token in front of it closes its own.
  induction hLength : text.length using Nat.strong_induction_on generalizing settled text with
  | _ length ih =>
      rcases whole_or_separated 0 text with hWhole | ⟨first, c, rest, rfl, hWhole, hHere⟩
      · by_cases hSome : Text.trim text = []
        · obtain rfl := nil_of_trim hWhole hSome
          exact ⟨[], List.forall_mem_nil _, .nil⟩
        · rw [tokens_whole hWhole, ← List.append_nil ([_].filter _)] at h
          obtain ⟨token, hProper, hWritten, -⟩ := first_of_read hWhole hSome h
          exact ⟨[token], List.forall_mem_singleton.mpr hProper, .last hWritten⟩
      · by_cases hSome : Text.trim first = []
        · obtain rfl := nil_of_trim hWhole hSome
          have hGap := separates_zero_iff.mp hHere
          rw [List.nil_append, tokens_gap hGap] at h
          obtain ⟨read, hProper, hListed⟩ := ih rest.length (by simp [← hLength]) h rfl
          exact ⟨read, hProper, .gap hGap hListed⟩
        · rw [tokens_separated hWhole hHere] at h
          obtain ⟨token, hProper, hWritten, next, hMore⟩ := first_of_read hWhole hSome h
          rw [(hWritten.whole hProper).2] at hHere hMore
          obtain ⟨read, hAll, hListed⟩ := ih rest.length (by simp [← hLength]; omega) hMore rfl
          exact ⟨token :: read, List.forall_mem_cons.mpr ⟨hProper, hAll⟩,
            .cons hWritten (separates_zero_iff.mp hHere) hListed⟩

end Declaration

end MacroMarkup
