import MacroMarkup.Proofs.Signature.Tokens
import Mathlib.Data.List.Nodup

/-! Signatures are read as they are written. Reading accepts the texts that name a macro and
list each of its tokens at most once, leaving out defaults only, and no other text. -/
namespace MacroMarkup.Declaration

/-- What a token says is what has been settled. -/
def Settled.Holds (settled : Settled) : Token → Prop
  | .language language params => settled.language = some (language, params)
  | .mode mode => settled.mode = some mode
  | .policy policy => settled.policy = some policy

namespace Settled

/-- A token is refused if another one of its kind has been taken. -/
theorem take_taken {settled : Settled} {other token : Token} (hHolds : settled.Holds other)
    (hKind : other.conflict = token.conflict) : settled.take token = .error token.conflict := by
  cases token <;> cases other <;> cases hKind <;> simp_all [Holds, take, Token.conflict]

/-- Otherwise it is taken, and all others stay. -/
theorem take_free {settled : Settled} {token : Token}
    (hFree : ∀ other, settled.Holds other → other.conflict ≠ token.conflict) :
    ∃ settled', settled.take token = .ok settled' ∧
      ∀ other, settled'.Holds other ↔ settled.Holds other ∨ other = token := by
  cases token with
  | language language params =>
      cases hBefore : settled.language with
      | some before => exact absurd rfl (hFree (.language before.1 before.2) hBefore)
      | none =>
          refine ⟨{ settled with language := some (language, params) }, by simp [take, hBefore], ?_⟩
          intro other
          cases other <;> simp [Holds, hBefore, eq_comm]
  | mode mode =>
      cases hBefore : settled.mode with
      | some before => exact absurd rfl (hFree (.mode before) hBefore)
      | none =>
          refine ⟨{ settled with mode := some mode }, by simp [take, hBefore], ?_⟩
          intro other
          cases other <;> simp [Holds, hBefore, eq_comm]
  | policy policy =>
      cases hBefore : settled.policy with
      | some before => exact absurd rfl (hFree (.policy before) hBefore)
      | none =>
          refine ⟨{ settled with policy := some policy }, by simp [take, hBefore], ?_⟩
          intro other
          cases other <;> simp [Holds, hBefore, eq_comm]

/-- Tokens that are of different kinds, and of none that is settled, are all taken. -/
theorem take_all {settled : Settled} {tokens : List Token}
    (hFree : ∀ other, settled.Holds other → other.conflict ∉ tokens.map Token.conflict)
    (hOnce : (tokens.map Token.conflict).Nodup) :
    ∃ settled', tokens.foldlM take settled = .ok settled' ∧
      ∀ other, settled'.Holds other ↔ settled.Holds other ∨ other ∈ tokens := by
  induction tokens generalizing settled with
  | nil => exact ⟨settled, rfl, fun other => by simp⟩
  | cons token tokens ih =>
      rw [List.map_cons, List.nodup_cons] at hOnce
      have hHere : ∀ other, settled.Holds other → other.conflict ≠ token.conflict :=
        fun other hHolds hKind => hFree other hHolds (by simp [hKind])
      obtain ⟨next, hTake, hNext⟩ := take_free hHere
      have hLater : ∀ other, next.Holds other → other.conflict ∉ tokens.map Token.conflict := by
        intro other hHolds
        rcases (hNext other).mp hHolds with hHolds | rfl
        · exact fun hMem => hFree other hHolds (List.mem_cons_of_mem _ hMem)
        · exact hOnce.1
      obtain ⟨settled', hRun, hLast⟩ := ih hLater hOnce.2
      refine ⟨settled', ?_, fun other => ?_⟩
      · rw [List.foldlM_cons, hTake]
        exact hRun
      · rw [hLast, hNext, List.mem_cons, or_assoc]

/-- Tokens that are all taken are of different kinds, and of none that was settled. -/
theorem once_of_take_all {settled settled' : Settled} {tokens : List Token}
    (h : tokens.foldlM take settled = .ok settled') :
    (∀ other, settled.Holds other → other.conflict ∉ tokens.map Token.conflict) ∧
      (tokens.map Token.conflict).Nodup := by
  induction tokens generalizing settled with
  | nil => exact ⟨fun other hHolds => List.not_mem_nil, List.nodup_nil⟩
  | cons token tokens ih =>
      rw [List.foldlM_cons] at h
      have hFree : ∀ other, settled.Holds other → other.conflict ≠ token.conflict := by
        intro other hHolds hKind
        rw [take_taken hHolds hKind] at h
        cases h
      obtain ⟨next, hTake, hNext⟩ := take_free hFree
      rw [hTake] at h
      obtain ⟨hLater, hOnce⟩ := ih h
      rw [List.map_cons, List.nodup_cons]
      refine ⟨fun other hHolds => ?_, hLater token ((hNext token).mpr (.inr rfl)), hOnce⟩
      rw [List.mem_cons, not_or]
      exact ⟨hFree other hHolds, hLater other ((hNext other).mpr (.inl hHolds))⟩

theorem not_holds_empty (token : Token) : ¬ Holds {} token := by
  cases token <;> exact fun hHolds => nomatch hHolds

/-- Tokens of different kinds are all taken, from the start. -/
theorem take_all_empty {tokens : List Token} (hOnce : (tokens.map Token.conflict).Nodup) :
    ∃ settled, tokens.foldlM take {} = .ok settled ∧
      ∀ token, settled.Holds token ↔ token ∈ tokens := by
  have hFree : ∀ other, Holds {} other → other.conflict ∉ tokens.map Token.conflict :=
    fun other hHolds => absurd hHolds (not_holds_empty other)
  obtain ⟨settled, hRun, hHolds⟩ := take_all hFree hOnce
  exact ⟨settled, hRun, fun token => (hHolds token).trans (or_iff_right (not_holds_empty token))⟩

/-- The first token of a kind that came before is the one that is reported. -/
theorem take_again {first : List Token} {token : Token}
    (hOnce : (first.map Token.conflict).Nodup)
    (hAgain : token.conflict ∈ first.map Token.conflict) (rest : List Token) :
    (first ++ token :: rest).foldlM take {} = .error token.conflict := by
  obtain ⟨settled, hRun, hHolds⟩ := take_all_empty hOnce
  obtain ⟨other, hMem, hKind⟩ := List.mem_map.mp hAgain
  rw [List.foldlM_append, hRun]
  show (token :: rest).foldlM take settled = _
  rw [List.foldlM_cons, take_taken ((hHolds other).mpr hMem) hKind]
  rfl

/-- Where each kind comes once, a token that is put in between is reported if its kind has come
already, and otherwise the later one of its kind is. -/
theorem take_repeated {first rest : List Token} {again : Token}
    (hOnce : ((first ++ rest).map Token.conflict).Nodup)
    (hAgain : again.conflict ∈ (first ++ rest).map Token.conflict) :
    (first ++ again :: rest).foldlM take {} = .error again.conflict := by
  rw [List.map_append] at hOnce hAgain
  by_cases hFirst : again.conflict ∈ first.map Token.conflict
  · exact take_again hOnce.of_append_left hFirst rest
  · obtain ⟨token, hMem, hKind⟩ := List.mem_map.mp ((List.mem_append.mp hAgain).resolve_left hFirst)
    obtain ⟨middle, later, rfl⟩ := List.append_of_mem hMem
    have hShorter : first ++ (middle ++ [token]) <+: first ++ (middle ++ token :: later) :=
      ⟨later, by simp⟩
    have hMoved : (first ++ (middle ++ [token])).Perm (first ++ token :: middle) :=
      (List.perm_append_singleton token middle).append_left first
    have hBefore : ((first ++ again :: middle).map Token.conflict).Nodup := by
      rw [List.map_append, List.map_cons, ← hKind, ← List.map_cons, ← List.map_append]
      rw [← List.map_append] at hOnce
      exact (hMoved.map _).nodup_iff.mp (hOnce.sublist (hShorter.sublist.map _))
    have hRepeats : token.conflict ∈ (first ++ again :: middle).map Token.conflict := by
      simp [hKind]
    have hRun := take_again hBefore hRepeats later
    rwa [List.append_assoc, hKind] at hRun

/-- The declaration of a macro of which something is settled, with defaults for the rest. -/
def declaration (settled : Settled) (name : String) : Declaration where
  name
  language := (settled.language.getD (.raw, [])).1
  params := (settled.language.getD (.raw, [])).2
  mode := settled.mode.getD .normalize
  policy := settled.policy.getD .wrapInParagraph

end Settled

/-- The tokens that say all there is to say of a declaration besides its name. -/
def allTokens (declaration : Declaration) : List Token :=
  [.language declaration.language declaration.params, .mode declaration.mode,
    .policy declaration.policy]

/-- The tokens that may be left out. -/
def defaultTokens : List Token :=
  [.language .raw [], .mode .normalize, .policy .wrapInParagraph]

/-- Tokens that settle a declaration: each comes at most once, in any order, and the ones left
out are defaults. -/
structure Complete (declaration : Declaration) (tokens : List Token) : Prop where
  once : tokens.Nodup
  stated : tokens ⊆ declaration.allTokens
  omitted : ∀ token ∈ declaration.allTokens, token ∉ tokens → token ∈ defaultTokens

/-- A complete list has one token of each kind at most. -/
theorem Complete.conflicts {declaration : Declaration} {tokens : List Token}
    (hComplete : declaration.Complete tokens) : (tokens.map Token.conflict).Nodup := by
  refine List.Nodup.map_on ?_ hComplete.once
  have hKinds : (declaration.allTokens.map Token.conflict).Nodup := by
    simp [allTokens, Token.conflict]
  intro token hMem other hOther hKind
  exact List.inj_on_of_nodup_map hKinds (hComplete.stated hMem) (hComplete.stated hOther) hKind

/-- A value is the one that was settled or, where none was, the default. -/
theorem getD_eq_iff {α : Type} {settled : Option α} {default value : α} :
    settled.getD default = value ↔
      (∀ found, settled = some found → found = value) ∧ (settled ≠ some value → value = default) := by
  cases settled with
  | none => simp [eq_comm]
  | some found => simp +contextual [eq_comm]

/-- Tokens settle a declaration exactly if it is what they leave settled, with defaults for
the rest. -/
theorem complete_iff {settled : Settled} {tokens : List Token} (hOnce : tokens.Nodup)
    (hHolds : ∀ token, settled.Holds token ↔ token ∈ tokens) {declaration : Declaration} :
    declaration.Complete tokens ↔ settled.declaration declaration.name = declaration := by
  have hFields : settled.declaration declaration.name = declaration ↔
      settled.language.getD (.raw, []) = (declaration.language, declaration.params) ∧
        settled.mode.getD .normalize = declaration.mode ∧
        settled.policy.getD .wrapInParagraph = declaration.policy := by
    obtain ⟨name, language, params, mode, policy⟩ := declaration
    simp [Settled.declaration, Prod.ext_iff, and_assoc]
  rw [hFields, getD_eq_iff, getD_eq_iff, getD_eq_iff]
  constructor
  · intro hComplete
    have hStated : ∀ token, settled.Holds token → token ∈ declaration.allTokens :=
      fun token hToken => hComplete.stated ((hHolds token).mp hToken)
    have hOmitted : ∀ token ∈ declaration.allTokens, ¬ settled.Holds token → token ∈ defaultTokens :=
      fun token hMem hNot => hComplete.omitted token hMem fun hToken => hNot ((hHolds token).mpr hToken)
    refine ⟨⟨fun found hFound => ?_, fun hNot => ?_⟩, ⟨fun found hFound => ?_, fun hNot => ?_⟩,
      ⟨fun found hFound => ?_, fun hNot => ?_⟩⟩
    · simpa [allTokens, Prod.ext_iff] using hStated (.language found.1 found.2) hFound
    · simpa [defaultTokens] using hOmitted (.language _ _) (by simp [allTokens]) hNot
    · simpa [allTokens] using hStated (.mode found) hFound
    · simpa [defaultTokens] using hOmitted (.mode _) (by simp [allTokens]) hNot
    · simpa [allTokens] using hStated (.policy found) hFound
    · simpa [defaultTokens] using hOmitted (.policy _) (by simp [allTokens]) hNot
  · rintro ⟨hLanguage, hMode, hPolicy⟩
    refine ⟨hOnce, fun token hMem => ?_, fun token hMem hNot => ?_⟩
    · have hToken := (hHolds token).mpr hMem
      cases token with
      | language language params => simpa [allTokens] using hLanguage.1 _ hToken
      | mode mode => simpa [allTokens] using hMode.1 _ hToken
      | policy policy => simpa [allTokens] using hPolicy.1 _ hToken
    · rw [← hHolds] at hNot
      simp only [allTokens, List.mem_cons, List.not_mem_nil, or_false] at hMem
      rcases hMem with rfl | rfl | rfl
      · simpa [defaultTokens] using hLanguage.2 hNot
      · simpa [defaultTokens] using hMode.2 hNot
      · simpa [defaultTokens] using hPolicy.2 hNot

/-- What the declaration of a macro is like. The body of an environment is its last argument,
and is taken as it is written. -/
structure Proper (kind : MacroKind) (declaration : Declaration) : Prop where
  named : declaration.name.toList ≠ []
  spelled : ∀ c ∈ declaration.name.toList,
    Text.isBlank c = false ∧ c ≠ '\x7b' ∧ c ≠ '\x7d' ∧ c ≠ ':'
  params : ∀ param ∈ declaration.params, param.Proper
  encloses : kind = .environment →
    ∃ last, declaration.params.getLast? = some last ∧ last.verbatim = true

/-- A signature is written as a name and, behind a colon, its tokens. Blanks may stand around
the name. -/
def Spelled (name : String) (tokens : List Token) (text : List Char) : Prop :=
  ∃ before after tail, Text.isAllBlank before = true ∧ Text.isAllBlank after = true ∧
    text = before ++ name.toList ++ after ++ ':' :: tail ∧ Listed tokens tail

/-- An environment must have a verbatim body behind its parameters. -/
theorem checkKind_eq_ok_iff {kind : MacroKind} {params : List Param} :
    checkKind kind params = .ok () ↔ (kind = .environment →
      ∃ last, params.getLast? = some last ∧ last.verbatim = true) := by
  unfold checkKind
  cases kind with
  | command => simp
  | environment =>
      cases params.getLast? with
      | none => simp
      | some last => cases hVerbatim : last.verbatim <;> simp [hVerbatim]

/-- A name is what stands in front of the only colon. -/
theorem splitName_eq_ok_iff {text name tail : List Char} :
    splitName text = .ok (name, tail) ↔ ∃ head, text = head ++ ':' :: tail ∧ ':' ∉ head ∧
      ':' ∉ tail ∧ Text.trim head = name := by
  unfold splitName
  constructor
  · intro h
    split at h
    · cases h
    · rename_i head rest hSplit
      obtain ⟨rfl, hHead⟩ := Text.splitOnce?_eq_some_iff.mp hSplit
      split at h
      · cases h
      · rename_i hTail
        cases h
        exact ⟨head, rfl, hHead, by simpa using hTail, rfl⟩
  · rintro ⟨head, rfl, hHead, hTail, rfl⟩
    have hSplit : Text.splitOnce? ':' (head ++ ':' :: tail) = some (head, tail) :=
      Text.splitOnce?_eq_some_iff.mpr ⟨rfl, hHead⟩
    rw [hSplit]
    dsimp only
    rw [if_neg (by simpa using hTail)]

/-- A name that a macro can have. That it holds no colon is known from where it stands. -/
def ProperName (name : List Char) : Prop :=
  name ≠ [] ∧ ∀ c ∈ name, Text.isBlank c = false ∧ c ≠ '\x7b' ∧ c ≠ '\x7d'

/-- The check refuses exactly the names that are not proper. -/
theorem misnamed_iff {name : List Char} :
    (name.isEmpty = true ∨
      name.any (fun c => Text.isBlank c || c = '\x7b' || c = '\x7d') = true) ↔ ¬ ProperName name := by
  rw [← not_iff_not, not_not, not_or, ProperName]
  simp [and_assoc]

/-- Behind its name, a signature is read token by token. -/
theorem parse_named {kind : MacroKind} {text name tail : List Char}
    (hSplit : splitName text = .ok (name, tail)) (hNamed : ProperName name) :
    parse kind text = (tokens tail).foldlM settle {} >>= fun settled =>
      checkKind kind (settled.declaration (String.ofList name)).params >>= fun _ =>
        .ok (settled.declaration (String.ofList name)) := by
  unfold parse
  rw [hSplit]
  simp only [bind, Except.bind]
  rw [if_neg (not_not.mpr hNamed ∘ misnamed_iff.mp)]
  rfl

/-- All that has to go well when a signature is read. -/
theorem exists_of_parse {kind : MacroKind} {text : List Char} {declaration : Declaration}
    (h : parse kind text = .ok declaration) : ∃ head tail settled,
      text = head ++ ':' :: tail ∧ ':' ∉ head ∧ ProperName (Text.trim head) ∧
        (tokens tail).foldlM settle {} = .ok settled ∧
        declaration = settled.declaration (String.ofList (Text.trim head)) ∧
        checkKind kind declaration.params = .ok () := by
  have hRead := h
  unfold parse at h
  simp only [bind, Except.bind] at h
  split at h
  · cases h
  · rename_i split hSplit
    obtain ⟨head, hText, hHead, -, hName⟩ := splitName_eq_ok_iff.mp hSplit
    by_cases hNamed : ProperName split.1
    · rw [parse_named hSplit hNamed] at hRead
      cases hRun : (tokens split.2).foldlM settle {} with
      | error cause =>
          rw [hRun] at hRead
          cases hRead
      | ok settled =>
          cases hKind : checkKind kind (settled.declaration (String.ofList split.1)).params with
          | error cause =>
              simp only [hRun, bind, Except.bind, hKind] at hRead
              cases hRead
          | ok =>
              simp only [hRun, bind, Except.bind, hKind, Except.ok.injEq] at hRead
              subst hRead
              refine ⟨head, split.2, settled, hText, hHead, hName ▸ hNamed, hRun, ?_, hKind⟩
              rw [hName]
    · rw [if_pos (misnamed_iff.mpr hNamed)] at h
      cases h

namespace Proper

variable {kind : MacroKind} {declaration : Declaration}

/-- A proper declaration has a proper name. -/
theorem properName (hProper : declaration.Proper kind) : ProperName declaration.name.toList :=
  ⟨hProper.named, fun c hMem =>
    ⟨(hProper.spelled c hMem).1, (hProper.spelled c hMem).2.1, (hProper.spelled c hMem).2.2.1⟩⟩

/-- All tokens of a proper declaration are proper. -/
theorem tokens (hProper : declaration.Proper kind) {tokens : List Token}
    (hComplete : declaration.Complete tokens) : ∀ token ∈ tokens, token.Proper := by
  intro token hMem
  have hStated := hComplete.stated hMem
  simp only [allTokens, List.mem_cons, List.not_mem_nil, or_false] at hStated
  rcases hStated with rfl | rfl | rfl
  · exact hProper.params
  · exact List.forall_mem_nil _
  · exact List.forall_mem_nil _

/-- A signature is read as the tokens that stand in it, whether these go together or not. -/
theorem parse_spelled (hProper : declaration.Proper kind) {tokens : List Token}
    (hEach : ∀ token ∈ tokens, token.Proper) {text : List Char}
    (hSpelled : Spelled declaration.name tokens text) :
    parse kind text = tokens.foldlM Settled.take {} >>= fun settled =>
      checkKind kind (settled.declaration declaration.name).params >>= fun _ =>
        .ok (settled.declaration declaration.name) := by
  obtain ⟨before, after, tail, hBefore, hAfter, rfl, hListed⟩ := hSpelled
  have hName : Text.trim declaration.name.toList = declaration.name.toList :=
    Text.trim_of_visible fun c hMem => (hProper.spelled c hMem).1
  have hHead : ':' ∉ before ++ declaration.name.toList ++ after := by
    simp only [List.mem_append, not_or]
    refine ⟨⟨?_, ?_⟩, ?_⟩
    · exact Text.not_mem_of_isAllBlank hBefore rfl
    · exact fun hMem => (hProper.spelled ':' hMem).2.2.2 rfl
    · exact Text.not_mem_of_isAllBlank hAfter rfl
  have hSplit := splitName_eq_ok_iff.mpr
    ⟨_, rfl, hHead, hListed.colon hEach, Text.trim_between hBefore hAfter hName⟩
  rw [parse_named hSplit hProper.properName, hListed.read hEach, String.ofList_toList]

end Proper

/-- Every way to write a declaration is read as that declaration. -/
theorem parse_of_spelled {kind : MacroKind} {declaration : Declaration} {tokens : List Token}
    {text : List Char} (hProper : declaration.Proper kind) (hComplete : declaration.Complete tokens)
    (hSpelled : Spelled declaration.name tokens text) : parse kind text = .ok declaration := by
  obtain ⟨settled, hRun, hHolds⟩ := Settled.take_all_empty hComplete.conflicts
  rw [hProper.parse_spelled (hProper.tokens hComplete) hSpelled, hRun]
  show (checkKind kind (settled.declaration declaration.name).params >>= fun _ =>
    .ok (settled.declaration declaration.name)) = _
  rw [(complete_iff hComplete.once hHolds).mp hComplete,
    checkKind_eq_ok_iff.mpr hProper.encloses]
  rfl

/-- A second token of a kind is reported, whatever it says. -/
theorem parse_of_repeated {kind : MacroKind} {declaration : Declaration} {again : Token}
    {first rest : List Token} {text : List Char} (hProper : declaration.Proper kind)
    (hComplete : declaration.Complete (first ++ rest)) (hAgain : again.Proper)
    (hKind : again.conflict ∈ (first ++ rest).map Token.conflict)
    (hSpelled : Spelled declaration.name (first ++ again :: rest) text) :
    parse kind text = .error again.conflict := by
  have hEach : ∀ token ∈ first ++ again :: rest, token.Proper := by
    have hOthers := List.forall_mem_append.mp (hProper.tokens hComplete)
    exact List.forall_mem_append.mpr ⟨hOthers.1, List.forall_mem_cons.mpr ⟨hAgain, hOthers.2⟩⟩
  rw [hProper.parse_spelled hEach hSpelled, Settled.take_repeated hComplete.conflicts hKind]
  rfl

/-- The tokens that have been taken are complete for what they settle. -/
theorem complete_of_run {tokens : List Token} {settled : Settled}
    (hRun : tokens.foldlM Settled.take {} = .ok settled) (name : String) :
    (settled.declaration name).Complete tokens := by
  obtain ⟨-, hOnce⟩ := Settled.once_of_take_all hRun
  obtain ⟨settled', hRun', hHolds⟩ := Settled.take_all_empty hOnce
  rw [hRun] at hRun'
  cases hRun'
  exact (complete_iff hOnce.of_map hHolds).mpr rfl

/-- The parameters of a declaration are those of a token, or there are none. -/
theorem Complete.params {declaration : Declaration} {tokens : List Token}
    (hComplete : declaration.Complete tokens) (hProper : ∀ token ∈ tokens, token.Proper) :
    ∀ param ∈ declaration.params, param.Proper := by
  have hMem : .language declaration.language declaration.params ∈ declaration.allTokens :=
    List.mem_cons_self
  by_cases hStated : .language declaration.language declaration.params ∈ tokens
  · exact hProper _ hStated
  · have hDefault := hComplete.omitted _ hMem hStated
    have hNone : declaration.params = [] := by
      simp only [defaultTokens, List.mem_cons, List.not_mem_nil, or_false, reduceCtorEq,
        Token.language.injEq] at hDefault
      exact hDefault.2
    rw [hNone]
    exact List.forall_mem_nil _

/-- What is read as a declaration is one of the ways to write it. -/
theorem spelled_of_parse {kind : MacroKind} {declaration : Declaration} {text : List Char}
    (h : parse kind text = .ok declaration) : declaration.Proper kind ∧
      ∃ tokens, declaration.Complete tokens ∧ Spelled declaration.name tokens text := by
  obtain ⟨head, tail, settled, rfl, hHead, hNamed, hRun, rfl, hKind⟩ := exists_of_parse h
  obtain ⟨read, hEach, hListed⟩ := listed_of_read hRun
  rw [hListed.read hEach] at hRun
  have hComplete := complete_of_run hRun (String.ofList (Text.trim head))
  obtain ⟨before, after, hBefore, hAfter, hWhole⟩ := Text.trim_surroundings head
  have hList : (settled.declaration (String.ofList (Text.trim head))).name.toList = Text.trim head :=
    String.toList_ofList
  have hColon : ':' ∉ Text.trim head := by
    intro hMem
    refine hHead ?_
    rw [hWhole]
    simp [hMem]
  refine ⟨⟨?_, ?_, hComplete.params hEach, checkKind_eq_ok_iff.mp hKind⟩, read, hComplete,
    before, after, tail, hBefore, hAfter, ?_, hListed⟩
  · rw [hList]
    exact hNamed.1
  · rw [hList]
    intro c hMem
    obtain ⟨hVisible, hOpen, hClose⟩ := hNamed.2 c hMem
    exact ⟨hVisible, hOpen, hClose, fun hHere => hColon (hHere ▸ hMem)⟩
  · rw [hList, ← hWhole]

/-- Signatures are read back. All ways to write a declaration are read as this declaration:
its tokens in any order, with any semicolons and blanks between them, and without those that are
defaults. What is read as a declaration is written so, and a further token of a kind that it has
already is reported, wherever it is put. -/
theorem signature_round_trip (kind : MacroKind) :
    (∀ declaration tokens text, declaration.Proper kind → declaration.Complete tokens →
      Spelled declaration.name tokens text → parse kind text = .ok declaration) ∧
    ∀ declaration text, parse kind text = .ok declaration →
      declaration.Proper kind ∧
      (∃ tokens, declaration.Complete tokens ∧ Spelled declaration.name tokens text) ∧
      ∀ first again rest text', declaration.Complete (first ++ rest) → again.Proper →
        again.conflict ∈ (first ++ rest).map Token.conflict →
        Spelled declaration.name (first ++ again :: rest) text' →
        parse kind text' = .error again.conflict := by
  refine ⟨fun declaration tokens text => parse_of_spelled, fun declaration text h => ?_⟩
  obtain ⟨hProper, hSpelled⟩ := spelled_of_parse h
  refine ⟨hProper, hSpelled, fun first again rest text' hComplete hAgain hKind hRepeated => ?_⟩
  exact parse_of_repeated hProper hComplete hAgain hKind hRepeated

def link : Declaration where
  name := "link"
  language := .script
  params := [{ name := "url", verbatim := false }, { name := "label", verbatim := true }]
  mode := .webRender
  policy := .leaveParagraph

theorem signature_round_trip_link :
    parse .environment " link : script(url, *label);ctx->web leaveblk".toList = .ok link ∧
    parse .environment "link:script(url, *label) ctx->doc; ctx->web leaveblk".toList =
      .error .conflictMode := by
  have hUrl : Param.Written { name := "url", verbatim := false } ([] ++ "url".toList ++ []) :=
    .expanded rfl rfl
  have hLabel : Param.Written { name := "label", verbatim := true }
      ([' '] ++ '*' :: ([] ++ "label".toList) ++ []) := .verbatim rfl rfl rfl
  have hParams : Param.AllWritten link.params _ :=
    .some (by decide) (.cons hUrl (.cons hLabel .nil))
  have hLanguage : (Token.language .script link.params).Written _ := .language hParams
  have hBlank : ' ' = ';' ∨ Text.isBlank ' ' = true := .inr rfl
  have hBehind : Listed [.mode .webRender, .policy .leaveParagraph] _ :=
    .cons (.mode .webRender) hBlank (.last (.policy .leaveParagraph))
  have hListed : Listed (.language .script link.params :: _) _ :=
    .gap hBlank (.cons hLanguage (.inl rfl) hBehind)
  have hAgain : Listed (.language .script link.params :: .mode .docRender :: _) _ :=
    .cons hLanguage hBlank (.cons (.mode .docRender) (.inl rfl) (.gap hBlank hBehind))
  have hProper : link.Proper .environment := by
    refine ⟨by decide, by decide, ?_, fun _ => ⟨_, rfl, rfl⟩⟩
    rw [link, List.forall_mem_cons, List.forall_mem_singleton]
    exact ⟨⟨by decide, by decide, by decide⟩, ⟨by decide, by decide, by decide⟩⟩
  have hComplete : link.Complete
      [.language .script link.params, .mode .webRender, .policy .leaveParagraph] :=
    ⟨by decide, by decide, by decide⟩
  have hRead := (signature_round_trip .environment).1 link _
    " link : script(url, *label);ctx->web leaveblk".toList hProper hComplete
    ⟨[' '], [' '], _, rfl, rfl, by decide +kernel, hListed⟩
  refine ⟨hRead, ?_⟩
  exact ((signature_round_trip .environment).2 link _ hRead).2.2
    [.language .script link.params] (.mode .docRender) [.mode .webRender, .policy .leaveParagraph]
    "link:script(url, *label) ctx->doc; ctx->web leaveblk".toList hComplete (List.forall_mem_nil _)
    (by decide) ⟨[], [], _, rfl, rfl, by decide +kernel, hAgain⟩

end MacroMarkup.Declaration
