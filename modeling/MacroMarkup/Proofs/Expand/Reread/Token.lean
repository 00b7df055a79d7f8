import MacroMarkup.Proofs.Expand.Guarded
import MacroMarkup.Proofs.Expand.Inert

/-! What stands first in inert text: a character as it is, or an invocation whose handler
lasts. An invocation goes over the point where something else follows only where two equal
quotes meet there. -/
namespace MacroMarkup

/-- Handlers that normalized text still dispatches to: escaped characters, formulas,
and commands of a later pass. -/
def Handler.lasting : Handler → Bool
  | .builtin (.escapedChar _) => true
  | .builtin .math => true
  | .builtin _ => false
  | .user called => called.kind = .command && called.signature.mode ≠ .normalize

namespace Expand

/-- Whether the first `length` characters of the text go over the point that `behind`
characters come behind. -/
def crosses (behind length : Nat) (text : List Char) : Bool :=
  text.length < behind + length && behind < text.length

/-- Whether two equal quotes are left, one on each side of that point. -/
def quoted (behind : Nat) (text : List Char) : Bool :=
  text.length = behind + 1 && Registry.quotes.any fun c => text.take 2 = [c, c]

/-- Whether the place at hand is literal, or its handler lasts and its spelling goes over
the point that `behind` characters come behind just where two quotes meet there. -/
def stable (behind : Nat) (_ : BlockReader) (s : ExpandState) : Bool :=
  match s.session.registry.lookup? s.rest with
  | none => true
  | some (length, handler) =>
    handler.lasting && (crosses behind length s.rest == quoted behind s.rest)

/-! What stands first in inert text. -/

/-- The first token of a text: what its lookup finds, and the text behind it. -/
inductive Token (registry : Registry) : Option (Nat × Handler) → List Char → List Char → Prop where
  | literal (c : Char) (after : List Char) : Token registry none (c :: after) after
  | escapedChar {char : EscapedChar} {spelling : List Char} (after : List Char) :
      char.ctx.toList = spelling →
      Token registry (some (spelling.length, .builtin (.escapedChar char))) (spelling ++ after) after
  | formula {formula : List Char} (after : List Char) : '$' ∉ formula →
      Token registry (some (1, .builtin .math)) ('$' :: (formula ++ '$' :: after)) after
  | deferred {user : UserMacro} {scopes : List Char} (after : List Char) : user.kind = .command →
      user.signature.mode ≠ .normalize →
      (user.signature.verbatim ≠ [] ∧ Inert registry (.scopes user.signature.verbatim) scopes ∨
        user.signature.verbatim = [] ∧ scopes = ['\x7b', '\x7d']) →
      Token registry (some (user.name.toList.length + 1, .user user))
        ('\\' :: (user.name.toList ++ (scopes ++ after))) after

/-- What is left behind a token: the rest of the inert text before the tail, or part of
the tail, where a quote ends the inert text and another one begins the tail. -/
def Left (registry : Registry) (content tail after : List Char) : Prop :=
  (∃ others, Inert registry .running others ∧ after = others ++ tail) ∨
    ∃ c ∈ Registry.quotes, content = [c] ∧ tail = c :: after

/-- Inert text does not start with a closing brace. -/
theorem Inert.head_ne {registry : Registry} {c : Char} {text : List Char}
    (h : Inert registry .running (c :: text)) : c ≠ '\x7d' := by
  cases h with
  | char hMark _ =>
      rintro rfl
      exact hMark (by decide)
  | escaped => decide
  | formula => decide
  | deferred => decide
  | deferredBare => decide

/-- Behind a character without a mark the text is inert again. -/
theorem Inert.tail {registry : Registry} {c : Char} {text : List Char}
    (h : Inert registry .running (c :: text)) (hMark : c ∉ ['\\', '\x7b', '\x7d', '%', '$']) :
    Inert registry .running text := by
  cases h with
  | char _ hText => exact hText
  | escaped => exact absurd (by decide) hMark
  | formula => exact absurd (by decide) hMark
  | deferred => exact absurd (by decide) hMark
  | deferredBare => exact absurd (by decide) hMark

section First

variable {registry : Registry} (hBuilt : registry.Built) (hTame : registry.Tame)
include hBuilt

/-- A character that is no mark is literal, or an escaped character on its own or with
another one like it. -/
theorem Inert.first_char {c : Char} {others : List Char}
    (hMark : c ∉ ['\\', '\x7b', '\x7d', '%', '$']) (hOthers : Inert registry .running others)
    (tail : List Char) :
    ∃ after, Token registry (registry.lookup? (c :: (others ++ tail))) (c :: (others ++ tail)) after ∧
      Left registry (c :: others) tail after := by
  cases hFound : registry.lookup? (c :: (others ++ tail)) with
  | none => exact ⟨_, .literal c _, .inl ⟨others, hOthers, rfl⟩⟩
  | some found =>
      obtain ⟨length, handler⟩ := found
      obtain ⟨char, hChar, rfl, hSpelling, rfl | ⟨rfl, after, hTwice⟩⟩ :=
        hBuilt.lookup?_unescaped hMark hFound
      · exact ⟨_, @Token.escapedChar _ char [c] _ hSpelling, .inl ⟨others, hOthers, rfl⟩⟩
      · rw [hTwice] at hSpelling ⊢
        refine ⟨after, @Token.escapedChar _ char [c, c] after hSpelling, ?_⟩
        cases others with
        | nil =>
            have hEscape : c ≠ '\\' := by
              rintro rfl
              exact hMark (by decide)
            exact .inr ⟨c, Registry.mem_quotes hChar hSpelling hEscape, rfl, hTwice⟩
        | cons d more =>
            obtain ⟨rfl, rfl⟩ := List.cons.inj hTwice
            exact .inl ⟨more, hOthers.tail hMark, rfl⟩

include hTame

/-- A macro of a later pass stands first, with its scopes. -/
theorem Inert.first_deferred {user : UserMacro} {scopes others : List Char}
    (hBound : registry.bound ('\\' :: user.name.toList) = some (.user user))
    (hKind : user.kind = .command) (hMode : user.signature.mode ≠ .normalize)
    (hScopes : user.signature.verbatim ≠ [] ∧
        Inert registry (.scopes user.signature.verbatim) scopes ∨
      user.signature.verbatim = [] ∧ scopes = ['\x7b', '\x7d'])
    (hOthers : Inert registry .running others) (tail : List Char) :
    ∃ after, Token registry
        (registry.lookup? ('\\' :: (user.name.toList ++ (scopes ++ (others ++ tail)))))
        ('\\' :: (user.name.toList ++ (scopes ++ (others ++ tail)))) after ∧
      Left registry ('\\' :: (user.name.toList ++ (scopes ++ others))) tail after := by
  obtain ⟨inner, rfl⟩ : ∃ inner, scopes = '\x7b' :: inner := by
    rcases hScopes with ⟨hVerbatim, hScopes⟩ | ⟨-, rfl⟩
    · cases hFlags : user.signature.verbatim with
      | nil => exact absurd hFlags hVerbatim
      | cons flag flags =>
          rw [hFlags] at hScopes
          cases hScopes <;> exact ⟨_, rfl⟩
    · exact ⟨_, rfl⟩
  have hFound := hBuilt.lookup?_command hBound ((hTame _ _ hBound).notBegin hKind)
    (inner ++ (others ++ tail))
  rw [List.cons_append, ← List.cons_append (a := '\x7b')] at hFound
  rw [hFound]
  exact ⟨others ++ tail, .deferred _ hKind hMode hScopes, .inl ⟨others, hOthers, rfl⟩⟩

/-- The first token of inert text, whatever stands behind the text. -/
theorem Inert.first {content : List Char} (hInert : Inert registry .running content)
    (hContent : content ≠ []) (tail : List Char) :
    ∃ after, Token registry (registry.lookup? (content ++ tail)) (content ++ tail) after ∧
      Left registry content tail after := by
  cases hInert with
  | nil => exact absurd rfl hContent
  | char hMark hOthers => exact Inert.first_char hBuilt hMark hOthers tail
  | @escaped c others hEscapable hOthers =>
      obtain ⟨char, -, hSpelling, hFound⟩ :=
        hBuilt.lookup?_escaped hTame hEscapable (others ++ tail)
      rw [List.cons_append, List.cons_append, hFound]
      exact ⟨_, @Token.escapedChar _ char ['\\', c] _ hSpelling, .inl ⟨others, hOthers, rfl⟩⟩
  | @formula formula others hFormula hOthers =>
      rw [List.cons_append, List.append_assoc, List.cons_append, hBuilt.lookup?_formula]
      exact ⟨_, .formula _ hFormula, .inl ⟨others, hOthers, rfl⟩⟩
  | @deferred user scopes others hBound hKind hMode hVerbatim hScopes hOthers =>
      rw [List.cons_append, List.append_assoc, List.append_assoc]
      exact Inert.first_deferred hBuilt hTame hBound hKind hMode (.inl ⟨hVerbatim, hScopes⟩)
        hOthers tail
  | @deferredBare user others hBound hKind hMode hVerbatim hOthers =>
      rw [List.cons_append, List.append_assoc]
      exact Inert.first_deferred hBuilt hTame hBound hKind hMode (.inr ⟨hVerbatim, rfl⟩)
        hOthers tail

end First

/-- A token and what is left behind it take no more than the text. -/
theorem Token.length_le {registry : Registry} {length : Nat} {handler : Handler}
    {text after : List Char} (h : Token registry (some (length, handler)) text after) :
    length + after.length ≤ text.length := by
  cases h <;> simp only [List.length_cons, List.length_append] <;> omega

theorem Token.shorter {registry : Registry} {found : Option (Nat × Handler)}
    {text after : List Char} (h : Token registry found text after) : after.length ≤ text.length := by
  cases h <;> simp only [List.length_cons, List.length_append] <;> omega

/-- Only lasting handlers stand in inert text. -/
theorem Token.lasting {registry : Registry} {length : Nat} {handler : Handler}
    {text after : List Char} (h : Token registry (some (length, handler)) text after) :
    handler.lasting = true := by
  cases h with
  | escapedChar => rfl
  | formula => rfl
  | deferred _ hKind hMode => simp [Handler.lasting, hKind, hMode]

/-- The point that `behind` characters come behind is not inside of the text before the
tail. -/
def Beside (behind : Nat) (text tail : List Char) : Prop :=
  behind ≤ tail.length ∨ text.length ≤ behind

/-- The point is beside any shorter text with more behind it. -/
theorem Beside.inner {behind : Nat} {text tail text' tail' : List Char} (h : Beside behind text tail)
    (hText : text'.length ≤ text.length) (hTail : tail.length ≤ tail'.length) :
    Beside behind text' tail' :=
  h.imp (Nat.le_trans · hTail) (Nat.le_trans hText)

/-- Two equal quotes meet where they are the next two characters. -/
theorem quoted_iff {behind : Nat} {text : List Char} :
    quoted behind text = true ↔
      text.length = behind + 1 ∧ ∃ c ∈ Registry.quotes, ∃ after, text = c :: c :: after := by
  unfold quoted
  rw [Bool.and_eq_true, decide_eq_true_eq, List.any_eq_true]
  refine and_congr_right fun _ => exists_congr fun c => and_congr_right fun _ => ?_
  rw [decide_eq_true_eq]
  constructor
  · intro hTake
    have hText := List.take_append_drop 2 text
    rw [hTake] at hText
    exact ⟨text.drop 2, hText.symm⟩
  · rintro ⟨after, rfl⟩
    rfl

/-- Every place of inert text is stable. -/
theorem Inert.stable {s : ExpandState} (block : BlockReader) (hBuilt : s.session.registry.Built)
    (hTame : s.session.registry.Tame) {content tail : List Char}
    (hInert : Inert s.session.registry .running content) (hContent : content ≠ [])
    (hRest : s.rest = content ++ tail) {behind : Nat} (hBeside : Beside behind s.rest tail) :
    stable behind block s = true := by
  obtain ⟨after, hToken, hLeft⟩ := hInert.first hBuilt hTame hContent tail
  unfold Expand.stable
  rw [hRest] at hBeside ⊢
  generalize hFound : s.session.registry.lookup? (content ++ tail) = found at hToken
  cases found with
  | none => rfl
  | some found =>
      obtain ⟨length, handler⟩ := found
      have hLength := hToken.length_le
      have hPositive := List.length_pos_iff.mpr hContent
      rw [Bool.and_eq_true, beq_iff_eq]
      refine ⟨hToken.lasting, ?_⟩
      rw [Bool.eq_iff_iff, quoted_iff, crosses, Bool.and_eq_true, decide_eq_true_eq,
        decide_eq_true_eq]
      have hDoubled : ∀ c ∈ Registry.quotes, ∀ more, content ++ tail = c :: c :: more → length = 2 := by
        intro c hQuote more hText
        obtain ⟨char, -, -, hTwice⟩ := hBuilt.lookup?_doubled hQuote more
        rw [hText, hTwice] at hFound
        exact (Prod.mk.inj (Option.some.inj hFound)).1.symm
      rcases hLeft with ⟨others, -, rfl⟩ | ⟨c, hQuote, rfl, rfl⟩
      · unfold Beside at hBeside
        rw [List.length_append] at hBeside hLength ⊢
        rw [List.length_append] at hLength
        refine ⟨fun hCrosses => by omega, ?_⟩
        rintro ⟨hMeet, c, hQuote, more, hText⟩
        have hTwo := hDoubled c hQuote more hText
        omega
      · have hTwo := hDoubled c hQuote after rfl
        unfold Beside at hBeside
        simp only [List.singleton_append, List.length_cons] at hBeside hLength ⊢
        refine ⟨fun hCrosses => ⟨by omega, c, hQuote, after, rfl⟩, ?_⟩
        rintro ⟨hMeet, -⟩
        omega

end Expand

end MacroMarkup
