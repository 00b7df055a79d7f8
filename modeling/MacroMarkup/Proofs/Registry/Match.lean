import MacroMarkup.Proofs.Registry.Built
import MacroMarkup.Proofs.Text.Split

/-! Which invocation a text starts with. The spellings of a registry have few
shapes, and only a spelling that goes on where another ends can compete with it. -/
namespace MacroMarkup

/-- A macro whose spelling no text that expansion puts together can complete by
accident: the name of a command goes on from no escaped character and starts no
environment, and no environment is kept for a later pass. -/
structure UserMacro.Tame (user : UserMacro) : Prop where
  command : user.kind = .command → ∀ c ∈ user.name.toList.head?, c ∉ ['\\', '%', '$']
  notBegin : user.kind = .command → user.name.toList ≠ "begin".toList
  environment : user.kind = .environment → user.signature.mode = .normalize

namespace Registry

def Tame (registry : Registry) : Prop :=
  ∀ key user, registry.bound key = some (.user user) → user.Tame

instance (user : UserMacro) : Decidable user.Tame :=
  decidable_of_iff ((user.kind = .command → ∀ c ∈ user.name.toList.head?, c ∉ ['\\', '%', '$']) ∧
      (user.kind = .command → user.name.toList ≠ "begin".toList) ∧
      (user.kind = .environment → user.signature.mode = .normalize))
    ⟨fun h => ⟨h.1, h.2.1, h.2.2⟩, fun h => ⟨h.command, h.notBegin, h.environment⟩⟩

/-- Whether a handler is a builtin, or a tame macro. -/
def tames : Handler → Bool
  | .builtin _ => true
  | .user user => user.Tame

/-- A registry is tame if all of its handlers are. -/
theorem tame_of_handlers {registry : Registry} (h : registry.handlers.all tames = true) :
    registry.Tame := by
  intro key user hBound
  have hTames := of_all_handlers h hBound
  simpa [tames] using hTames

/-- What a tame registry extends is tame. -/
theorem Extends.tame {registry registry' : Registry} (h : registry.Extends registry')
    (hTame : registry'.Tame) : registry.Tame := by
  intro key user hBound
  obtain ⟨bodies, hLater⟩ := h key user hBound
  have hUser := hTame key _ hLater
  exact ⟨hUser.command, hUser.notBegin, hUser.environment⟩

/-- The three shapes that a spelling has. -/
inductive Spelled : List Char → Handler → Prop where
  | builtin (spelling : String) (builtin : Builtin) : (spelling, builtin) ∈ Builtin.table →
      Spelled spelling.toList (.builtin builtin)
  | command (user : UserMacro) : user.kind = .command → user.Proper →
      Spelled ('\\' :: user.name.toList) (.user user)
  | environment (user : UserMacro) : user.kind = .environment → user.Proper →
      Spelled ("\\begin\x7b".toList ++ user.name.toList ++ ['\x7d']) (.user user)

/-- Whatever is bound is spelled in one of the ways of its kind. -/
theorem Built.spelled {registry : Registry} (hBuilt : registry.Built) {key : List Char}
    {handler : Handler} (h : registry.bound key = some handler) : Spelled key handler := by
  cases handler with
  | builtin builtin =>
      obtain ⟨spelling, hMem, rfl⟩ := hBuilt.sound.builtin key builtin h
      exact .builtin spelling builtin hMem
  | user user =>
      obtain ⟨rfl, hProper⟩ := hBuilt.sound.user key user h
      cases hKind : user.kind with
      | command =>
          have hKey : (MacroKind.command.invocation user.name).toList = '\\' :: user.name.toList := by
            rw [MacroKind.invocation, Spelling.command, String.toList_append]
            rfl
          rw [hKey]
          exact .command user hKind hProper
      | environment =>
          have hKey : (MacroKind.environment.invocation user.name).toList =
              "\\begin\x7b".toList ++ user.name.toList ++ ['\x7d'] := by
            rw [MacroKind.invocation, Spelling.openEnvironment, Spelling.braced,
              String.toList_append, String.toList_append, String.toList_append]
            rfl
          rw [hKey]
          exact .environment user hKind hProper

/-- No builtin is ever taken away. -/
theorem Built.isSome_bound_of_mem {registry : Registry} (hBuilt : registry.Built)
    {key : List Char} (h : key ∈ Builtin.table.map (·.1.toList)) : (registry.bound key).isSome := by
  obtain ⟨⟨spelling, builtin⟩, hMem, rfl⟩ := List.mem_map.mp h
  exact hBuilt.sound.table spelling builtin hMem

/-- A spelling is found where none that is longer matches. -/
theorem Built.lookup?_eq_some {registry : Registry} (hBuilt : registry.Built) {key : List Char}
    {handler : Handler} (hKey : key ≠ []) (hBound : registry.bound key = some handler)
    (after : List Char)
    (hLonger : ∀ c more handler', c :: more <+: after →
      registry.bound (key ++ c :: more) ≠ some handler') :
    registry.lookup? (key ++ after) = some (key.length, handler) := by
  rw [hBuilt.wellFormed.lookup?_eq_some_iff]
  refine ⟨key, ⟨hKey, List.prefix_append _ _, hBound, fun key' hMatched hSome => ?_⟩, rfl⟩
  by_contra hLength
  obtain ⟨more, rfl⟩ : key <+: key' :=
    List.prefix_of_prefix_length_le (List.prefix_append _ _) hMatched (by omega)
  rw [List.prefix_append_right_inj] at hMatched
  obtain ⟨handler', hHandler⟩ := Option.isSome_iff_exists.mp hSome
  cases more with
  | nil => simp at hLength
  | cons c more => exact hLonger c more handler' hMatched hHandler

/-- Nothing is found where no spelling can be. -/
theorem Built.lookup?_eq_none {registry : Registry} (hBuilt : registry.Built) {text : List Char}
    (h : ∀ key handler, key ≠ [] → key <+: text → ¬ Spelled key handler) :
    registry.lookup? text = none := by
  rw [hBuilt.wellFormed.lookup?_eq_none_iff]
  intro key hKey hMatched
  cases hBound : registry.bound key with
  | none => rfl
  | some handler => exact absurd (hBuilt.spelled hBound) (h key handler hKey hMatched)

/-- The characters that an escape stands before. -/
def escapable : List Char :=
  ['\\', ' ', '%', '\x7b', '\x7d', '$']

/-- The characters of which two in a row are written as one. -/
def quotes : List Char :=
  "`'".toList

/-- What the spellings of the builtins look like. The lemmas below are its parts. -/
theorem table_spellings : ∀ entry ∈ Builtin.table,
    (entry.1.toList.head? = some '\\' ∨
      entry.1.toList ∈ [['\x7b'], ['\x7d'], ['%'], ['$']] ∨
      (∃ char ∈ EscapedChar.table, entry = (char.ctx, .escapedChar char)) ∧
        entry.1.toList.head? ≠ none ∧ entry.1.toList.tail ∈ [[], entry.1.toList.take 1]) ∧
    (∀ c ∈ escapable, entry.1.toList.take 2 = ['\\', c] →
      ∃ char ∈ EscapedChar.table, entry = (char.ctx, .escapedChar char) ∧
        char.ctx.toList = ['\\', c]) ∧
    (∀ c ∈ ['%', '$'], entry.1.toList.head? = some c → entry.1.toList = [c]) ∧
    ('\x7b' ∈ entry.1.toList → entry.1.toList ∈ [['\x7b'], ['\\', '\x7b']]) ∧
    (∀ c ∈ entry.1.toList, Text.isBlank c → entry.1.toList = ['\\', ' ']) ∧
    ((∃ char ∈ EscapedChar.table, entry.2 = .escapedChar char) ∨
      ∀ c ∈ entry.1.toList, c ≠ ' ' ∧ c ≠ '\n') := by
  decide +kernel

/-- Spellings that every registry has. -/
theorem table_holds : (∀ c ∈ ['\\', '\x7b', '\x7d', '%', '$'],
      [c] ∈ Builtin.table.map (·.1.toList)) ∧
    (∀ c ∈ escapable, ['\\', c] ∈ Builtin.table.map (·.1.toList)) ∧
    ∀ c ∈ quotes, [c, c] ∈ Builtin.table.map (·.1.toList) ∧
      c ∉ ['\\', '\x7b', '\x7d', '%', '$'] := by
  decide +kernel

/-- A spelling that starts with no escape is a single mark, or an escaped
character written as one or two times the same character. -/
theorem table_unescaped : ∀ entry ∈ Builtin.table, entry.1.toList.head? = some '\\' ∨
    entry.1.toList ∈ [['\x7b'], ['\x7d'], ['%'], ['$']] ∨
    (∃ char ∈ EscapedChar.table, entry = (char.ctx, .escapedChar char)) ∧
      entry.1.toList.head? ≠ none ∧ entry.1.toList.tail ∈ [[], entry.1.toList.take 1] :=
  fun entry h => (table_spellings entry h).1

/-- Behind a backslash only escapes start with an escapable character. -/
theorem table_escaped : ∀ entry ∈ Builtin.table, ∀ c ∈ escapable,
    entry.1.toList.take 2 = ['\\', c] →
    ∃ char ∈ EscapedChar.table, entry = (char.ctx, .escapedChar char) ∧
      char.ctx.toList = ['\\', c] :=
  fun entry h => (table_spellings entry h).2.1

/-- Escaped characters stand under their escapes. -/
theorem table_escapedChar {spelling : String} {char : EscapedChar}
    (h : (spelling, .escapedChar char) ∈ Builtin.table) :
    char ∈ EscapedChar.table ∧ spelling = char.ctx := by
  simp only [Builtin.table, List.cons_append, List.mem_cons, List.mem_append, List.mem_map,
    Prod.mk.injEq, reduceCtorEq, and_false, false_or, List.not_mem_nil, or_false] at h
  obtain ⟨other, hMem, hSpelling, hSame⟩ := h
  cases hSame
  exact ⟨hMem, hSpelling.symm⟩

/-- The marks of comments and formulas begin no other builtin. -/
theorem table_mark : ∀ entry ∈ Builtin.table, ∀ c ∈ ['%', '$'], entry.1.toList.head? = some c →
    entry.1.toList = [c] :=
  fun entry h => (table_spellings entry h).2.2.1

/-- No two builtins have one spelling. -/
theorem table_injective : ∀ entry ∈ Builtin.table, ∀ entry' ∈ Builtin.table,
    entry.1.toList = entry'.1.toList → entry.2 = entry'.2 := by
  decide +kernel

/-- No builtin has an opening brace but the brace itself and its escape. -/
theorem table_brace : ∀ entry ∈ Builtin.table, '\x7b' ∈ entry.1.toList →
    entry.1.toList ∈ [['\x7b'], ['\\', '\x7b']] :=
  fun entry h => (table_spellings entry h).2.2.2.1

/-- No builtin has a blank but the escaped space. -/
theorem table_blank : ∀ entry ∈ Builtin.table, ∀ c ∈ entry.1.toList, Text.isBlank c →
    entry.1.toList = ['\\', ' '] :=
  fun entry h => (table_spellings entry h).2.2.2.2.1

/-- Text is not literal where a mark or an escape stands. -/
theorem Built.unmarked_of_literal {registry : Registry} (hBuilt : registry.Built) {c : Char}
    {text : List Char} (h : registry.lookup? (c :: text) = none) :
    c ∉ ['\\', '\x7b', '\x7d', '%', '$'] := by
  intro hMark
  have hBound := hBuilt.isSome_bound_of_mem (table_holds.1 c hMark)
  rw [hBuilt.wellFormed.lookup?_eq_none_iff] at h
  rw [h [c] (by simp) (by simp)] at hBound
  cases hBound

theorem mark_of_environment (name : List Char) :
    ("\\begin\x7b".toList ++ name ++ ['\x7d']).head? = some '\\' := rfl

/-- Spaces and line breaks are literal: a spelling has a blank behind its escape
only. -/
theorem Built.lookup?_blank {registry : Registry} (hBuilt : registry.Built) {c : Char}
    (hBlank : c = ' ' ∨ c = '\n') (text : List Char) : registry.lookup? (c :: text) = none := by
  refine hBuilt.lookup?_eq_none fun key handler hKey hMatched hSpelled => ?_
  have hHead : key.head? = some c := by
    obtain ⟨after, hText⟩ := hMatched
    cases key with
    | nil => exact absurd rfl hKey
    | cons d more => exact congrArg some (List.cons.inj hText).1
  have hMem : c ∈ key := List.mem_of_mem_head? hHead
  have hEscape : c ≠ '\\' := by
    rcases hBlank with rfl | rfl <;> decide
  cases hSpelled with
  | builtin spelling builtin hTable =>
      have hIsBlank : Text.isBlank c := by
        rcases hBlank with rfl | rfl <;> decide
      rw [table_blank _ hTable c hMem hIsBlank] at hHead
      exact hEscape (Option.some.inj hHead).symm
  | command user => exact hEscape (Option.some.inj hHead).symm
  | environment user =>
      rw [mark_of_environment] at hHead
      exact hEscape (Option.some.inj hHead).symm

/-- Only escaped characters may have blanks. -/
theorem table_unspaced : ∀ entry ∈ Builtin.table,
    (∃ char ∈ EscapedChar.table, entry.2 = .escapedChar char) ∨
      ∀ c ∈ entry.1.toList, c ≠ ' ' ∧ c ≠ '\n' :=
  fun entry h => (table_spellings entry h).2.2.2.2.2

/-- Only an escaped character is spelled with a blank. -/
theorem Spelled.unspaced {key : List Char} {handler : Handler} (h : Spelled key handler) :
    (∃ char, handler = .builtin (.escapedChar char)) ∨ ∀ c ∈ key, c ≠ ' ' ∧ c ≠ '\n' := by
  have hName : ∀ {user : UserMacro}, user.Proper → ∀ c ∈ user.name.toList, c ≠ ' ' ∧ c ≠ '\n' := by
    intro user hProper c hMem
    have hVisible := (hProper.spelled c hMem).1
    constructor <;> rintro rfl <;> exact absurd hVisible (by decide)
  cases h with
  | builtin spelling builtin hMem =>
      rcases table_unspaced _ hMem with ⟨char, -, hEntry⟩ | hChars
      · exact .inl ⟨char, congrArg Handler.builtin hEntry⟩
      · exact .inr hChars
  | command user _ hProper =>
      refine .inr fun c hMem => ?_
      rcases List.mem_cons.mp hMem with rfl | hMem
      · decide
      · exact hName hProper c hMem
  | environment user _ hProper =>
      refine .inr fun c hMem => ?_
      rw [List.mem_append, List.mem_append, List.mem_singleton] at hMem
      rcases hMem with (hOpen | hMem) | rfl
      · have hAll : ∀ c ∈ "\\begin\x7b".toList, c ≠ ' ' ∧ c ≠ '\n' := by decide
        exact hAll c hOpen
      · exact hName hProper c hMem
      · decide

/-- A spelling with a blank is the escaped space. -/
theorem Built.key_of_blank {registry : Registry} (hBuilt : registry.Built) {key : List Char}
    (hSome : (registry.bound key).isSome) {c : Char} (hMem : c ∈ key) (hBlank : c = ' ' ∨ c = '\n') :
    key = ['\\', ' '] := by
  obtain ⟨handler, hBound⟩ := Option.isSome_iff_exists.mp hSome
  have hSpelled := hBuilt.spelled hBound
  have hNotUnspaced : ¬ ∀ c ∈ key, c ≠ ' ' ∧ c ≠ '\n' := by
    intro h
    rcases hBlank with rfl | rfl
    · exact (h _ hMem).1 rfl
    · exact (h _ hMem).2 rfl
  rcases hSpelled.unspaced with ⟨char, rfl⟩ | hUnspaced
  · obtain ⟨spelling, hTable, rfl⟩ := hBuilt.sound.builtin key _ hBound
    exact table_blank _ hTable c hMem (by rcases hBlank with rfl | rfl <;> decide)
  · exact absurd hUnspaced hNotUnspaced

/-- Blanks in front of a closing brace change no lookup before it, except where
an invocation takes the brace in. -/
theorem Built.lookup?_spaced {registry : Registry} (hBuilt : registry.Built)
    {text blanks after : List Char} (hBlanks : Text.Spacing blanks)
    (hWithin : ∀ length handler, registry.lookup? (text ++ '\x7d' :: after) = some (length, handler) →
      length ≤ text.length) :
    registry.lookup? (text ++ (blanks ++ '\x7d' :: after)) =
      registry.lookup? (text ++ '\x7d' :: after) := by
  have hShort : ∀ key, key <+: text ++ '\x7d' :: after → (registry.bound key).isSome →
      key.length ≤ text.length := by
    intro key hMatched hSome
    by_contra hLong
    cases hLookup : registry.lookup? (text ++ '\x7d' :: after) with
    | none =>
        have hKey : key ≠ [] := by
          rintro rfl
          simp at hLong
        have hNone := hBuilt.wellFormed.bound_eq_none_of_lookup? hLookup hKey hMatched
        rw [hNone] at hSome
        cases hSome
    | some found =>
        obtain ⟨length, handler⟩ := found
        have hLength := hWithin length handler hLookup
        obtain ⟨longest, hLongest, rfl⟩ := hBuilt.wellFormed.longest_of_lookup? hLookup
        have hLe := hLongest.longest key hMatched hSome
        omega
  cases blanks with
  | nil => rfl
  | cons b blanks =>
      rw [hBuilt.wellFormed.lookup?_append hShort, hBuilt.wellFormed.lookup?_append]
      intro key hMatched hSome
      by_contra hLong
      -- a spelling that reaches a blank is the escaped space, but an escape and a brace match as well
      obtain ⟨more, rfl⟩ : text <+: key :=
        List.prefix_of_prefix_length_le (List.prefix_append _ _) hMatched (by omega)
      rw [List.prefix_append_right_inj] at hMatched
      cases more with
      | nil => simp at hLong
      | cons c more =>
          obtain ⟨rfl, -⟩ := List.cons_prefix_cons.mp hMatched
          have hKey := hBuilt.key_of_blank hSome (c := c) (by simp) (hBlanks c (by simp))
          have hText : text = ['\\'] := by
            cases text with
            | nil => 
                rw [List.nil_append, List.cons.injEq] at hKey
                rcases hBlanks c (by simp) with rfl | rfl <;> exact absurd hKey.1 (by decide)
            | cons d text =>
                rw [List.cons_append, List.cons.injEq] at hKey
                cases text with
                | nil => rw [hKey.1]
                | cons e text => simp at hKey
          have hBrace := hShort ['\\', '\x7d'] (by rw [hText]; simp)
            (hBuilt.isSome_bound_of_mem (table_holds.2.1 '\x7d' (by decide)))
          rw [hText] at hBrace
          simp at hBrace

/-- Text that starts with no mark and no escape is literal, or an escaped
character, written as one or two times the same character. -/
theorem Built.lookup?_unescaped {registry : Registry} (hBuilt : registry.Built) {c : Char}
    {text : List Char} (hMark : c ∉ ['\\', '\x7b', '\x7d', '%', '$']) {length : Nat}
    {handler : Handler} (h : registry.lookup? (c :: text) = some (length, handler)) :
    ∃ char ∈ EscapedChar.table, handler = .builtin (.escapedChar char) ∧
      char.ctx.toList = (c :: text).take length ∧
      (length = 1 ∨ length = 2 ∧ ∃ after, text = c :: after) := by
  obtain ⟨key, hLongest, rfl⟩ := hBuilt.wellFormed.longest_of_lookup? h
  obtain ⟨after, hText⟩ := hLongest.matched
  have hTake : (c :: text).take key.length = key := by
    rw [← hText]
    simp
  rw [hTake]
  obtain ⟨more, rfl⟩ : ∃ more, key = c :: more := by
    cases key with
    | nil => exact absurd rfl hLongest.ne_nil
    | cons d more =>
        rw [List.cons_append, List.cons.injEq] at hText
        exact ⟨more, by rw [hText.1]⟩
  generalize hKey : c :: more = key at hLongest hTake
  have hHead : key.head? = some c := by rw [← hKey]; rfl
  cases hBuilt.spelled hLongest.bound with
  | builtin spelling builtin hMem =>
      rcases table_unescaped _ hMem with hEscape | hSingle | ⟨⟨char, hChar, hEntry⟩, -, hTail⟩
      · rw [hHead] at hEscape
        cases hEscape
        exact absurd (by simp) hMark
      · rw [← hKey] at hSingle
        simp only [List.mem_cons, List.cons.injEq, List.not_mem_nil, or_false] at hSingle
        rcases hSingle with ⟨rfl, -⟩ | ⟨rfl, -⟩ | ⟨rfl, -⟩ | ⟨rfl, -⟩ <;> simp at hMark
      · cases hEntry
        refine ⟨char, hChar, rfl, rfl, ?_⟩
        dsimp only at hTail
        rw [← hKey, List.tail_cons, List.take_succ_cons, List.take_zero] at hTail
        simp only [List.mem_cons, List.not_mem_nil, or_false] at hTail
        rcases hTail with rfl | rfl
        · exact .inl (by rw [← hKey]; rfl)
        · exact .inr ⟨by rw [← hKey]; rfl, after, (List.cons.inj hText).2.symm⟩
  | command user =>
      cases hHead
      exact absurd (by simp) hMark
  | environment user =>
      rw [mark_of_environment] at hHead
      cases hHead
      exact absurd (by simp) hMark

/-- An escape of two characters has a backslash, or is a doubled quote. -/
theorem table_doubled : ∀ char ∈ EscapedChar.table, char.ctx.toList.length = 2 →
    char.ctx.toList.head? = some '\\' ∨ ∃ c ∈ quotes, char.ctx.toList = [c, c] := by
  decide +kernel

/-- What is escaped by doubling is a quote. -/
theorem mem_quotes {char : EscapedChar} (h : char ∈ EscapedChar.table) {c : Char}
    (hDoubled : char.ctx.toList = [c, c]) (hEscape : c ≠ '\\') : c ∈ quotes := by
  rcases table_doubled char h (by rw [hDoubled]; rfl) with hHead | ⟨d, hQuote, hSame⟩
  · rw [hDoubled] at hHead
    exact absurd (Option.some.inj hHead) hEscape
  · rw [hDoubled] at hSame
    rwa [(List.cons.inj hSame).1]

/-- Two quotes in a row are read at once. -/
theorem Built.lookup?_doubled {registry : Registry} (hBuilt : registry.Built) {c : Char}
    (hQuote : c ∈ quotes) (after : List Char) :
    ∃ char ∈ EscapedChar.table, char.ctx.toList = [c, c] ∧
      registry.lookup? (c :: c :: after) = some (2, .builtin (.escapedChar char)) := by
  obtain ⟨hMem, hMark⟩ := table_holds.2.2 c hQuote
  have hSome := hBuilt.isSome_bound_of_mem hMem
  have hMatched : [c, c] <+: c :: c :: after := List.prefix_append [c, c] after
  cases hFound : registry.lookup? (c :: c :: after) with
  | none =>
      rw [hBuilt.wellFormed.bound_eq_none_of_lookup? hFound (by simp) hMatched] at hSome
      cases hSome
  | some found =>
      obtain ⟨length, handler⟩ := found
      obtain ⟨char, hChar, rfl, hSpelling, hLength⟩ := hBuilt.lookup?_unescaped hMark hFound
      obtain ⟨key, hLongest, rfl⟩ := hBuilt.wellFormed.longest_of_lookup? hFound
      have hTwo : 2 ≤ key.length := hLongest.longest [c, c] hMatched hSome
      have hExact : key.length = 2 := by
        rcases hLength with hOne | ⟨hTwo, -⟩ <;> omega
      rw [hExact] at hSpelling ⊢
      exact ⟨char, hChar, hSpelling, rfl⟩

/-- Among tame macros, no spelling goes on from an escaped character. -/
theorem Built.bound_escaped {registry : Registry} (hBuilt : registry.Built)
    (hTame : registry.Tame) {c : Char} (hEscapable : c ∈ escapable) {more : List Char}
    {handler : Handler} (h : registry.bound ('\\' :: c :: more) = some handler) :
    more = [] ∧ ∃ char ∈ EscapedChar.table, handler = .builtin (.escapedChar char) ∧
      char.ctx.toList = ['\\', c] := by
  have hSpelled := hBuilt.spelled h
  generalize hKey : '\\' :: c :: more = key at h hSpelled
  cases hSpelled with
  | builtin spelling builtin hMem =>
      have hTake : spelling.toList.take 2 = ['\\', c] := by rw [← hKey]; rfl
      obtain ⟨char, hChar, hEntry, hSpelling⟩ := table_escaped _ hMem c hEscapable hTake
      cases hEntry
      rw [hSpelling, List.cons.injEq, List.cons.injEq] at hKey
      exact ⟨hKey.2.2, char, hChar, rfl, hSpelling⟩
  | command user hKind hProper =>
      exfalso
      rw [List.cons.injEq] at hKey
      have hFirst := (hTame _ user h).command hKind c (by rw [← hKey.2]; rfl)
      have hChar := hProper.spelled c (by rw [← hKey.2]; simp)
      simp only [escapable, List.mem_cons, List.not_mem_nil, or_false] at hEscapable
      rcases hEscapable with rfl | rfl | rfl | rfl | rfl | rfl
      · simp at hFirst
      · exact absurd hChar.1 (by decide)
      · simp at hFirst
      · exact hChar.2.1 rfl
      · exact hChar.2.2 rfl
      · simp at hFirst
  | environment user =>
      exfalso
      have hSecond : c = 'b' := by
        have hDrop := congrArg (fun key => (key.drop 1).head?) hKey
        exact Option.some.inj hDrop
      rw [hSecond] at hEscapable
      exact absurd hEscapable (by decide)

/-- Among tame macros, an escaped character is found where it is written. -/
theorem Built.lookup?_escaped {registry : Registry} (hBuilt : registry.Built)
    (hTame : registry.Tame) {c : Char} (hEscapable : c ∈ escapable) (text : List Char) :
    ∃ char ∈ EscapedChar.table, char.ctx.toList = ['\\', c] ∧
      registry.lookup? ('\\' :: c :: text) = some (2, .builtin (.escapedChar char)) := by
  have hMem := table_holds.2.1 c hEscapable
  obtain ⟨handler, hBound⟩ := Option.isSome_iff_exists.mp (hBuilt.isSome_bound_of_mem hMem)
  obtain ⟨-, char, hChar, rfl, hSpelling⟩ := hBuilt.bound_escaped hTame hEscapable hBound
  refine ⟨char, hChar, hSpelling, ?_⟩
  refine hBuilt.lookup?_eq_some (by simp) hBound text ?_
  intro d more handler' _ hLonger
  have hNil := (hBuilt.bound_escaped hTame hEscapable hLonger).1
  cases hNil

/-- A comment and a formula are found where their marks are written. -/
theorem Built.lookup?_mark {registry : Registry} (hBuilt : registry.Built) {c : Char}
    (hMark : c ∈ ['%', '$']) {spelling : String} {builtin : Builtin}
    (hTable : (spelling, builtin) ∈ Builtin.table) (hSpelling : spelling.toList = [c])
    (text : List Char) : registry.lookup? (c :: text) = some (1, .builtin builtin) := by
  have hEscape : c ≠ '\\' := by
    rintro rfl
    exact absurd hMark (by decide)
  have hShape : ∀ more handler, registry.bound (c :: more) = some handler →
      more = [] ∧ handler = .builtin builtin := by
    intro more handler h
    have hSpelled := hBuilt.spelled h
    generalize hKey : c :: more = key at hSpelled
    cases hSpelled with
    | builtin spelling' builtin' hMem =>
        have hAlone := table_mark _ hMem c hMark (by rw [← hKey]; rfl)
        have hSame := table_injective _ hMem _ hTable (hAlone.trans hSpelling.symm)
        exact ⟨(List.cons.inj (hKey.trans hAlone)).2, congrArg Handler.builtin hSame⟩
    | command user => exact absurd (List.cons.inj hKey).1 hEscape
    | environment user => exact absurd (List.cons.inj hKey).1 hEscape
  have hMem : [c] ∈ Builtin.table.map (·.1.toList) := List.mem_map.mpr ⟨_, hTable, hSpelling⟩
  obtain ⟨handler, hBound⟩ := Option.isSome_iff_exists.mp (hBuilt.isSome_bound_of_mem hMem)
  obtain ⟨-, rfl⟩ := hShape [] handler hBound
  refine hBuilt.lookup?_eq_some (by simp) hBound text ?_
  intro d more handler' _ hLonger
  have hNil := (hShape _ handler' hLonger).1
  cases hNil

/-- A dollar sign is always that of a formula. -/
theorem Built.lookup?_formula {registry : Registry} (hBuilt : registry.Built) (text : List Char) :
    registry.lookup? ('$' :: text) = some (1, .builtin .math) :=
  hBuilt.lookup?_mark (by decide) (by decide : (Spelling.math, .math) ∈ Builtin.table) rfl text

/-- A percent sign is always that of a comment. -/
theorem Built.lookup?_comment {registry : Registry} (hBuilt : registry.Built) (text : List Char) :
    registry.lookup? ('%' :: text) = some (1, .builtin .comment) :=
  hBuilt.lookup?_mark (by decide) (by decide : (Spelling.comment, .comment) ∈ Builtin.table) rfl text

/-- A bound spelling with a brace is that of an environment, apart from the brace itself and
its escape. -/
theorem Built.environment_of_brace {registry : Registry} (hBuilt : registry.Built) {key : List Char}
    {handler : Handler} (hBound : registry.bound key = some handler) (hBrace : '\x7b' ∈ key)
    (hLong : 2 < key.length) : ∃ user : UserMacro, user.Proper ∧
      key = '\\' :: ("begin".toList ++ '\x7b' :: (user.name.toList ++ ['\x7d'])) := by
  cases hBuilt.spelled hBound with
  | builtin spelling builtin hTable =>
      have hShort := table_brace _ hTable hBrace
      simp only [List.mem_cons, List.not_mem_nil, or_false] at hShort
      rcases hShort with hShort | hShort <;> rw [hShort] at hLong <;> simp at hLong
  | command other _ hOther =>
      rcases List.mem_cons.mp hBrace with hHead | hName
      · cases hHead
      · exact absurd rfl (hOther.spelled _ hName).2.1
  | environment other _ hOther => exact ⟨other, hOther, rfl⟩

/-- No spelling goes on with a brace behind an escape and a word, unless the word is that
which opens environments. -/
theorem Built.not_bound_brace {registry : Registry} (hBuilt : registry.Built) {word : List Char}
    (hWord : word ≠ []) (hBrace : '\x7b' ∉ word) (hBegin : word ≠ "begin".toList) (more : List Char)
    (handler : Handler) : registry.bound ('\\' :: word ++ '\x7b' :: more) ≠ some handler := by
  intro hLonger
  have hSome := List.length_pos_iff.mpr hWord
  obtain ⟨other, -, hKey⟩ := hBuilt.environment_of_brace hLonger (by simp) (by
    simp only [List.cons_append, List.length_cons, List.length_append]
    omega)
  have hInner : word ++ '\x7b' :: more =
      "begin".toList ++ '\x7b' :: (other.name.toList ++ ['\x7d']) := (List.cons.inj hKey).2
  have hFound := congrArg (Text.before? ['\x7b']) hInner
  rw [Text.before?_single_of_not_mem hBrace, Text.before?_single_of_not_mem (by decide)] at hFound
  exact hBegin (Option.some.inj hFound)

/-- A command is found where its scopes follow, unless it is called as the
environments are opened. -/
theorem Built.lookup?_command {registry : Registry} (hBuilt : registry.Built) {user : UserMacro}
    (hBound : registry.bound ('\\' :: user.name.toList) = some (.user user))
    (hBegin : user.name.toList ≠ "begin".toList)
    (text : List Char) :
    registry.lookup? ('\\' :: user.name.toList ++ '\x7b' :: text) =
      some (user.name.toList.length + 1, .user user) := by
  obtain ⟨-, hProper⟩ := hBuilt.sound.user _ user hBound
  have hBrace : '\x7b' ∉ user.name.toList := fun h => (hProper.spelled _ h).2.1 rfl
  refine hBuilt.lookup?_eq_some (by simp) hBound _ ?_
  intro d more handler hMatched
  obtain ⟨rfl, -⟩ := List.cons_prefix_cons.mp hMatched
  exact hBuilt.not_bound_brace hProper.named hBrace hBegin more handler

/-- A directive is found where its scope follows, as long as it is not redefined. -/
theorem Built.lookup?_directive {registry : Registry} (hBuilt : registry.Built) {spelling : String}
    {builtin : Builtin} (hTable : (spelling, builtin) ∈ Builtin.table) {word : List Char}
    (hWord : spelling.toList = '\\' :: word) (hSome : word ≠ []) (hBrace : '\x7b' ∉ word)
    (hBegin : word ≠ "begin".toList) (hFree : registry.userMacro? spelling = none)
    (text : List Char) : registry.lookup? (spelling.toList ++ '\x7b' :: text) =
      some (spelling.toList.length, .builtin builtin) := by
  obtain ⟨handler, hBound⟩ := Option.isSome_iff_exists.mp (hBuilt.sound.table spelling builtin hTable)
  have hHandler : handler = .builtin builtin := by
    cases handler with
    | builtin other =>
        obtain ⟨spelling', hMem, hSpelling⟩ := hBuilt.sound.builtin _ other hBound
        exact congrArg Handler.builtin (table_injective _ hMem _ hTable hSpelling.symm)
    | user user =>
        unfold userMacro? at hFree
        rw [get?_eq_bound, hBound] at hFree
        cases hFree
  rw [hHandler] at hBound
  refine hBuilt.lookup?_eq_some (by simp [hWord]) hBound _ ?_
  intro d more handler' hMatched
  obtain ⟨rfl, -⟩ := List.cons_prefix_cons.mp hMatched
  rw [hWord]
  exact hBuilt.not_bound_brace hSome hBrace hBegin more handler'

/-- The directive of inclusions is found, unless it was defined anew. -/
theorem Built.lookup?_usePackage {registry : Registry} (hBuilt : registry.Built)
    (hFree : registry.userMacro? Spelling.usePackage = none) (text : List Char) :
    registry.lookup? (Spelling.usePackage.toList ++ '\x7b' :: text) =
      some (Spelling.usePackage.toList.length, .builtin .usePackage) :=
  hBuilt.lookup?_directive (by decide) (show _ = '\\' :: "usepackage".toList by decide) (by decide)
    (by decide) (by decide) hFree text

/-- An environment is found where its opening is written. -/
theorem Built.lookup?_environment {registry : Registry} (hBuilt : registry.Built) {user : UserMacro}
    (hBound : registry.bound (Spelling.openEnvironment user.name).toList = some (.user user))
    (text : List Char) :
    registry.lookup? ((Spelling.openEnvironment user.name).toList ++ text) =
      some ((Spelling.openEnvironment user.name).toList.length, .user user) := by
  have hOpening : ∀ user : UserMacro, (Spelling.openEnvironment user.name).toList =
      '\\' :: ("begin".toList ++ '\x7b' :: (user.name.toList ++ ['\x7d'])) := by
    intro user
    rw [Spelling.openEnvironment, Spelling.braced, String.toList_append, String.toList_append,
      String.toList_append]
    rfl
  obtain ⟨-, hProper⟩ := hBuilt.sound.user _ user hBound
  rw [hOpening] at hBound ⊢
  refine hBuilt.lookup?_eq_some (by simp) hBound _ ?_
  intro c more handler _ hLonger
  obtain ⟨other, hOther, hKey⟩ := hBuilt.environment_of_brace hLonger (by simp) (by simp)
  have hInner : user.name.toList ++ '\x7d' :: (c :: more) = other.name.toList ++ ['\x7d'] := by
    have hDrop := congrArg (List.drop 7) hKey
    simpa using hDrop
  have hFound := congrArg (Text.before? ['\x7d']) hInner
  rw [Text.before?_single_of_not_mem (fun h => (hProper.spelled _ h).2.2 rfl),
    Text.before?_single_of_not_mem (fun h => (hOther.spelled _ h).2.2 rfl)] at hFound
  rw [Option.some.inj hFound] at hInner
  cases List.append_cancel_left hInner

end Registry

end MacroMarkup
