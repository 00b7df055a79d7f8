import MacroMarkup.Proofs.Registry.Match

/-! The word that a text starts with, up to a blank or a brace. No more than the word
behind an invocation has a say in whether a longer spelling starts there. -/
namespace MacroMarkup

namespace Text

def inWord (c : Char) : Bool :=
  c ∉ [' ', '\n', '\x7b', '\x7d']

def word (text : List Char) : List Char :=
  text.takeWhile inWord

theorem word_prefix (text : List Char) : word text <+: text :=
  List.takeWhile_prefix _

theorem word_cons_of_not {c : Char} (h : inWord c = false) (text : List Char) :
    word (c :: text) = [] := by
  rw [word, List.takeWhile_cons, h]
  rfl

theorem word_le_append (text after : List Char) : word text <+: word (text ++ after) := by
  induction text with
  | nil => exact List.nil_prefix
  | cons c text ih =>
      unfold word at *
      rw [List.cons_append, List.takeWhile_cons, List.takeWhile_cons]
      split
      · exact List.cons_prefix_cons.mpr ⟨rfl, ih⟩
      · exact List.prefix_refl _

/-- A longer word behind a text makes the word of both no shorter. -/
theorem word_append_mono {after after' : List Char} (h : word after <+: word after')
    (text : List Char) : word (text ++ after) <+: word (text ++ after') := by
  induction text with
  | nil => exact h
  | cons c text ih =>
      unfold word at *
      rw [List.cons_append, List.cons_append, List.takeWhile_cons, List.takeWhile_cons]
      split
      · exact List.cons_prefix_cons.mpr ⟨rfl, ih⟩
      · exact List.prefix_refl _

/-- Text of a word that comes next is part of the word that comes next. -/
theorem prefix_word {text after : List Char} (hPrefix : text <+: after)
    (hWord : ∀ c ∈ text, inWord c = true) : text <+: word after := by
  obtain ⟨more, rfl⟩ := hPrefix
  rw [word, List.takeWhile_append_of_pos hWord]
  exact List.prefix_append _ _

/-- No word starts with a blank. -/
theorem word_spacing {blanks : List Char} (h : Spacing blanks) (hSome : blanks ≠ [])
    (after : List Char) : word (blanks ++ after) = [] := by
  obtain ⟨b, blanks, rfl⟩ := List.exists_cons_of_ne_nil hSome
  rw [List.cons_append]
  refine word_cons_of_not ?_ _
  rcases h b (by simp) with rfl | rfl <;> rfl

/-- No word starts where a row ends. -/
theorem word_rowEnd (text : List Char) :
    word (text.drop (text.takeWhile (· ≠ '\n')).length) = [] := by
  induction text with
  | nil => rfl
  | cons c text ih =>
      rw [List.takeWhile_cons]
      split
      · exact ih
      · rename_i hBreak
        obtain rfl : c = '\n' := by simpa using hBreak
        exact word_cons_of_not rfl text

end Text

namespace Registry

/-- Every macro of the registry is a command of a later pass that stays in the
paragraph. -/
def Deferring (registry : Registry) : Prop :=
  ∀ key user, registry.bound key = some (.user user) →
    user.kind = .command ∧ user.signature.mode ≠ .normalize ∧
      user.signature.policy = .wrapInParagraph

/-- What stands in the spellings of the builtins. The lemmas below are its parts. -/
theorem table_words : ∀ entry ∈ Builtin.table,
    (∀ c ∈ entry.1.toList, Text.inWord c = false →
      entry.1.toList = [c] ∨ entry.1.toList = ['\\', c]) ∧
    (entry.1.toList = ['\\'] → entry.2 = .escape) ∧
    ∀ c ∈ entry.1.toList.head?, [c] ∈ Builtin.table.map (·.1.toList) := by
  decide +kernel

/-- A builtin has a character outside of words only as its mark, or as what it escapes. -/
theorem table_marked : ∀ entry ∈ Builtin.table, ∀ c ∈ entry.1.toList, Text.inWord c = false →
    entry.1.toList = [c] ∨ entry.1.toList = ['\\', c] :=
  fun entry h => (table_words entry h).1

theorem table_escape : ∀ entry ∈ Builtin.table, entry.1.toList = ['\\'] →
    entry.2 = .escape :=
  fun entry h => (table_words entry h).2.1

/-- A blank or a brace stands in a spelling by itself, escaped, or in the opening of an
environment. -/
theorem Built.key_of_mark {registry : Registry} (hBuilt : registry.Built) {key : List Char}
    {handler : Handler} (hBound : registry.bound key = some handler) {c : Char} (hMem : c ∈ key)
    (hMark : Text.inWord c = false) :
    key = [c] ∨ key = ['\\', c] ∨ ∃ user : UserMacro, handler = .user user ∧
      user.kind = .environment ∧
        key = "\\begin".toList ++ '\x7b' :: (user.name.toList ++ ['\x7d']) := by
  cases hBuilt.spelled hBound with
  | builtin spelling builtin hTable =>
      rcases table_marked _ hTable c hMem hMark with hAlone | hEscaped
      · exact .inl hAlone
      · exact .inr (.inl hEscaped)
  | command user _ hProper =>
      rcases List.mem_cons.mp hMem with rfl | hMem
      · cases hMark
      · obtain ⟨hBlank, hBegin, hEnd⟩ := hProper.spelled c hMem
        simp only [Text.inWord, decide_eq_false_iff_not, not_not, List.mem_cons, List.not_mem_nil,
          or_false] at hMark
        rcases hMark with rfl | rfl | rfl | rfl
        · exact absurd hBlank (by decide)
        · exact absurd hBlank (by decide)
        · exact absurd rfl hBegin
        · exact absurd rfl hEnd
  | environment user hKind => exact .inr (.inr ⟨user, rfl, hKind, rfl⟩)

/-- A lone backslash is an escape without a character. -/
theorem Built.escape_of_bound {registry : Registry} (hBuilt : registry.Built) {handler : Handler}
    (hBound : registry.bound ['\\'] = some handler) : handler = .builtin .escape := by
  generalize hKey : ['\\'] = key at hBound
  cases hBuilt.spelled hBound with
  | builtin spelling builtin hTable =>
      exact congrArg Handler.builtin (table_escape _ hTable hKey.symm)
  | command user _ hProper => exact absurd (List.cons.inj hKey).2.symm hProper.named
  | environment user => cases hKey

/-- A spelling that goes on over a blank or a brace behind another opens an environment. -/
theorem Built.environment_of_longer {registry : Registry} (hBuilt : registry.Built)
    {key more : List Char} {handler handler' : Handler} (hKey : key ≠ [])
    (hBound : registry.bound key = some handler) (hEscape : handler ≠ .builtin .escape)
    (hLonger : registry.bound (key ++ more) = some handler') {c : Char} (hMem : c ∈ more)
    (hMark : Text.inWord c = false) :
    ∃ user : UserMacro, handler' = .user user ∧ user.kind = .environment ∧
      key ++ more = "\\begin".toList ++ '\x7b' :: (user.name.toList ++ ['\x7d']) := by
  have hMore := List.length_pos_iff.mpr (List.ne_nil_of_mem hMem)
  have hLong := List.length_pos_iff.mpr hKey
  rcases hBuilt.key_of_mark hLonger (List.mem_append_right key hMem) hMark with
    hAlone | hEscaped | hEnvironment
  · have hLength := congrArg List.length hAlone
    rw [List.length_append, List.length_singleton] at hLength
    omega
  · obtain ⟨b, rest, rfl⟩ := List.exists_cons_of_ne_nil hKey
    rw [List.cons_append] at hEscaped
    obtain ⟨rfl, hRest⟩ := List.cons.inj hEscaped
    cases rest with
    | nil => exact absurd (hBuilt.escape_of_bound hBound) hEscape
    | cons e rest =>
        have hLength := congrArg List.length hRest
        rw [List.length_append, List.length_cons, List.length_singleton] at hLength
        omega
  · exact hEnvironment

/-- No spelling goes on in a word that stands behind the longest one. -/
theorem Longest.unbound_of_word {registry : Registry} {key after after' more : List Char}
    {handler : Handler} (hLongest : registry.Longest (key ++ after) key handler)
    (hWord : Text.word after' <+: Text.word after) (hMore : more ≠ []) (hMatched : more <+: after')
    (hAll : ∀ c ∈ more, Text.inWord c = true) : registry.bound (key ++ more) = none := by
  by_contra hBound
  have hAfter := ((Text.prefix_word hMatched hAll).trans hWord).trans (Text.word_prefix after)
  have hLe := hLongest.longest _ ((List.prefix_append_right_inj key).mpr hAfter)
    (Option.isSome_iff_ne_none.mpr hBound)
  have hSome := List.length_pos_iff.mpr hMore
  rw [List.length_append] at hLe
  omega

/-- What an invocation is depends on the text behind it only as far as the word there
goes, unless it is a lone escape, or goes on to the opening of an environment. -/
theorem Built.lookup?_of_word {registry : Registry} (hBuilt : registry.Built)
    {key after after' : List Char} {handler : Handler}
    (hLongest : registry.Longest (key ++ after) key handler) (hEscape : handler ≠ .builtin .escape)
    (hWord : Text.word after' <+: Text.word after)
    (hEnvironment : ∀ more user, more <+: after' → registry.bound (key ++ more) = some (.user user) →
      user.kind = .environment →
        key ++ more ≠ "\\begin".toList ++ '\x7b' :: (user.name.toList ++ ['\x7d'])) :
    registry.lookup? (key ++ after') = some (key.length, handler) := by
  refine hBuilt.lookup?_eq_some hLongest.ne_nil hLongest.bound after' ?_
  intro d more handler' hMatched hLonger
  by_cases hAll : ∀ c ∈ d :: more, Text.inWord c = true
  · rw [hLongest.unbound_of_word hWord (List.cons_ne_nil d more) hMatched hAll] at hLonger
    cases hLonger
  · push Not at hAll
    obtain ⟨c, hMem, hMark⟩ := hAll
    obtain ⟨user, rfl, hKind, hKey⟩ := hBuilt.environment_of_longer hLongest.ne_nil hLongest.bound
      hEscape hLonger hMem (Bool.eq_false_iff.mpr hMark)
    exact hEnvironment _ user hMatched hLonger hKind hKey

/-- Where every macro is a command there are no openings. -/
theorem Built.lookup?_word {registry : Registry} (hBuilt : registry.Built)
    (hDeferring : registry.Deferring) {key after after' : List Char} {handler : Handler}
    (hLongest : registry.Longest (key ++ after) key handler) (hEscape : handler ≠ .builtin .escape)
    (hWord : Text.word after' <+: Text.word after) :
    registry.lookup? (key ++ after') = some (key.length, handler) := by
  refine hBuilt.lookup?_of_word hLongest hEscape hWord fun more user _ hLonger hKind => ?_
  obtain ⟨hCommand, -⟩ := hDeferring _ user hLonger
  rw [hKind] at hCommand
  cases hCommand

/-- Whatever a builtin starts with is a builtin of its own. -/
theorem table_head : ∀ entry ∈ Builtin.table, ∀ c ∈ entry.1.toList.head?,
    [c] ∈ Builtin.table.map (·.1.toList) :=
  fun entry h => (table_words entry h).2.2

/-- A character that starts no invocation in one text starts none in any. -/
theorem Built.lookup?_literal {registry : Registry} (hBuilt : registry.Built) {c : Char}
    {text : List Char} (h : registry.lookup? (c :: text) = none) (text' : List Char) :
    registry.lookup? (c :: text') = none := by
  have hEscape := table_holds.1 '\\' (by decide)
  have hAlone : [c] ∉ Builtin.table.map (·.1.toList) := by
    intro hMem
    have hBound := hBuilt.isSome_bound_of_mem hMem
    rw [hBuilt.wellFormed.bound_eq_none_of_lookup? h (by simp) (List.prefix_append [c] text)] at hBound
    cases hBound
  refine hBuilt.lookup?_eq_none fun key handler hKey hMatched hSpelled => hAlone ?_
  have hHead : c ∈ key.head? := by
    obtain ⟨d, more, rfl⟩ := List.exists_cons_of_ne_nil hKey
    obtain ⟨rfl, -⟩ := List.cons_prefix_cons.mp hMatched
    rfl
  cases hSpelled with
  | builtin spelling builtin hTable => exact table_head _ hTable c hHead
  | command user =>
      cases hHead
      exact hEscape
  | environment user =>
      cases hHead
      exact hEscape

end Registry

end MacroMarkup
